/-
TensorProgram/Session.lean

A program in execution.  A session begins with a program that passes the static
check: every value is declared, and every weight is allocated and filled from
the words of the configured seed, in the order of declaration.  Activations
come to life during a forward sweep.

A forward sweep runs the instructions in program order, a backward sweep in the
opposite order, and both stop at the first failure.  A training step is a
forward sweep in training, a backward sweep and one step of gradient descent.
-/
import TensorProgram.Kernel.Dispatch
import TensorProgram.Program.Verify
import TensorProgram.Random.Stream
import TensorProgram.Training

namespace TensorProgram

open Std (ExtTreeMap)

variable {α : Type} [Scalar α]

/-- A program in execution. -/
structure Session (α : Type) where
  /-- The program. -/
  program : Program α
  /-- The tensors bound to its values. -/
  context : Context α
  /-- The parameters of the session. -/
  config : Config α
  /-- The state of training. -/
  trainer : Trainer α
  /-- How many training steps were completed. -/
  steps : Nat

namespace Session

/-! ### Beginning -/

/-- Declare a value and, if it is a weight, allocate and fill it.  The number
counts the words drawn so far. -/
def bindValue (words : Nat → UInt32) (state : Context α × Nat) (v : Value α) :
    Except Error (Context α × Nat) := do
  let (ctx, drawn) := state
  let ctx := ctx.declare v.id ⟨v.kind, v.shape⟩
  match v.role with
  | .activation => return (ctx, drawn)
  | .weight =>
      let blank ← ctx.allocated v.id
      let filled ← v.init.apply words drawn blank
      return (ctx.setWeight v.id filled, drawn + v.init.draws blank.shape.elemCount)

/-- The context with which a program begins. -/
def initialContext (p : Program α) (words : Nat → UInt32) : Except Error (Context α) := do
  let (ctx, _) ← p.values.foldlM (bindValue words) ({}, 0)
  return ctx

/-- Begin a session of a program, with these words for every seed. -/
def begin (p : Program α) (config : Config α)
    (words : UInt64 → Nat → UInt32 := Random.word) : Except Error (Session α) := do
  p.verify
  let context ← initialContext p (words config.seed)
  return { program := p, context, config, trainer := ⟨config.training, ∅⟩, steps := 0 }

/-! ### Running -/

/-- A call on the context of a session. -/
def onContext {β : Type} (f : Run (Context α) β) : Run (Session α) β := fun s =>
  match f s.context with
  | .ok b ctx => .ok b { s with context := ctx }
  | .error e ctx => .error e { s with context := ctx }

/-- Bind the contents of a value, such as a batch of inputs. -/
def load (id : ValueId) (t : Tensor α) : Run (Session α) Unit :=
  onContext (Context.change (·.insert id t))

/-- Run every instruction forward in program order. -/
def forward (train : Bool) : Run (Session α) Unit := do
  let s ← get
  onContext (s.program.instructions.forM (·.forward train))

/-- Run every instruction backward in the opposite order. -/
def backward : Run (Session α) Unit := do
  let s ← get
  onContext (s.program.instructions.reverse.forM (·.backward s.config))

/-- A forward sweep outside training. -/
def infer : Run (Session α) Unit := forward false

/-- One step of gradient descent along the gradients of the weights. -/
def learn : Run (Session α) Unit := fun s =>
  match Trainer.step s.program (s.trainer, s.context) with
  | .ok _ (trainer, context) => .ok () { s with trainer, context }
  | .error e (trainer, context) => .error e { s with trainer, context }

/-- One training step on what is loaded. -/
def trainStep : Run (Session α) Unit := do
  forward true
  backward
  learn
  modify fun s => { s with steps := s.steps + 1 }

/-! ### Running as data -/

/-- A call that runs a session. -/
inductive Call (α : Type) where
  /-- Bind the contents of a value. -/
  | load (id : ValueId) (t : Tensor α)
  /-- A forward sweep. -/
  | forward (train : Bool)
  /-- A forward sweep outside training. -/
  | infer
  /-- A backward sweep. -/
  | backward
  /-- One step of gradient descent. -/
  | learn
  /-- One training step. -/
  | trainStep

/-- Make a call. -/
def perform : Call α → Run (Session α) Unit
  | .load id t => load id t
  | .forward train => forward train
  | .infer => infer
  | .backward => backward
  | .learn => learn
  | .trainStep => trainStep

end Session

end TensorProgram
