/-
TensorProgram/Training.lean

Stochastic gradient descent over the trainable weights of a program.  One step
changes every element `w` of a trainable weight with gradient `G` as follows,
where

  `g = (l2 * w + l1 * sign w + G) / max batchSize 1`.

* Without momentum `w` becomes `w - learningRate * g`.
* With momentum the step `dx = momentum * previous - learningRate * g` is kept
  in a buffer for the next time and added to `w`; a missing buffer counts as
  zeros.

Afterwards the gradients of all weights are zero, trainable or not.  Gradients
of activations are left to their allocation.
-/
import TensorProgram.Context
import TensorProgram.Config
import TensorProgram.Program.Basic

namespace TensorProgram

open Std (ExtTreeMap)

variable {α : Type} [Scalar α]

/-- The state of training: its parameters and the previous step of every weight
that momentum has moved. -/
structure Trainer (α : Type) where
  /-- The parameters. -/
  config : TrainingConfig α
  /-- The previous steps. -/
  buffers : ExtTreeMap ValueId (Tensor α) := ∅

/-- The decayed gradient of an element `w` with gradient `grad`, per row. -/
def TrainingConfig.slope (config : TrainingConfig α) (w grad : α) : α :=
  (config.l2Decay * w + config.l1Decay * Scalar.sign w + grad)
    / Scalar.ofNat (max config.batchSize 1)

/-- The step of an element with momentum, after the previous step. -/
def TrainingConfig.stepWith (config : TrainingConfig α) (previous w grad : α) : α :=
  config.momentum * previous - config.learningRate * config.slope w grad

namespace Trainer

/-- What training changes: the previous steps and the context. -/
abbrev State (α : Type) := Trainer α × Context α

/-- Replace the weight of a value by what a write leaves of it. -/
def writeWeight (id : ValueId) (f : Run (Tensor α) Unit) : Run (Context α) Unit := fun ctx =>
  match ctx.weight id with
  | .error e => .error (.error e) ctx
  | .ok t =>
      match f t with
      | .ok _ t' => .ok () (ctx.setWeight id t')
      | .error e t' => .error e (ctx.setWeight id t')

/-- The weight after a step without momentum. -/
def descend (config : TrainingConfig α) (grad : View α) : Run (Tensor α) Unit :=
  Tensor.onFloats fun s data =>
    let weight := View.mk s data
    scatter (fun w step => w - step) (List.range grad.size) atPosition (fun k => do
      return config.learningRate * config.slope (← weight.raw k) (← grad.raw k)) data

/-- The weight and its buffer after a step with momentum. -/
def descendWith (config : TrainingConfig α) (grad : View α) :
    Run (Tensor α × Tensor α) Unit :=
  Tensor.onFloatPair fun s t (data, buffer) =>
    let weight := View.mk s data
    let previous := View.mk t buffer
    let step (k : Nat) : Outcome α := do
      return config.stepWith (← previous.raw k) (← weight.raw k) (← grad.raw k)
    let write : Run (Vector α s.elemCount × Vector α t.elemCount) Unit := do
      Run.onSnd (scatter overwrite (List.range grad.size) atPosition step)
      Run.onFst (scatter accumulate (List.range grad.size) atPosition step)
    write (data, buffer)

/-- The previous step of a weight, from zeros if there is none. -/
def bufferOrZeros (trainer : Trainer α) (id : ValueId) (weight : Tensor α) : Tensor α :=
  (trainer.buffers[id]?).getD weight.zerosLike

/-- Move one trainable weight against its gradient. -/
def moveWeight (id : ValueId) (grad : View α) : Run (State α) Unit := fun (trainer, ctx) =>
  let config := trainer.config
  if Scalar.lt 0 config.momentum then
    match ctx.weight id with
    | .error e => .error (.error e) (trainer, ctx)
    | .ok weight =>
        let bind (p : Tensor α × Tensor α) : State α :=
          ({ trainer with buffers := trainer.buffers.insert id p.2 }, ctx.setWeight id p.1)
        match descendWith config grad (weight, trainer.bufferOrZeros id weight) with
        | .ok _ p => .ok () (bind p)
        | .error e p => .error e (bind p)
  else
    match writeWeight id (descend config grad) ctx with
    | .ok _ ctx' => .ok () (trainer, ctx')
    | .error e ctx' => .error e (trainer, ctx')

/-- Move a trainable weight if it has a gradient. -/
def moveIfNeeded (id : ValueId) : Run (State α) Unit := do
  let (_, ctx) ← get
  match ctx.grads[id]? with
  | none => return
  | some grad => moveWeight id (← grad.floats)

/-- The context in which the gradient of a value is zero, if it has one. -/
def clearGrad (ctx : Context α) (id : ValueId) : Context α :=
  match ctx.grads[id]? with
  | none => ctx
  | some grad => ctx.setGrad id grad.zero

/-- One training step over the weights of a program. -/
def step (p : Program α) : Run (State α) Unit := do
  p.trainable.forM fun v => moveIfNeeded v.id
  modify fun (trainer, ctx) => (trainer, p.weights.foldl (fun ctx v => clearGrad ctx v.id) ctx)

end Trainer

end TensorProgram
