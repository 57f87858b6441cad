/-
TensorProgram/Failure.lean

How a call ends when it does not succeed.  A failure is either a reported
error or a fault: an index outside a buffer or a coordinate outside a shape,
which the caller had no right to use, or a tensor too large for the memory.

Two kinds of call can fail.  An `Outcome` computes a value and changes
nothing; one that is known never to fault is a value or a reported error
(`Outcome.faultless`).  A `Run σ` works on a state of type `σ` and leaves a state behind
whether it succeeds or fails, so that what a failed call has already written
stays visible.
-/
import TensorProgram.Error

namespace TensorProgram

/-- Why a call did not succeed. -/
inductive Failure where
  /-- A violated invariant, reported. -/
  | error (e : Error)
  /-- An index outside a buffer, a coordinate outside a shape, or a tensor too large
  to allocate. -/
  | fault

/-- A computation that may fail and changes nothing. -/
abbrev Outcome := Except Failure

/-- A call on a state of type `σ`; a failing call leaves a state too. -/
abbrev Run (σ : Type) := EStateM Failure σ

/-- A reported error is a failure. -/
instance : MonadLift (Except Error) Outcome where
  monadLift
    | .ok a => .ok a
    | .error e => .error (.error e)

/-- A computation that changes nothing is a call that keeps its state. -/
instance {σ : Type} : MonadLift Outcome (Run σ) where
  monadLift
    | .ok a => fun s => .ok a s
    | .error e => fun s => .error e s

namespace Outcome

variable {β : Type} {x : Outcome β}

/-- What a computation that never faults comes to: a value, or a reported error. -/
def faultless (x : Outcome β) (h : x ≠ .error .fault) : Except Error β :=
  match x, h with
  | .ok b, _ => .ok b
  | .error (.error e), _ => .error e
  | .error .fault, h => absurd rfl h

theorem faultless_of_eq_ok {b : β} (hx : x = .ok b) (h : x ≠ .error .fault) :
    x.faultless h = .ok b := by
  subst hx
  rfl

theorem faultless_of_eq_error {e : Error} (hx : x = .error (.error e)) (h : x ≠ .error .fault) :
    x.faultless h = .error e := by
  subst hx
  rfl

end Outcome

namespace Run

variable {σ τ β : Type}

/-- Stop with a reported error. -/
def report (e : Error) : Run σ β := fun s => .error (.error e) s

/-- A call on the first half of a pair. -/
def onFst (f : Run σ β) : Run (σ × τ) β := fun (s, t) =>
  match f s with
  | .ok b s' => .ok b (s', t)
  | .error e s' => .error e (s', t)

/-- A call on the second half of a pair. -/
def onSnd (f : Run τ β) : Run (σ × τ) β := fun (s, t) =>
  match f t with
  | .ok b t' => .ok b (s, t')
  | .error e t' => .error e (s, t')

/-! ### Sequences of calls -/

variable {γ : Type} {f : Run σ β} {g : β → Run σ γ} {s s' : σ}

/-- After a call that succeeds, the next one runs on the state it left. -/
theorem bind_of_ok {b : β} (h : f s = .ok b s') : (f >>= g) s = g b s' := by
  show EStateM.bind f g s = g b s'
  rw [EStateM.bind, h]

/-- A call that fails ends the sequence in the state it left. -/
theorem bind_of_error {e : Failure} (h : f s = .error e s') : (f >>= g) s = .error e s' := by
  show EStateM.bind f g s = .error e s'
  rw [EStateM.bind, h]

/-- A list of calls is the first call followed by the others. -/
theorem forM_cons {ι : Type} (x : ι) (xs : List ι) (visit : ι → Run σ PUnit) :
    (x :: xs).forM visit = (visit x >>= fun _ => xs.forM visit) := rfl

end Run

end TensorProgram
