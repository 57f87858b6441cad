/-
TensorProgram/Tensor/Update.lean

Writing into a tensor.  Every write of every kernel has one form: visit a list
of targets in order and, at the position of each, combine the element there
with a new value (`scatter`).  Storing a value forgets the old element,
accumulating adds to it.

`Tensor.onFloats` and `Tensor.onIndices` run such writes on the buffer of a
tensor.  The shape is fixed while they run, so a write can change elements and
nothing else.
-/
import TensorProgram.Tensor.View

namespace TensorProgram

variable {α β ε ι : Type} {n : Nat}

/-- Replace the element at a position by its image under `f`. -/
def modifyAt (i : Nat) (f : ε → ε) : Run (Vector ε n) Unit := fun data =>
  if h : i < n then .ok () (data.set i (f data[i])) else .error .fault data

/-- Visit the targets in order and combine the element at the position of each
with the value for it: `combine old new`. -/
def scatter (combine : ε → ε → ε) (targets : List ι) (position : ι → Outcome Nat)
    (value : ι → Outcome ε) : Run (Vector ε n) Unit :=
  targets.forM fun x => do
    let v ← value x
    let i ← position x
    modifyAt i (combine · v)

/-- Inside the buffer a modification succeeds. -/
theorem modifyAt_of_lt {i : Nat} (h : i < n) (f : ε → ε) (data : Vector ε n) :
    modifyAt i f data = .ok () (data.set i (f data[i])) := by
  rw [modifyAt, dif_pos h]

/-- Outside the buffer a modification is a fault. -/
theorem modifyAt_of_le {i : Nat} (h : n ≤ i) (f : ε → ε) (data : Vector ε n) :
    modifyAt i f data = .error .fault data := by
  rw [modifyAt, dif_neg (Nat.not_lt.mpr h)]

section Scatter

variable (combine : ε → ε → ε) (position : ι → Outcome Nat) (value : ι → Outcome ε)
  (data : Vector ε n)

/-- Without targets nothing is written. -/
@[simp] theorem scatter_nil : scatter combine [] position value data = .ok () data := rfl

/-- The first target is written before the others are visited. -/
theorem scatter_cons {x : ι} {i : Nat} {v : ε} (hv : value x = .ok v)
    (hi : position x = .ok i) (h : i < n) (rest : List ι) :
    scatter combine (x :: rest) position value data
      = scatter combine rest position value (data.set i (combine data[i] v)) := by
  refine Run.bind_of_ok (b := ()) ?_
  show (do
    let v ← value x
    let i ← position x
    modifyAt i (combine · v) : Run (Vector ε n) Unit) data = _
  rw [hv, hi]
  exact modifyAt_of_lt h (combine · v) data

end Scatter

/-- Combine by forgetting the old element. -/
def overwrite (_old new : ε) : ε := new

/-- Combine by adding to the old element. -/
def accumulate [Add ε] (old new : ε) : ε := old + new

/-- The position of a target that is a position already. -/
def atPosition (i : Nat) : Outcome Nat := .ok i

/-- Set every element to one value. -/
def fill (value : ε) : Run (Vector ε n) Unit := fun _ => .ok () (Vector.replicate n value)

namespace Tensor

/-- Write into the buffer of a scalar tensor. -/
def onFloats (f : (s : Shape) → Run (Vector α s.elemCount) β) : Run (Tensor α) β
  | ⟨s, .float data⟩ =>
      match f s data with
      | .ok b data' => .ok b ⟨s, .float data'⟩
      | .error e data' => .error e ⟨s, .float data'⟩
  | t@⟨_, .index _⟩ => .error (.error (.kindMismatch .float .index)) t

/-- Write into the buffer of an index tensor. -/
def onIndices (f : (s : Shape) → Run (Vector Nat s.elemCount) β) : Run (Tensor α) β
  | ⟨s, .index data⟩ =>
      match f s data with
      | .ok b data' => .ok b ⟨s, .index data'⟩
      | .error e data' => .error e ⟨s, .index data'⟩
  | t@⟨_, .float _⟩ => .error (.error (.kindMismatch .index .float)) t

/-- Write into the buffers of two scalar tensors together.  Both kinds are
checked before anything is written. -/
def onFloatPair
    (f : (s t : Shape) → Run (Vector α s.elemCount × Vector α t.elemCount) β) :
    Run (Tensor α × Tensor α) β
  | (⟨s, .float x⟩, ⟨t, .float y⟩) =>
      match f s t (x, y) with
      | .ok b (x', y') => .ok b (⟨s, .float x'⟩, ⟨t, .float y'⟩)
      | .error e (x', y') => .error e (⟨s, .float x'⟩, ⟨t, .float y'⟩)
  | p => .error (.error (.kindMismatch .float .index)) p

/-- Write into the buffers of a scalar tensor and an index tensor together.
Both kinds are checked before anything is written, the scalar tensor's first. -/
def onFloatsAndIndices
    (f : (s t : Shape) → Run (Vector α s.elemCount × Vector Nat t.elemCount) β) :
    Run (Tensor α × Tensor α) β
  | (⟨s, .float x⟩, ⟨t, .index y⟩) =>
      match f s t (x, y) with
      | .ok b (x', y') => .ok b (⟨s, .float x'⟩, ⟨t, .index y'⟩)
      | .error e (x', y') => .error e (⟨s, .float x'⟩, ⟨t, .index y'⟩)
  | p@(⟨_, .index _⟩, _) => .error (.error (.kindMismatch .float .index)) p
  | p => .error (.error (.kindMismatch .index .float)) p

variable [Scalar α]

/-- Reset every element to zero. -/
def zero (t : Tensor α) : Tensor α := t.zerosLike

end Tensor

end TensorProgram
