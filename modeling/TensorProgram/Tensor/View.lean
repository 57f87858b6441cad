/-
TensorProgram/Tensor/View.lean

Reading a tensor as elements of one kind.  A view is addressed either by
position in the buffer (`View.raw`) or by coordinate (`View.get`); both fault
outside.  Asking a tensor for a view of the other kind is an error.
-/
import TensorProgram.Tensor.Basic
import TensorProgram.Layout

namespace TensorProgram

/-- The elements of a tensor, all of type `ε`. -/
structure View (ε : Type) where
  /-- The extents. -/
  shape : Shape
  /-- The elements in row-major order. -/
  data : Vector ε shape.elemCount

/-- The position in a row-major buffer of a coordinate of `s`. -/
def Shape.position (s : Shape) (coord : List Nat) : Outcome Nat :=
  (Layout.contiguous s).flatIndex coord

/-- The entry along `axis` of the coordinate of `s` at a position. -/
def Shape.coordinate (s : Shape) (axis flat : Nat) : Outcome Nat :=
  (Layout.contiguous s).coordinate axis flat

namespace View

variable {ε : Type}

/-- The number of elements. -/
def size (v : View ε) : Nat := v.shape.elemCount

/-- The element at a position of the buffer. -/
def raw (v : View ε) (i : Nat) : Outcome ε :=
  if h : i < v.shape.elemCount then .ok v.data[i] else .error .fault

/-- The element at a coordinate. -/
def get (v : View ε) (coord : List Nat) : Outcome ε := do
  let i ← v.shape.position coord
  v.raw i

theorem raw_of_lt (v : View ε) {i : Nat} (h : i < v.shape.elemCount) :
    v.raw i = .ok v.data[i] := by
  simp [raw, h]

end View

namespace Tensor

variable {α : Type}

/-- The elements of a scalar tensor. -/
def floats : Tensor α → Except Error (View α)
  | ⟨shape, .float data⟩ => .ok ⟨shape, data⟩
  | ⟨_, .index _⟩ => .error (.kindMismatch .float .index)

/-- The elements of an index tensor. -/
def indices : Tensor α → Except Error (View Nat)
  | ⟨shape, .index data⟩ => .ok ⟨shape, data⟩
  | ⟨_, .float _⟩ => .error (.kindMismatch .index .float)

theorem shape_of_floats {t : Tensor α} {v : View α} (h : t.floats = .ok v) :
    v.shape = t.shape := by
  obtain ⟨s, d | d⟩ := t <;> simp [floats] at h
  rw [← h]

end Tensor

end TensorProgram
