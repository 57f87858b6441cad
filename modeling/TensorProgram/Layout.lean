/-
TensorProgram/Layout.lean

How a logical shape lies over a flat buffer: a stride for every axis and the
position where the view begins.  Tensors are stored in the contiguous layout of
their shape; transposition and block copies are views of that buffer.

* `Layout.permute` reorders shape and strides together.  Walking the view in
  row-major order meets every element of the transposed tensor in its order.
* `Layout.window` keeps the strides, shrinks the shape and moves the start.
  Walking the view meets every element of the block in its order.

`Layout.flatIndex` places a coordinate, `Layout.coordinate` recovers one entry
of it and `Layout.indices` is the walk: an odometer counts through the
coordinates, last axis first, and every reading is placed.
-/
import TensorProgram.Shape.Permutation

namespace TensorProgram

/-- A shape over a flat buffer. -/
structure Layout where
  /-- The logical shape. -/
  shape : Shape
  /-- Distance in the buffer between neighbours along every axis. -/
  strides : List Nat
  /-- Position in the buffer of the first element. -/
  offset : Nat
deriving DecidableEq

namespace Layout

/-- The row-major layout of a shape from the start of a buffer. -/
def contiguous (s : Shape) : Layout := ⟨s, s.strides, 0⟩

/-- The number of axes. -/
def rank (l : Layout) : Nat := l.shape.rank

/-- The number of elements in view. -/
def elemCount (l : Layout) : Nat := l.shape.elemCount

/-- The weighted sum of a coordinate with the strides.  Axes beyond the end of
the coordinate count as zero. -/
def displacement : (strides index : List Nat) → Nat
  | stride :: strides, i :: index => i * stride + displacement strides index
  | _, _ => 0

/-- A coordinate that names an element, or a leading part of one: not longer
than the rank, every entry within its extent, a stride for every entry. -/
def Admits (l : Layout) (index : List Nat) : Prop :=
  index.length ≤ l.rank ∧ index.length ≤ l.strides.length ∧
    ∀ p ∈ index.zip l.shape.dims, p.1 < p.2

instance (l : Layout) (index : List Nat) : Decidable (l.Admits index) :=
  inferInstanceAs (Decidable (_ ∧ _ ∧ _))

/-- The position in the buffer of a coordinate.  A leading part of a coordinate
names the first element of the sub-tensor that it selects. -/
def flatIndex (l : Layout) (index : List Nat) : Outcome Nat :=
  if l.Admits index then .ok (l.offset + displacement l.strides index) else .error .fault

/-- The entry along `axis` of the coordinate at contiguous position `flat`. -/
def coordinate (l : Layout) (axis flat : Nat) : Outcome Nat :=
  match l.strides[axis]?, l.shape.dims[axis]? with
  | some stride, some extent =>
      if stride = 0 ∨ extent = 0 then .error .fault else .ok (flat / stride % extent)
  | _, _ => .error .fault

/-- The stride of an axis. -/
def stride (l : Layout) (axis : Nat) : Outcome Nat :=
  match l.strides[axis]? with
  | some stride => .ok stride
  | none => .error .fault

/-- The view whose axis `i` is axis `shuffle[i]` of this one. -/
def permute (l : Layout) (shuffle : List Nat) : Outcome Layout := do
  let shape ← l.shape.permute shuffle
  let strides ← shuffle.mapM l.stride
  return ⟨shape, strides, l.offset⟩

/-- A block of shape `inner` at coordinate `offset` ends inside the view.  Its end is
added up as a word of 64 bits, so a block that begins far outside can appear to end
inside. -/
def Contains (l : Layout) (inner : Shape) (offset : List Nat) : Prop :=
  inner.rank = l.rank ∧ offset.length = l.rank ∧
    ∀ p ∈ (inner.dims.zip offset).zip l.shape.dims,
      (UInt64.ofNat p.1.2 + UInt64.ofNat p.1.1).toNat ≤ p.2

instance (l : Layout) (inner : Shape) (offset : List Nat) :
    Decidable (l.Contains inner offset) :=
  inferInstanceAs (Decidable (_ ∧ _ ∧ _))

/-- The view of the block of shape `inner` at coordinate `offset`.  An empty
block may begin one past the end of an axis. -/
def window (l : Layout) (inner : Shape) (offset : List Nat) : Outcome Layout :=
  if l.Contains inner offset then
    if inner.elemCount = 0 then .ok ⟨inner, l.strides, l.offset⟩
    else do
      let start ← l.flatIndex offset
      return ⟨inner, l.strides, start⟩
  else .error (.error (.blockOutOfBounds inner l.shape offset))

/-- Move an odometer on by one: its last entry counts, and an entry that comes
to the end of its extent starts again at zero and carries into the one before
it.  The flag says whether the first entry carried, that is whether the odometer
has come round to all zeros. -/
def advance : (dims current : List Nat) → Bool × List Nat
  | d :: dims, i :: current =>
      match advance dims current with
      | (false, current) => (false, i :: current)
      | (true, current) =>
          if i + 1 < d then (false, (i + 1) :: current) else (true, 0 :: current)
  | _, _ => (true, [])

/-- What an odometer shows at `count` readings, the first of them `current`. -/
def readings (dims : List Nat) : (count : Nat) → (current : List Nat) → List (List Nat)
  | 0, _ => []
  | count + 1, current => current :: readings dims count (advance dims current).2

/-- The positions in the buffer of the elements in view, in the order of an
odometer over the extents that starts at zero and is read once for every
element. -/
def indices (l : Layout) : List Nat :=
  (readings l.shape.dims l.elemCount (List.replicate l.rank 0)).map fun index =>
    l.offset + displacement l.strides index

end Layout

end TensorProgram
