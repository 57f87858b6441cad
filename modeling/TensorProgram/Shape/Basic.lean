/-
TensorProgram/Shape/Basic.lean

Shapes: the ordered extents of a tensor.  Elements are stored in row-major
order over the plain tuple of extents, so a shape alone fixes the number of
elements (`Shape.elemCount`), the distance between neighbours along every axis
(`Shape.strides`) and the order in which coordinates are visited
(`Shape.coordinates`).  A shape of rank 0 holds one element; a zero extent
leaves none.
-/

namespace TensorProgram

/-- The ordered extents of a tensor. -/
structure Shape where
  /-- Extent along every axis, outermost axis first. -/
  dims : List Nat
deriving DecidableEq, Inhabited

/-- A list of numbers in brackets, separated by a comma and a blank. -/
def bracketed (ns : List Nat) : String :=
  "[" ++ ", ".intercalate (ns.map toString) ++ "]"

namespace Shape

/-- The number of axes. -/
def rank (s : Shape) : Nat := s.dims.length

/-- The number of coordinates within the given extents: their product. -/
def volume : List Nat → Nat
  | [] => 1
  | d :: rest => d * volume rest

/-- The number of elements. -/
def elemCount (s : Shape) : Nat := volume s.dims

/-- Row-major strides of a list of extents, from the last axis to the first: the
last axis has stride 1, any other the stride of the next axis times its extent, so
`[2, 3, 4]` has strides `[12, 4, 1]`. -/
def rowMajorStrides : List Nat → List Nat
  | [] => []
  | _ :: rest =>
      match rest, rowMajorStrides rest with
      | next :: _, stride :: strides => stride * next :: stride :: strides
      | _, _ => [1]

/-- Row-major strides of a shape. -/
def strides (s : Shape) : List Nat := rowMajorStrides s.dims

/-- Every coordinate within the given extents, in row-major order. -/
def coordinatesIn : List Nat → List (List Nat)
  | [] => [[]]
  | d :: rest => (List.range d).flatMap fun i => (coordinatesIn rest).map (i :: ·)

/-- Every coordinate of a shape, in row-major order. -/
def coordinates (s : Shape) : List (List Nat) := coordinatesIn s.dims

/-- The written form of a shape, such as `[2, 3]`. -/
def text (s : Shape) : String := bracketed s.dims

@[simp] theorem volume_nil : volume [] = 1 := rfl

@[simp] theorem volume_cons (d : Nat) (rest : List Nat) :
    volume (d :: rest) = d * volume rest := rfl

@[simp] theorem elemCount_mk (dims : List Nat) : (Shape.mk dims).elemCount = volume dims := rfl

/-- There are as many coordinates as elements. -/
theorem length_coordinatesIn (dims : List Nat) :
    (coordinatesIn dims).length = volume dims := by
  induction dims with
  | nil => rfl
  | cons d rest ih =>
      rw [coordinatesIn, List.length_flatMap]
      simp only [List.length_map, ih]
      rw [List.map_const', List.length_range, List.sum_replicate_nat, volume_cons]

/-- The stride of an axis is the volume of the extents after it. -/
theorem rowMajorStrides_cons (d : Nat) (rest : List Nat) :
    rowMajorStrides (d :: rest) = volume rest :: rowMajorStrides rest := by
  induction rest generalizing d with
  | nil => rfl
  | cons next rest ih =>
      rw [ih next, rowMajorStrides, volume_cons, Nat.mul_comm]
      exact ih next

theorem length_rowMajorStrides (dims : List Nat) :
    (rowMajorStrides dims).length = dims.length := by
  induction dims with
  | nil => rfl
  | cons d rest ih => rw [rowMajorStrides_cons, List.length_cons, ih, List.length_cons]

end Shape

end TensorProgram
