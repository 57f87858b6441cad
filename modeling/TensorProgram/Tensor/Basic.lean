/-
TensorProgram/Tensor/Basic.lean

Tensors: a shape and a buffer with one element for every coordinate, all of
one kind.  The length of the buffer is part of its type, so every tensor fills
its shape and no operation can change that.
-/
import TensorProgram.Scalar.Basic
import TensorProgram.Failure

namespace TensorProgram

/-- A buffer of `n` elements of one kind. -/
inductive Storage (α : Type) (n : Nat) where
  /-- Scalars. -/
  | float (data : Vector α n)
  /-- Natural numbers. -/
  | index (data : Vector Nat n)

namespace Storage

variable {α : Type} [Scalar α] {n : Nat}

/-- A buffer of zeros. -/
def zeros (kind : ElemKind) (n : Nat) : Storage α n :=
  match kind with
  | .float => .float (Vector.replicate n 0)
  | .index => .index (Vector.replicate n 0)

/-- The kind of the elements. -/
def kind : Storage α n → ElemKind
  | .float _ => .float
  | .index _ => .index

@[simp] theorem kind_zeros (k : ElemKind) : (zeros k n : Storage α n).kind = k := by
  cases k <;> rfl

end Storage

/-- An array of one element kind with any number of axes, in row-major order. -/
structure Tensor (α : Type) where
  /-- The extents. -/
  shape : Shape
  /-- One element for every coordinate. -/
  storage : Storage α shape.elemCount

namespace Tensor

variable {α : Type} [Scalar α]

/-- The kind of the elements. -/
def kind (t : Tensor α) : ElemKind := t.storage.kind

/-- The tensor of zeros of a kind and shape. -/
def zeros (kind : ElemKind) (shape : Shape) : Tensor α := ⟨shape, .zeros kind _⟩

/-- The tensor of zeros of the kind and shape of `t`. -/
def zerosLike (t : Tensor α) : Tensor α := zeros t.kind t.shape

/-- The scalar tensor that is `value` everywhere. -/
def full (value : α) (shape : Shape) : Tensor α := ⟨shape, .float (Vector.replicate _ value)⟩

/-- The scalar tensor with these elements in row-major order. -/
def ofFloats (data : Array α) (shape : Shape) : Except Error (Tensor α) :=
  if h : data.size = shape.elemCount then .ok ⟨shape, .float ⟨data, h⟩⟩
  else .error (.elementCountMismatch shape data.size)

/-- The index tensor with these elements in row-major order. -/
def ofIndices (data : Array Nat) (shape : Shape) : Except Error (Tensor α) :=
  if h : data.size = shape.elemCount then .ok ⟨shape, .index ⟨data, h⟩⟩
  else .error (.elementCountMismatch shape data.size)

/-- Equality as numbers: the same kind and shape, and equal elements. -/
def same (s t : Tensor α) : Bool :=
  s.shape == t.shape &&
    match s.storage, t.storage with
    | .float x, .float y => (x.toArray.zip y.toArray).all fun (a, b) => Scalar.same a b
    | .index x, .index y => x.toArray == y.toArray
    | _, _ => false

@[simp] theorem kind_zeros (k : ElemKind) (s : Shape) : (zeros k s : Tensor α).kind = k :=
  Storage.kind_zeros k

@[simp] theorem shape_zeros (k : ElemKind) (s : Shape) : (zeros k s : Tensor α).shape = s := rfl

@[simp] theorem kind_zerosLike (t : Tensor α) : t.zerosLike.kind = t.kind := kind_zeros ..

@[simp] theorem shape_zerosLike (t : Tensor α) : t.zerosLike.shape = t.shape := rfl

end Tensor

end TensorProgram
