/-
TensorProgram/ElemKind.lean

The two kinds of element a tensor can hold.  They are never converted into one
another: a reader that asks for one kind of a tensor of the other fails.
-/

namespace TensorProgram

/-- What the elements of a tensor are. -/
inductive ElemKind where
  /-- Scalars: weights, activations and gradients. -/
  | float
  /-- Natural numbers: saved coordinates and class labels. -/
  | index
deriving DecidableEq, Inhabited

/-- The written form of an element kind. -/
def ElemKind.text : ElemKind → String
  | .float => "float"
  | .index => "index"

end TensorProgram
