/-
TensorProgram/ValueId.lean

Names of values.  A value of a program is named by its position in the
program's value table; a context binds up to two tensors to a name, one in
each slot.
-/

namespace TensorProgram

/-- The number that names a value inside one program. -/
abbrev ValueId := Nat

/-- The written form of a value's name, such as `%3`. -/
def ValueId.text (id : ValueId) : String := "%" ++ toString id

/-- Which of the two tensors of a value is meant. -/
inductive Slot where
  /-- The value itself. -/
  | weight
  /-- The gradient of the value. -/
  | gradient
deriving DecidableEq

/-- The written form of a slot. -/
def Slot.text : Slot → String
  | .weight => "weight"
  | .gradient => "gradient"

end TensorProgram
