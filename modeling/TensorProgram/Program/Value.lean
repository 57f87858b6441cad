/-
TensorProgram/Program/Value.lean

Declared values.  Every tensor that a program reads or writes is declared with
a name, an element kind, a shape and a role.  A weight lives as long as the
session: parameters, inputs, labels, running statistics.  An activation is
brought to life by an instruction: results and the state saved for the way
back.
-/
import TensorProgram.WeightInit

namespace TensorProgram

/-- How long a value lives. -/
inductive Role where
  /-- For the whole session. -/
  | weight
  /-- From its allocation in the program. -/
  | activation
deriving DecidableEq

/-- A declared value. -/
structure Value (α : Type) where
  /-- The number by which instructions refer to the value. -/
  id : ValueId
  /-- The name by which people refer to it. -/
  name : String
  /-- The kind of its elements. -/
  kind : ElemKind
  /-- Its extents. -/
  shape : Shape
  /-- How long it lives. -/
  role : Role
  /-- The training step changes it. -/
  trainable : Bool
  /-- How it is filled before the first run. -/
  init : WeightInit α

namespace Value

variable {α : Type}

/-- The word that introduces a value in the written form of a program. -/
def roleText (v : Value α) : String :=
  match v.role, v.trainable with
  | .weight, true => "weight"
  | .weight, false => "const"
  | .activation, _ => "activation"

/-- The written form of a value, such as `weight filter : float[2, 3] = %1`. -/
def text (v : Value α) : String :=
  v.roleText ++ " " ++ v.name ++ " : " ++ v.kind.text ++ v.shape.text ++ " = " ++
    ValueId.text v.id

end Value

end TensorProgram
