/-
TensorProgram/Program/Basic.lean

Programs: a table of declared values and a list of instructions.  A forward
sweep runs the list from front to back, a backward sweep from back to front.
The value at position `i` of the table is named `i`.

The written form has a line for every value and then a line for every
instruction, numbered from zero.
-/
import TensorProgram.Program.Value
import TensorProgram.Program.Instruction

namespace TensorProgram

/-- Declared values and the instructions over them. -/
structure Program (α : Type) where
  /-- The value table. -/
  values : List (Value α) := []
  /-- The instructions in program order. -/
  instructions : List (Instruction α) := []

namespace Program

variable {α : Type}

/-- The first value whose name differs from its position, with that position. -/
def misplaced? (values : List (Value α)) : Option (Value α × Nat) :=
  values.zipIdx.find? fun (v, i) => v.id != i

/-- The program of these values and instructions, if every value is named by
its position. -/
def ofParts (values : List (Value α)) (instructions : List (Instruction α)) :
    Except Error (Program α) :=
  match misplaced? values with
  | some (v, i) => .error (.misplacedValue v.name i v.id)
  | none => .ok ⟨values, instructions⟩

/-- The value of this name. -/
def value (p : Program α) (id : ValueId) : Except Error (Value α) :=
  match p.values[id]? with
  | some v => .ok v
  | none => .error (.undeclaredValue id)

/-- The declared shape of a value. -/
def shapeOf (p : Program α) (id : ValueId) : Except Error Shape :=
  (p.value id).map (·.shape)

/-- The first value that people call by this name. -/
def find? (p : Program α) (name : String) : Option ValueId :=
  (p.values.find? fun v => v.name == name).map (·.id)

/-- The values that live for the whole session. -/
def weights (p : Program α) : List (Value α) := p.values.filter fun v => v.role == .weight

/-- The values that the training step changes. -/
def trainable (p : Program α) : List (Value α) :=
  p.values.filter fun v => v.role == .weight && v.trainable

/-- The written form of a program; `number` writes a scalar. -/
def text (number : α → String) (p : Program α) : String :=
  String.join (p.values.map fun v => v.text ++ "\n") ++
    String.join (p.instructions.zipIdx.map fun (i, k) =>
      toString k ++ ": " ++ i.text number ++ "\n")

end Program

end TensorProgram
