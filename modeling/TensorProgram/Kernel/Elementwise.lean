/-
TensorProgram/Kernel/Elementwise.lean

Instructions that treat every element alike: copies, changes of shape,
functions of one element and operations on two.

* copy and reshape: `dest[k] = src[k]`, and back `src' += dest'`;
* relu `y = max 0 x`, sigmoid `y = 1 / (1 + e^-x)`,
  tanh `y = (e^x - e^-x) / (e^x + e^-x)`; the way back is a function of the
  output `y` and its gradient and never reads the input;
* sum and product of two tensors of one shape; the way back is written by the
  gradient policy, first into the left operand and then into the right.
-/
import TensorProgram.Context
import TensorProgram.Config
import TensorProgram.Shape.Agreement
import TensorProgram.Program.Instruction
import TensorProgram.Tensor.Block

namespace TensorProgram

variable {α : Type} [Scalar α]

open Context (updateWeight updateGrad)

/-! ### Moving a buffer -/

/-- Add the elements of `src` to a buffer of as many elements. -/
def View.addInto (src : View α) (s : Shape) : Run (Vector α s.elemCount) Unit := do
  requireSameSize "accumulate" s src.shape
  scatter accumulate (List.range s.elemCount) atPosition src.raw

namespace Unary

variable (i : Unary)

/-- Copy the buffer of the input to the output. -/
def move : Run (Context α) Unit :=
  updateWeight i.dest fun ctx => do
    let src ← ctx.floats i.src
    Tensor.onFloats fun _ => src.copyInto

/-- Add the gradient of the output to that of the input. -/
def moveBack : Run (Context α) Unit := do
  Context.change (·.ensureGrad i.dest)
  updateGrad i.src fun ctx => do
    let outGrad ← ctx.gradFloats i.dest
    Tensor.onFloats outGrad.addInto

/-- Input and output have one shape. -/
def requireAlike (subject : String) : Run (Context α) Unit := do
  let ctx ← get
  requireSameShape subject (← ctx.shapeOf i.src) (← ctx.shapeOf i.dest)

/-- Input and output have equally many elements. -/
def requireEquinumerous : Run (Context α) Unit := do
  let ctx ← get
  requireSameSize "reshape" (← ctx.shapeOf i.src) (← ctx.shapeOf i.dest)

/-- The forward kernel of a copy. -/
def forwardCopy : Run (Context α) Unit := do
  i.requireAlike "copy"
  i.move

/-- The backward kernel of a copy. -/
def backwardCopy : Run (Context α) Unit := do
  i.requireAlike "copy"
  i.moveBack

/-- The forward kernel of a change of shape. -/
def forwardReshape : Run (Context α) Unit := do
  i.requireEquinumerous
  i.move

/-- The backward kernel of a change of shape. -/
def backwardReshape : Run (Context α) Unit := do
  i.requireEquinumerous
  i.moveBack

end Unary

/-! ### Functions of one element -/

namespace Activation

/-- The value of an activation function. -/
def value (f : Activation) (x : α) : α :=
  match f with
  | relu => if Scalar.lt x 0 then 0 else x
  | sigmoid => 1 / (1 + Scalar.exp (-x))
  | tanh =>
      let up := Scalar.exp x
      let down := Scalar.exp (-x)
      (up - down) / (up + down)

/-- What an output `y` with gradient `dy` contributes to the gradient of its
input. -/
def slope (f : Activation) (y dy : α) : α :=
  match f with
  | relu => if Scalar.le y 0 then 0 else dy
  | sigmoid => y * (1 - y) * dy
  | tanh => (1 - y * y) * dy

variable (f : Activation) (i : Unary)

/-- The forward kernel. -/
def forward : Run (Context α) Unit := do
  i.requireAlike "activation"
  updateWeight i.dest fun ctx => do
    let src ← ctx.floats i.src
    Tensor.onFloats fun s =>
      scatter overwrite (List.range s.elemCount) atPosition fun k => do
        return f.value (← src.raw k)

/-- The backward kernel. -/
def backward : Run (Context α) Unit := do
  i.requireAlike "activation"
  Context.change (·.ensureGrad i.dest)
  updateGrad i.src fun ctx => do
    let out ← ctx.floats i.dest
    let outGrad ← ctx.gradFloats i.dest
    Tensor.onFloats fun s =>
      scatter accumulate (List.range s.elemCount) atPosition fun k => do
        return f.slope (← out.raw k) (← outGrad.raw k)

end Activation

/-! ### Operations on two elements -/

/-- The value of an operation. -/
def ArithmeticKind.value (kind : ArithmeticKind) (x y : α) : α :=
  match kind with
  | add => x + y
  | mul => x * y

/-- What an output gradient contributes to the gradient of one operand, given
the other operand. -/
def ArithmeticKind.slope (kind : ArithmeticKind) (other : Outcome α) (dy : α) : Outcome α :=
  match kind with
  | add => return dy
  | mul => return (← other) * dy

namespace Arithmetic

variable (i : Arithmetic)

/-- Both operands have the shape of the output. -/
def requireAlike : Run (Context α) Unit := do
  let ctx ← get
  let dest ← ctx.shapeOf i.dest
  requireSameShape "arithmetic lhs" dest (← ctx.shapeOf i.lhs)
  requireSameShape "arithmetic rhs" dest (← ctx.shapeOf i.rhs)

/-- The forward kernel. -/
def forward : Run (Context α) Unit := do
  i.requireAlike
  updateWeight i.dest fun ctx => do
    let lhs ← ctx.floats i.lhs
    let rhs ← ctx.floats i.rhs
    Tensor.onFloats fun s =>
      scatter overwrite (List.range s.elemCount) atPosition fun k => do
        return i.kind.value (← lhs.raw k) (← rhs.raw k)

/-- Write the gradient of one operand. -/
def backwardInto (policy : GradientPolicy) (target other : ValueId) :
    Run (Context α) Unit :=
  updateGrad target fun ctx => do
    let outGrad ← ctx.gradFloats i.dest
    let other ← ctx.floats other
    Tensor.onFloats fun _ =>
      scatter policy.combine (List.range outGrad.size) atPosition fun k => do
        i.kind.slope (other.raw k) (← outGrad.raw k)

/-- The backward kernel. -/
def backward (policy : GradientPolicy) : Run (Context α) Unit := do
  i.requireAlike
  Context.change (·.ensureGrad i.dest)
  i.backwardInto policy i.lhs i.rhs
  i.backwardInto policy i.rhs i.lhs

end Arithmetic

end TensorProgram
