/-
TensorProgram/Program/Instruction.lean

Instructions.  An instruction names the values it reads and writes and carries
the numbers it needs.  `Instruction.operands` lists the values together with
the access that running the instruction forward needs: `read`, `write`, or
`update` for running statistics, which are read and changed in place.  State
saved for the way back is an ordinary value, written forward and read backward.

The written form of an instruction is its mnemonic, its operands and its
attributes.
-/
import TensorProgram.Window

namespace TensorProgram

/-- How running an instruction forward touches an operand. -/
inductive Access where
  /-- It is read. -/
  | read
  /-- It is written. -/
  | write
  /-- It is read and changed in place. -/
  | update
deriving DecidableEq

/-- The written form of an access. -/
def Access.text : Access → String
  | .read => "@in"
  | .write => "@out"
  | .update => "@inout"

/-! ### Operand records -/

/-- The operands of an instruction from one value to one value. -/
structure Unary where
  /-- The output. -/
  dest : ValueId
  /-- The input. -/
  src : ValueId
deriving DecidableEq

/-- A function applied to every element. -/
inductive Activation where
  /-- The positive part. -/
  | relu
  /-- The logistic function. -/
  | sigmoid
  /-- The hyperbolic tangent. -/
  | tanh
deriving DecidableEq

/-- A convolution of images; the filter has extents depth, side, side and input
channels, the bias has extent depth. -/
structure Convolution where
  /-- The output. -/
  dest : ValueId
  /-- The input. -/
  src : ValueId
  /-- The filter. -/
  filter : ValueId
  /-- The bias. -/
  bias : ValueId
  /-- The sliding window. -/
  window : Window
deriving DecidableEq

/-- What a pooling window is reduced to. -/
inductive PoolKind where
  /-- Its largest element. -/
  | max
  /-- The average of its elements. -/
  | avg
deriving DecidableEq

/-- A pooling of images.  A max pool saves the coordinates of the elements it
kept. -/
structure Pool where
  /-- What a window is reduced to. -/
  kind : PoolKind
  /-- The output. -/
  dest : ValueId
  /-- The input. -/
  src : ValueId
  /-- The saved coordinates. -/
  coords : Option ValueId
  /-- The sliding window. -/
  window : Window
deriving DecidableEq

/-- An affine map of rows; the filter has extents outputs and inputs. -/
structure FullyConnected where
  /-- The output. -/
  dest : ValueId
  /-- The input. -/
  src : ValueId
  /-- The filter. -/
  filter : ValueId
  /-- The bias. -/
  bias : ValueId
deriving DecidableEq

/-- A softmax of rows, with the cross-entropy loss against selected columns. -/
structure Softmax where
  /-- The output. -/
  dest : ValueId
  /-- The input. -/
  src : ValueId
  /-- The saved probabilities. -/
  saved : ValueId
  /-- The selected column of every row. -/
  selected : ValueId
deriving DecidableEq

/-- The squared distance to expected rows. -/
structure Regression where
  /-- The output. -/
  dest : ValueId
  /-- The input. -/
  src : ValueId
  /-- What the input should be. -/
  expected : ValueId
deriving DecidableEq

/-- A reordering of axes. -/
structure Transpose where
  /-- The output. -/
  dest : ValueId
  /-- The input. -/
  src : ValueId
  /-- Axis `i` of the output is axis `shuffle[i]` of the input. -/
  shuffle : List Nat
deriving DecidableEq

/-- Blocks laid side by side along an axis. -/
structure Concat where
  /-- The output. -/
  dest : ValueId
  /-- The blocks, in order. -/
  srcs : List ValueId
  /-- The axis. -/
  dim : Nat
deriving DecidableEq

/-- A normalization of every channel by running statistics. -/
structure BatchNorm (α : Type) where
  /-- The output. -/
  dest : ValueId
  /-- The input. -/
  src : ValueId
  /-- The factor of every channel. -/
  scale : ValueId
  /-- The summand of every channel. -/
  bias : ValueId
  /-- The running mean of every channel. -/
  mean : ValueId
  /-- The running variance of every channel. -/
  var : ValueId
  /-- The axis of the channels. -/
  axis : Nat
  /-- Added to a variance before its root is taken. -/
  epsilon : α
  /-- The share of the current batch in the running statistics. -/
  momentum : α

/-- A normalization of every element by its neighbouring channels. -/
structure LocalResponse (α : Type) where
  /-- The output. -/
  dest : ValueId
  /-- The input. -/
  src : ValueId
  /-- The saved divisors. -/
  scale : ValueId
  /-- How many channels on either side count as neighbours. -/
  halfWindow : Nat
  /-- The weight of the squares. -/
  alpha : α
  /-- The exponent. -/
  beta : α
  /-- The constant below the squares. -/
  k : α

/-- An operation on two numbers. -/
inductive ArithmeticKind where
  /-- The sum. -/
  | add
  /-- The product. -/
  | mul
deriving DecidableEq

/-- An operation on the elements of two tensors. -/
structure Arithmetic where
  /-- The operation. -/
  kind : ArithmeticKind
  /-- The output. -/
  dest : ValueId
  /-- The left operand. -/
  lhs : ValueId
  /-- The right operand. -/
  rhs : ValueId
deriving DecidableEq

/-! ### Instructions -/

/-- One step of a program. -/
inductive Instruction (α : Type) where
  /-- The same elements in the same shape. -/
  | copy (i : Unary)
  /-- The same elements in another shape. -/
  | reshape (i : Unary)
  /-- A function applied to every element. -/
  | activation (f : Activation) (i : Unary)
  /-- A convolution. -/
  | convolution (i : Convolution)
  /-- A pooling. -/
  | pool (i : Pool)
  /-- An affine map of rows. -/
  | fullyConnected (i : FullyConnected)
  /-- A softmax with its loss. -/
  | softmax (i : Softmax)
  /-- A squared distance. -/
  | regression (i : Regression)
  /-- A reordering of axes. -/
  | transpose (i : Transpose)
  /-- Blocks side by side. -/
  | concat (i : Concat)
  /-- A normalization by running statistics. -/
  | batchNorm (i : BatchNorm α)
  /-- A normalization by neighbouring channels. -/
  | localResponse (i : LocalResponse α)
  /-- A sum or product of two tensors. -/
  | arithmetic (i : Arithmetic)
  /-- Bring an activation to life. -/
  | alloc (dest : ValueId)
  /-- The end of an activation's use. -/
  | dealloc (src : ValueId)

namespace Instruction

variable {α : Type}

/-- The instruction only begins or ends the life of an activation. -/
def isLifecycle : Instruction α → Bool
  | alloc _ | dealloc _ => true
  | _ => false

/-- The word that names an instruction. -/
def mnemonic : Instruction α → String
  | copy _ => "copy"
  | reshape _ => "reshape"
  | activation .relu _ => "relu"
  | activation .sigmoid _ => "sigmoid"
  | activation .tanh _ => "tanh"
  | convolution _ => "convolution"
  | pool i =>
      match i.kind with
      | .max => "pool.max"
      | .avg => "pool.avg"
  | fullyConnected _ => "fullyconnected"
  | softmax _ => "softmax"
  | regression _ => "regression"
  | transpose _ => "transpose"
  | concat _ => "concat"
  | batchNorm _ => "batchnormalization"
  | localResponse _ => "localresponsenormalization"
  | arithmetic i =>
      match i.kind with
      | .add => "arithmetic.add"
      | .mul => "arithmetic.mul"
  | alloc _ => "allocactivation"
  | dealloc _ => "deallocactivation"

/-- Every value that an instruction names, the output first, with the access
that running the instruction forward needs. -/
def operands : Instruction α → List (ValueId × Access)
  | copy i | reshape i | activation _ i => [(i.dest, .write), (i.src, .read)]
  | convolution i => [(i.dest, .write), (i.src, .read), (i.filter, .read), (i.bias, .read)]
  | pool i => [(i.dest, .write), (i.src, .read)] ++ (i.coords.map (·, .write)).toList
  | fullyConnected i => [(i.dest, .write), (i.src, .read), (i.filter, .read), (i.bias, .read)]
  | softmax i => [(i.dest, .write), (i.src, .read), (i.saved, .write), (i.selected, .read)]
  | regression i => [(i.dest, .write), (i.src, .read), (i.expected, .read)]
  | transpose i => [(i.dest, .write), (i.src, .read)]
  | concat i => (i.dest, .write) :: i.srcs.map (·, .read)
  | batchNorm i =>
      [(i.dest, .write), (i.src, .read), (i.scale, .read), (i.bias, .read),
       (i.mean, .update), (i.var, .update)]
  | localResponse i => [(i.dest, .write), (i.src, .read), (i.scale, .write)]
  | arithmetic i => [(i.dest, .write), (i.lhs, .read), (i.rhs, .read)]
  | alloc dest => [(dest, .write)]
  | dealloc src => [(src, .write)]

/-- The attributes of a sliding window. -/
def windowAttributes (win : Window) : List (String × String) :=
  [("kernel", toString win.kernel), ("stride", toString win.stride), ("pad", toString win.pad)]

/-- The numbers that an instruction carries, with their names; `number` writes
a scalar. -/
def attributes (number : α → String) : Instruction α → List (String × String)
  | convolution i => windowAttributes i.window
  | pool i => windowAttributes i.window
  | transpose i => [("shuffle", bracketed i.shuffle)]
  | concat i => [("dim", toString i.dim)]
  | batchNorm i =>
      [("channel", toString i.axis), ("epsilon", number i.epsilon),
       ("momentum", number i.momentum)]
  | localResponse i =>
      [("half_window", toString i.halfWindow), ("alpha", number i.alpha),
       ("beta", number i.beta), ("k", number i.k)]
  | _ => []

/-- The written form of an instruction, such as
`concat @out %3, @in %1, @in %2 {dim: 1}`. -/
def text (number : α → String) (i : Instruction α) : String :=
  let operands := i.operands.map fun (id, access) => access.text ++ " " ++ ValueId.text id
  let attributes := (i.attributes number).map fun (name, value) => name ++ ": " ++ value
  i.mnemonic ++ (if operands.isEmpty then "" else " " ++ ", ".intercalate operands) ++
    (if attributes.isEmpty then "" else " \x7b" ++ ", ".intercalate attributes ++ "\x7d")

end Instruction

end TensorProgram
