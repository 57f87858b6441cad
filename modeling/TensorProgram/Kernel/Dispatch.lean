/-
TensorProgram/Kernel/Dispatch.lean

The kernel of every instruction in either direction.  Running forward computes
the outputs from the inputs; only a batch normalization asks whether it is
running in training.  Running backward turns the gradient of the output into
contributions to the gradients of the inputs.

An activation comes to life by its allocation: it gets a weight that fits its
declaration and a gradient of zeros, or a fault where these do not fit into memory.
The end of its life does nothing.
-/
import TensorProgram.Kernel.BatchNorm
import TensorProgram.Kernel.FullyConnected
import TensorProgram.Kernel.LocalResponse
import TensorProgram.Kernel.Loss
import TensorProgram.Kernel.Pooling
import TensorProgram.Kernel.Rearrange

namespace TensorProgram

variable {α : Type} [Scalar α]

/-- Give an activation its weight and the gradient that it starts with. -/
def Context.enlivened (ctx : Context α) (id : ValueId) : Except Error (Context α) := do
  let ctx ← ctx.allocate id
  let grad ← ctx.gradOrZeros id
  return ctx.setGrad id grad.zero

/-- Bring an activation to life, if what is declared can be allocated. -/
def Context.enliven (id : ValueId) : Run (Context α) Unit := do
  let d ← (← get).declaration id
  if d.Allocatable α then Context.change (·.enlivened id) else throw .fault

namespace Instruction

/-- Run an instruction forward, in training or not. -/
def forward (train : Bool) : Instruction α → Run (Context α) Unit
  | copy i => i.forwardCopy
  | reshape i => i.forwardReshape
  | activation f i => f.forward i
  | convolution i => i.forward
  | pool i => i.forward
  | fullyConnected i => i.forward
  | softmax i => i.forward
  | regression i => i.forward
  | transpose i => i.forward
  | concat i => i.forward
  | batchNorm i => i.forward train
  | localResponse i => i.forward
  | arithmetic i => i.forward
  | alloc dest => Context.enliven dest
  | dealloc _ => pure ()

/-- Run an instruction backward. -/
def backward (config : Config α) : Instruction α → Run (Context α) Unit
  | copy i => i.backwardCopy
  | reshape i => i.backwardReshape
  | activation f i => f.backward i
  | convolution i => i.backward config.filterGradSource
  | pool i => i.backward
  | fullyConnected i => i.backward
  | softmax i => i.backward
  | regression i => i.backward
  | transpose i => i.backward config.gradientPolicy
  | concat i => i.backward config.gradientPolicy
  | batchNorm i => i.backward
  | localResponse i => i.backward config.gradientPolicy
  | arithmetic i => i.backward config.gradientPolicy
  | alloc _ => pure ()
  | dealloc _ => pure ()

end Instruction

end TensorProgram
