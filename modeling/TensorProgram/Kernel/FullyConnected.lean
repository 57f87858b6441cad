/-
TensorProgram/Kernel/FullyConnected.lean

Affine maps of rows.  Input and output are read as batches of rows, whatever
their rank; output `j` of a row is `Σ row[k] * filter[j, k] + bias[j]`.

The way back visits rows outermost, then outputs, then inputs, and at an output
with gradient `g` adds `filter[j, k] * g` to the input gradient, `row[k] * g` to
the filter gradient at `[j, k]` and `g` to the bias gradient at `[j]`.
-/
import TensorProgram.Context
import TensorProgram.Shape.Agreement
import TensorProgram.Shape.Image
import TensorProgram.Program.Instruction

namespace TensorProgram

variable {α : Type} [Scalar α]

open Context (updateWeight updateGrad)

namespace FullyConnected

variable (i : FullyConnected)

/-- The extents of an affine map of rows. -/
structure Dims where
  /-- The number of rows. -/
  batch : Nat
  /-- The length of an input row. -/
  inputs : Nat
  /-- The length of an output row. -/
  outputs : Nat

/-- The extents of the rows, if filter and bias fit them. -/
def dims (ctx : Context α) : Except Error Dims := do
  let src ← ctx.shapeOf i.src
  let dest ← ctx.shapeOf i.dest
  let (batch, inputs) ← flattenRows src.dims
  let (outBatch, outputs) ← flattenRows dest.dims
  if batch ≠ outBatch then throw (.shapeMismatch "fully connected batch" src dest)
  requireSameShape "fully connected filter" ⟨[outputs, inputs]⟩ (← ctx.shapeOf i.filter)
  requireSameShape "fully connected bias" ⟨[outputs]⟩ (← ctx.shapeOf i.bias)
  return ⟨batch, inputs, outputs⟩

/-- The position at which row `n` of a tensor of shape `s` begins. -/
def rowStart (s : Shape) (n : Nat) : Outcome Nat := s.position [n]

/-- Output `j` of the row that begins at `start`. -/
def value (src filter bias : View α) (inputs start j : Nat) : Outcome α := do
  let products ← (List.range inputs).mapM fun k => do
    return (← src.raw (start + k)) * (← filter.get [j, k])
  return Scalar.sum products + (← bias.get [j])

/-- The forward kernel. -/
def forward : Run (Context α) Unit := do
  let dims ← i.dims (← get)
  updateWeight i.dest fun ctx => do
    let src ← ctx.floats i.src
    let filter ← ctx.floats i.filter
    let bias ← ctx.floats i.bias
    Tensor.onFloats fun s =>
      (List.range dims.batch).forM fun n => do
        let start ← rowStart src.shape n
        let outStart ← rowStart s n
        scatter overwrite (List.range dims.outputs) (fun j => atPosition (outStart + j))
          (value src filter bias dims.inputs start)

/-- Visit every row and output with the gradient of the output there: `visit n
start j g`, where the input row begins at `start`. -/
def forOutputs {σ : Type} (dims : Dims) (src : Shape) (outGrad : View α)
    (visit : (start j : Nat) → α → Run σ Unit) : Run σ Unit :=
  (List.range dims.batch).forM fun n => do
    let start ← rowStart src n
    let outStart ← rowStart outGrad.shape n
    (List.range dims.outputs).forM fun j => do
      visit start j (← outGrad.raw (outStart + j))

/-- Add to the input gradient. -/
def backwardInput (dims : Dims) : Run (Context α) Unit :=
  updateGrad i.src fun ctx => do
    let src ← ctx.floats i.src
    let filter ← ctx.floats i.filter
    let outGrad ← ctx.gradFloats i.dest
    Tensor.onFloats fun _ =>
      forOutputs dims src.shape outGrad fun start j g =>
        scatter accumulate (List.range dims.inputs) (fun k => atPosition (start + k))
          fun k => do return (← filter.get [j, k]) * g

/-- Add to the filter gradient. -/
def backwardFilter (dims : Dims) : Run (Context α) Unit :=
  updateGrad i.filter fun ctx => do
    let src ← ctx.floats i.src
    let outGrad ← ctx.gradFloats i.dest
    Tensor.onFloats fun s =>
      forOutputs dims src.shape outGrad fun start j g =>
        scatter accumulate (List.range dims.inputs) (fun k => s.position [j, k])
          fun k => do return (← src.raw (start + k)) * g

/-- Add to the bias gradient. -/
def backwardBias (dims : Dims) : Run (Context α) Unit :=
  updateGrad i.bias fun ctx => do
    let outGrad ← ctx.gradFloats i.dest
    Tensor.onFloats fun s =>
      (List.range dims.batch).forM fun n => do
        let outStart ← rowStart outGrad.shape n
        scatter accumulate (List.range dims.outputs) (fun j => s.position [j])
          fun j => outGrad.raw (outStart + j)

/-- The backward kernel. -/
def backward : Run (Context α) Unit := do
  let dims ← i.dims (← get)
  Context.change (·.ensureGrad i.dest)
  i.backwardInput dims
  i.backwardFilter dims
  i.backwardBias dims

end FullyConnected

end TensorProgram
