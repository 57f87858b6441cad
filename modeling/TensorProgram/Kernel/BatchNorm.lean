/-
TensorProgram/Kernel/BatchNorm.lean

Normalization by running statistics.  The channel of an element is its
coordinate along one axis.  With `μ` and `v` the running mean and variance of
channel `c`,

  `dest = (src - μ) * scale[c] / √(v + ε) + bias[c]`.

In training the running statistics are first blended with the mean and variance
of the current input, which take the share `momentum`.  The way back uses the
running statistics; with `N` the number of elements of a channel, `dy` the
gradient of an output and `r = 1 / √(v + ε)` it adds

* `1/N * scale * r * (N dy - Σ dy - (x - μ) / (v + ε) * Σ dy (x - μ))` to the
  input gradient,
* `dy` to the bias gradient and `(x - μ) * r * dy` to the scale gradient.
-/
import TensorProgram.Kernel.Rearrange

namespace TensorProgram.BatchNorm

variable {α : Type} [Scalar α] (i : BatchNorm α)

open Context (updateWeight updateWeightPair updateGrad)

/-- The channels of the input. -/
structure Channels where
  /-- How many there are. -/
  count : Nat
  /-- How many elements each has. -/
  samples : Nat

/-- The channels of the input, of which there is at least one; the output has
the shape of the input and every parameter one element for each channel. -/
def channels (ctx : Context α) : Except Error Channels := do
  let src ← ctx.shapeOf i.src
  requireSameShape "batch norm output" src (← ctx.shapeOf i.dest)
  let count ← src.dim i.axis
  if count = 0 then throw .zeroBatchNormChannels
  requireSameShape "batch norm scale" ⟨[count]⟩ (← ctx.shapeOf i.scale)
  requireSameShape "batch norm bias" ⟨[count]⟩ (← ctx.shapeOf i.bias)
  requireSameShape "batch norm mean" ⟨[count]⟩ (← ctx.shapeOf i.mean)
  requireSameShape "batch norm variance" ⟨[count]⟩ (← ctx.shapeOf i.var)
  return ⟨count, src.elemCount / count⟩

/-- The channel of the element at a position of the input. -/
def channel (src : View α) (k : Nat) : Outcome Nat := src.shape.coordinate i.axis k

/-- The element of a parameter for the channel of an element. -/
def ofChannel (src parameter : View α) (k : Nat) : Outcome α := do
  parameter.get [← i.channel src k]

/-- One over the root of the variance, made positive. -/
def inverseDeviation (var : α) : α := 1 / Scalar.sqrt (var + i.epsilon)

/-- For every channel the sum over its elements, in the order of the buffer. -/
def channelSums (count : Nat) (src : View α) (term : Nat → Outcome α) :
    Outcome (Vector α count) :=
  written (scatter accumulate (List.range src.size) (i.channel src) term)

/-! ### Forward -/

/-- The normalized element at a position of the input. -/
def value (src scale bias mean var : View α) (k : Nat) : Outcome α := do
  let r := i.inverseDeviation (← i.ofChannel src var k)
  return ((← src.raw k) - (← i.ofChannel src mean k)) * (← i.ofChannel src scale k) * r
    + (← i.ofChannel src bias k)

/-- Normalize by the running statistics. -/
def normalize : Run (Context α) Unit :=
  updateWeight i.dest fun ctx => do
    let src ← ctx.floats i.src
    let scale ← ctx.floats i.scale
    let bias ← ctx.floats i.bias
    let mean ← ctx.floats i.mean
    let var ← ctx.floats i.var
    Tensor.onFloats fun _ =>
      scatter overwrite (List.range src.size) atPosition (i.value src scale bias mean var)

/-- The mean of every channel of the input. -/
def localMean (ch : Channels) (src : View α) : Outcome (Vector α ch.count) := do
  let sums ← i.channelSums ch.count src src.raw
  return sums.map (· / Scalar.ofNat ch.samples)

/-- The variance of every channel of the input around these means. -/
def localVariance (ch : Channels) (src : View α) (mean : Vector α ch.count) :
    Outcome (Vector α ch.count) := do
  let sums ← i.channelSums ch.count src fun k => do
    let c ← i.channel src k
    let x ← src.raw k
    let some m := mean[c]? | throw .fault
    return (x - m) * (x - m)
  return sums.map (· / Scalar.ofNat ch.samples)

/-- A running statistic after the current one took its share. -/
def blend (running current : α) : α := i.momentum * current + (1 - i.momentum) * running

/-- Blend a running statistic of every channel with the current one. -/
def blendInto {count : Nat} (current : Vector α count) (s : Shape) :
    Run (Vector α s.elemCount) Unit :=
  scatter i.blend (List.finRange count) (fun c => s.position [c.val]) fun c => return current[c]

/-- Blend the running statistics with those of the current input. -/
def updateStatistics (ch : Channels) : Run (Context α) Unit := do
  let src ← (← get).floats i.src
  let mean ← i.localMean ch src
  let var ← i.localVariance ch src mean
  updateWeightPair i.mean i.var fun _ =>
    Tensor.onFloatPair fun s t => do
      Run.onFst (i.blendInto mean s)
      Run.onSnd (i.blendInto var t)

/-- The forward kernel. -/
def forward (train : Bool) : Run (Context α) Unit := do
  let ch ← i.channels (← get)
  if train then i.updateStatistics ch
  i.normalize

/-! ### Backward -/

/-- The sums over a channel that the input gradient depends on. -/
structure Sums (α : Type) (count : Nat) where
  /-- The sum of the output gradients times the distances from the mean. -/
  gradTimesDistance : Vector α count
  /-- The sum of the output gradients. -/
  grad : Vector α count

/-- The sums over every channel. -/
def sums (count : Nat) (src mean outGrad : View α) : Outcome (Sums α count) := do
  let gradTimesDistance ← i.channelSums count src fun k => do
    return (← outGrad.raw k) * ((← src.raw k) - (← i.ofChannel src mean k))
  let grad ← i.channelSums count src outGrad.raw
  return ⟨gradTimesDistance, grad⟩

/-- What the output at a position contributes to the input gradient there. -/
def slope (ch : Channels) (sums : Sums α ch.count) (src scale mean var outGrad : View α)
    (k : Nat) : Outcome α := do
  let c ← i.channel src k
  let v ← i.ofChannel src var k
  let r := i.inverseDeviation v
  let inverse := 1 / (v + i.epsilon)
  let dy ← outGrad.raw k
  let distance := (← src.raw k) - (← i.ofChannel src mean k)
  let factor ← i.ofChannel src scale k
  let some sumGrad := sums.grad[c]? | throw .fault
  let some sumProduct := sums.gradTimesDistance[c]? | throw .fault
  let n : α := Scalar.ofNat ch.samples
  return 1 / n * factor * r * (n * dy - sumGrad - distance * inverse * sumProduct)

/-- Add to the input gradient. -/
def backwardInput (ch : Channels) (sums : Sums α ch.count) : Run (Context α) Unit :=
  updateGrad i.src fun ctx => do
    let src ← ctx.floats i.src
    let scale ← ctx.floats i.scale
    let mean ← ctx.floats i.mean
    let var ← ctx.floats i.var
    let outGrad ← ctx.gradFloats i.dest
    Tensor.onFloats fun _ =>
      scatter accumulate (List.range src.size) atPosition
        (i.slope ch sums src scale mean var outGrad)

/-- Add to the bias gradient. -/
def backwardBias : Run (Context α) Unit :=
  updateGrad i.bias fun ctx => do
    let src ← ctx.floats i.src
    let outGrad ← ctx.gradFloats i.dest
    Tensor.onFloats fun s =>
      scatter accumulate (List.range src.size)
        (fun k => do s.position [← i.channel src k]) outGrad.raw

/-- Add to the scale gradient. -/
def backwardScale : Run (Context α) Unit :=
  updateGrad i.scale fun ctx => do
    let src ← ctx.floats i.src
    let mean ← ctx.floats i.mean
    let var ← ctx.floats i.var
    let outGrad ← ctx.gradFloats i.dest
    Tensor.onFloats fun s =>
      scatter accumulate (List.range src.size)
        (fun k => do s.position [← i.channel src k]) fun k => do
          let r := i.inverseDeviation (← i.ofChannel src var k)
          return ((← src.raw k) - (← i.ofChannel src mean k)) * r * (← outGrad.raw k)

/-- The backward kernel. -/
def backward : Run (Context α) Unit := do
  let ch ← i.channels (← get)
  Context.change (·.ensureGrad i.dest)
  let ctx ← get
  let src ← ctx.floats i.src
  let mean ← ctx.floats i.mean
  let outGrad ← ctx.gradFloats i.dest
  let sums ← i.sums ch.count src mean outGrad
  i.backwardInput ch sums
  i.backwardBias
  i.backwardScale

end TensorProgram.BatchNorm
