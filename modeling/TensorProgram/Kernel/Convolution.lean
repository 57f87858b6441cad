/-
TensorProgram/Kernel/Convolution.lean

Convolution of a batch of images, with zeros outside each image.  With `win`
the sliding window, output channel `d` at position `(ax, ay)` of image `n` is

  `bias[d] + Σ filter[d, fx, fy, c] * src[n, ox, oy, c]`

over the taps of the window and the input channels `c`.  The way back visits
the outputs in the same order three times, once for each gradient, and at each
output with gradient `g` adds

* `src[b, ox, oy, c] * g` to the filter gradient at `[d, fx, fy, c]`, where
  image `b` is chosen by `FilterGradSource`;
* `filter[d, fx, fy, c] * g` to the input gradient at `[n, ox, oy, c]`;
* `g` to the bias gradient at `[d]`.
-/
import TensorProgram.Context
import TensorProgram.Config
import TensorProgram.Shape.Agreement
import TensorProgram.Program.Instruction

namespace TensorProgram

variable {α : Type} [Scalar α]

open Context (updateWeight updateGrad)

/-- The extents of input and output of an instruction on images. -/
structure ImageDims where
  /-- The extents of the input. -/
  input : NHWC
  /-- The extents of the output. -/
  output : NHWC

/-- An element of the output of an instruction on images. -/
structure OutputSite where
  /-- The image. -/
  n : Nat
  /-- The output channel. -/
  d : Nat
  /-- The output position. -/
  anchor : Anchor

/-- The coordinate of an element of the output. -/
def OutputSite.coord (o : OutputSite) : List Nat := [o.n, o.anchor.ax, o.anchor.ay, o.d]

/-- Every element of the output: images outermost, then channels, then the
output positions. -/
def Window.sites (win : Window) (output : NHWC) : List OutputSite :=
  (List.range output.n).flatMap fun n =>
    (List.range output.c).flatMap fun d =>
      (win.anchors output).map fun anchor => ⟨n, d, anchor⟩

/-- A tap of a window together with an input channel. -/
structure ChannelTap where
  /-- The tap. -/
  tap : Tap
  /-- The input channel. -/
  c : Nat

/-- Every tap of a window with every input channel, channels innermost. -/
def Window.channelTaps (win : Window) (a : Anchor) (input : NHWC) : List ChannelTap :=
  (win.taps a input).flatMap fun tap => (List.range input.c).map fun c => ⟨tap, c⟩

namespace ChannelTap

/-- The coordinate of a tap in an image. -/
def inImage (t : ChannelTap) (n : Nat) : List Nat := [n, t.tap.ox, t.tap.oy, t.c]

/-- The coordinate of a tap in the filter of an output channel. -/
def inFilter (t : ChannelTap) (d : Nat) : List Nat := [d, t.tap.fx, t.tap.fy, t.c]

end ChannelTap

namespace Convolution

variable (i : Convolution)

/-- The extents of input and output, if filter and bias fit them. -/
def dims (ctx : Context α) : Except Error ImageDims := do
  let input ← NHWC.ofDims (← ctx.shapeOf i.src).dims
  let output ← NHWC.ofDims (← ctx.shapeOf i.dest).dims
  if input.n ≠ output.n then
    throw (.shapeMismatch "convolution batch" input.toShape output.toShape)
  let k := i.window.kernel
  requireSameShape "convolution filter" ⟨[output.c, k, k, input.c]⟩ (← ctx.shapeOf i.filter)
  requireSameShape "convolution bias" ⟨[output.c]⟩ (← ctx.shapeOf i.bias)
  return ⟨input, output⟩

/-- The value of an element of the output. -/
def value (src filter bias : View α) (input : NHWC) (o : OutputSite) : Outcome α := do
  let products ← (i.window.channelTaps o.anchor input).mapM fun t => do
    return (← filter.get (t.inFilter o.d)) * (← src.get (t.inImage o.n))
  return Scalar.sum products + (← bias.get [o.d])

/-- The forward kernel. -/
def forward : Run (Context α) Unit := do
  let dims ← i.dims (← get)
  updateWeight i.dest fun ctx => do
    let src ← ctx.floats i.src
    let filter ← ctx.floats i.filter
    let bias ← ctx.floats i.bias
    Tensor.onFloats fun s =>
      scatter overwrite (i.window.sites dims.output) (s.position ·.coord)
        (i.value src filter bias dims.input)

/-- Add to the filter gradient. -/
def backwardFilter (source : FilterGradSource) (dims : ImageDims) : Run (Context α) Unit :=
  updateGrad i.filter fun ctx => do
    let src ← ctx.floats i.src
    let outGrad ← ctx.gradFloats i.dest
    Tensor.onFloats fun s =>
      (i.window.sites dims.output).forM fun o => do
        let g ← outGrad.get o.coord
        scatter accumulate (i.window.channelTaps o.anchor dims.input)
          (fun t => s.position (t.inFilter o.d))
          fun t => do return (← src.get (t.inImage (source.image o.n))) * g

/-- Add to the input gradient. -/
def backwardInput (dims : ImageDims) : Run (Context α) Unit :=
  updateGrad i.src fun ctx => do
    let filter ← ctx.floats i.filter
    let outGrad ← ctx.gradFloats i.dest
    Tensor.onFloats fun s =>
      (i.window.sites dims.output).forM fun o => do
        let g ← outGrad.get o.coord
        scatter accumulate (i.window.channelTaps o.anchor dims.input)
          (fun t => s.position (t.inImage o.n))
          fun t => do return (← filter.get (t.inFilter o.d)) * g

/-- Add to the bias gradient. -/
def backwardBias (dims : ImageDims) : Run (Context α) Unit :=
  updateGrad i.bias fun ctx => do
    let outGrad ← ctx.gradFloats i.dest
    Tensor.onFloats fun s =>
      scatter accumulate (i.window.sites dims.output) (fun o => s.position [o.d])
        (outGrad.get ·.coord)

/-- The backward kernel. -/
def backward (source : FilterGradSource) : Run (Context α) Unit := do
  let dims ← i.dims (← get)
  Context.change (·.ensureGrad i.dest)
  let outGrad ← (← get).grad i.dest
  requireSameShape "convolution output gradient" dims.output.toShape outGrad.shape
  i.backwardFilter source dims
  i.backwardInput dims
  i.backwardBias dims

end Convolution

end TensorProgram
