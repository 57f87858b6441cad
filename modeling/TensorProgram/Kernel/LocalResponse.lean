/-
TensorProgram/Kernel/LocalResponse.lean

Normalization of every element by its neighbouring channels.  At every pixel a
window slides along the channels and carries a running sum: it starts with the
terms of channels `1 … W`, where `W` is the half window, and after channel `c`
the term of channel `c - W` leaves and that of `c + W + 1` enters.  With
`a = α / (2 W + 1)`

  `scale = k + a * Σ src²` and `dest = src * scale ^ -β`,

and the scales are saved.  The way back slides over the terms
`g * dest / scale`, with `g` the gradient of an output, and writes

  `g * scale ^ -β - 2 * a * β * src * Σ term`

into the input gradient by the gradient policy.

Numbers of channels are words, and they wrap: a half window of `2^63` divides `α` by
one, and at the largest one the channel that enters is the one that is there.
-/
import TensorProgram.Kernel.Rearrange

namespace TensorProgram

variable {α : Type} [Scalar α]

open Context (updateWeightPair updateGrad)

/-- The values that a running sum has at `count` channels from channel `c` on,
when `next c` turns its value at channel `c` into that at `c + 1`. -/
def runningSums (next : Nat → α → α) : (count c : Nat) → α → List α
  | 0, _, _ => []
  | count + 1, c, s => s :: runningSums next count (c + 1) (next c s)

/-- The channels that a window of half width `half` starts with, of `channels`
in all. -/
def startingChannels (half channels : Nat) : List Nat := List.range' 1 (min half (channels - 1))

namespace LocalResponse

variable (i : LocalResponse α)

/-- The extents of the input, which has a channel; output and scales have the
shape of the input. -/
def dims (ctx : Context α) : Except Error NHWC := do
  let src ← ctx.shapeOf i.src
  requireSameShape "lrn output" src (← ctx.shapeOf i.dest)
  requireSameShape "lrn scale cache" src (← ctx.shapeOf i.scale)
  let input ← NHWC.ofDims src.dims
  if input.c = 0 then throw .zeroLocalResponseChannels
  return input

/-- A number of channels as a word of 64 bits.  Only a half window that is no shorter
than the row, which lies in memory, can leave the words. -/
def word (channels count : Nat) : Nat :=
  if i.halfWindow < channels then count else (UInt64.ofNat count).toNat

/-- The weight of a square in a row of this many channels. -/
def weight (channels : Nat) : α := i.alpha / Scalar.ofNat (i.word channels (2 * i.halfWindow + 1))

/-- Every pixel: images outermost, then the two spatial axes. -/
def pixels (d : NHWC) : List (List Nat) :=
  (List.range d.n).flatMap fun n => (List.range d.h).flatMap fun h =>
    (List.range d.w).map fun w => [n, h, w]

/-- The channels of a pixel. -/
def row (v : View α) (channels : Nat) (pixel : List Nat) : Outcome (List α) :=
  (List.range channels).mapM fun c => v.get (pixel ++ [c])

/-! ### Forward -/

/-- The running sums of squares at every channel of a pixel. -/
def squareSums (row : List α) : List α :=
  let channels := row.length
  let entry (c : Nat) : α := row.getD c 0
  let start := Scalar.sum ((startingChannels i.halfWindow channels).map fun c => entry c * entry c)
  let next (c : Nat) (s : α) : α :=
    let leaving := if i.halfWindow ≤ c then entry (c - i.halfWindow) else 0
    let next := i.word channels (c + i.halfWindow + 1)
    let entering := if next < channels then entry next else 0
    s - leaving * leaving + entering * entering
  runningSums next channels 0 start

/-- The scales at every channel of a pixel. -/
def scales (row : List α) : List α := (i.squareSums row).map fun s => i.k + i.weight row.length * s

/-- The normalized channels of a pixel. -/
def normalized (row : List α) : List α :=
  List.zipWith (fun x scale => x * Scalar.pow scale (-i.beta)) row (i.scales row)

/-- Write the channels of a pixel. -/
def writeRow {n : Nat} (combine : α → α → α) (s : Shape) (pixel : List Nat) (row : List α) :
    Run (Vector α n) Unit :=
  scatter combine row.zipIdx (fun p => s.position (pixel ++ [p.2])) fun p => return p.1

/-- The forward kernel. -/
def forward : Run (Context α) Unit := do
  let d ← i.dims (← get)
  updateWeightPair i.dest i.scale fun ctx => do
    let src ← ctx.floats i.src
    Tensor.onFloatPair fun s t =>
      (pixels d).forM fun pixel => do
        let row ← row src d.c pixel
        Run.onSnd (writeRow overwrite t pixel (i.scales row))
        Run.onFst (writeRow overwrite s pixel (i.normalized row))

/-! ### Backward -/

/-- The running sums of terms at every channel of a pixel. -/
def termSums (terms : List α) : List α :=
  let channels := terms.length
  let entry (c : Nat) : α := terms.getD c 0
  let start := Scalar.sum ((startingChannels i.halfWindow channels).map entry)
  let next (c : Nat) (s : α) : α :=
    let s := if i.halfWindow ≤ c then s - entry (c - i.halfWindow) else s
    let next := i.word channels (c + i.halfWindow + 1)
    if next < channels then s + entry next else s
  runningSums next channels 0 start

/-- What a channel of so many contributes to its input gradient: its input, scale and
output gradient, and the running sum of terms there. -/
def slope (channels : Nat) (x scale g s : α) : α :=
  g * Scalar.pow scale (-i.beta) - Scalar.ofNat 2 * i.weight channels * i.beta * x * s

/-- What the channels of a pixel contribute to their input gradients. -/
def slopes (src out scale outGrad : List α) : List α :=
  let terms := List.zipWith (· * ·) outGrad (List.zipWith (· / ·) out scale)
  List.zipWith (fun (x, scale) (g, s) => i.slope src.length x scale g s)
    (src.zip scale) (outGrad.zip (i.termSums terms))

/-- The backward kernel. -/
def backward (policy : GradientPolicy) : Run (Context α) Unit := do
  let d ← i.dims (← get)
  Context.change (·.ensureGrad i.dest)
  updateGrad i.src fun ctx => do
    let src ← ctx.floats i.src
    let out ← ctx.floats i.dest
    let outGrad ← ctx.gradFloats i.dest
    let scale ← ctx.floats i.scale
    Tensor.onFloats fun s =>
      (pixels d).forM fun pixel => do
        let slopes := i.slopes (← row src d.c pixel) (← row out d.c pixel)
          (← row scale d.c pixel) (← row outGrad d.c pixel)
        writeRow policy.combine s pixel slopes

end LocalResponse

end TensorProgram
