/-
TensorProgram/Kernel/Pooling.lean

Pooling of a batch of images, channel by channel.

A max pool keeps the largest element under a window, the last of several equal
ones, and saves its input coordinate; a window with no element is an error.
The way back adds the gradient of an output to the input at the saved
coordinate.

An average pool divides the sum under a window by the area of the window, so
padding counts as zeros.  The way back gives every element under the window an
equal share of the gradient of the output.
-/
import TensorProgram.Kernel.Convolution

namespace TensorProgram

variable {α : Type} [Scalar α]

open Context (updateWeight updateWeightPair updateGrad)

namespace Pool

variable (i : Pool)

/-- The extents of input and output, which agree in images and channels. -/
def dims (ctx : Context α) : Except Error ImageDims := do
  let input ← NHWC.ofDims (← ctx.shapeOf i.src).dims
  let output ← NHWC.ofDims (← ctx.shapeOf i.dest).dims
  if input.n ≠ output.n ∨ input.c ≠ output.c then
    throw (.shapeMismatch "pool batch/channels" input.toShape output.toShape)
  return ⟨input, output⟩

/-- The value that holds the saved coordinates, one pair for every output. -/
def savedIn (ctx : Context α) (output : NHWC) : Except Error ValueId := do
  let some coords := i.coords | throw .noSavedCoordinates
  requireSameShape "max pool coordinates"
    ⟨[output.n, output.h, output.w, output.c, 2]⟩ (← ctx.shapeOf coords)
  return coords

/-! ### Maximum -/

/-- An element under a window and its coordinate in the image. -/
structure Candidate (α : Type) where
  /-- The element. -/
  value : α
  /-- Its coordinate along the first spatial axis. -/
  x : Nat
  /-- Its coordinate along the second spatial axis. -/
  y : Nat

/-- The better of two candidates, the later one if they are equal. -/
def Candidate.better (best : Option (Candidate α)) (c : Candidate α) : Candidate α :=
  match best with
  | none => c
  | some b => if Scalar.le b.value c.value then c else b

/-- The candidate that a max pool keeps for an output. -/
def best (src : View α) (input : NHWC) (o : OutputSite) : Outcome (Candidate α) := do
  let best ← (i.window.taps o.anchor input).foldlM (fun best t => do
    let value ← src.get [o.n, t.ox, t.oy, o.d]
    return some (Candidate.better best ⟨value, t.ox, t.oy⟩)) none
  match best with
  | some c => return c
  | none => throw (.error (.emptyPoolingWindow o.anchor.x.toInt o.anchor.y.toInt))

/-- The forward kernel of a max pool. -/
def forwardMax : Run (Context α) Unit := do
  let dims ← i.dims (← get)
  let coords ← i.savedIn (← get) dims.output
  updateWeightPair i.dest coords fun ctx => do
    let src ← ctx.floats i.src
    Tensor.onFloatsAndIndices fun s saved =>
      (i.window.sites dims.output).forM fun o => do
        let c ← i.best src dims.input o
        Run.onSnd <| scatter overwrite [(0, c.x), (1, c.y)]
          (fun p => saved.position (o.coord ++ [p.1])) fun p => return p.2
        Run.onFst <| scatter overwrite [c.value] (fun _ => s.position o.coord) pure

/-- The position in the input gradient of the element that was kept for an
output. -/
def savedPosition (saved : View Nat) (input : NHWC) (s : Shape) (o : OutputSite) :
    Outcome Nat := do
  let x ← saved.get (o.coord ++ [0])
  let y ← saved.get (o.coord ++ [1])
  if input.h ≤ x ∨ input.w ≤ y then
    throw (.error (.savedCoordinateOutside x y input.n input.h input.w input.c))
  s.position [o.n, x, y, o.d]

/-- The backward kernel of a max pool. -/
def backwardMax : Run (Context α) Unit := do
  let dims ← i.dims (← get)
  let coords ← i.savedIn (← get) dims.output
  Context.change (·.ensureGrad i.dest)
  updateGrad i.src fun ctx => do
    let outGrad ← ctx.gradFloats i.dest
    let saved ← ctx.indices coords
    Tensor.onFloats fun s =>
      scatter accumulate (i.window.sites dims.output) (savedPosition saved dims.input s)
        (outGrad.get ·.coord)

/-! ### Average -/

/-- The number of positions in a window.  It stands for a word: where it leaves the
words, no walk over a window comes to its end, and no quotient by it is ever seen. -/
def area : α := Scalar.ofNat (i.window.kernel * i.window.kernel)

/-- The average under a window. -/
def average (src : View α) (input : NHWC) (o : OutputSite) : Outcome α := do
  let values ← (i.window.taps o.anchor input).mapM fun t => src.get [o.n, t.ox, t.oy, o.d]
  return Scalar.sum values / i.area

/-- The forward kernel of an average pool. -/
def forwardAvg : Run (Context α) Unit := do
  let dims ← i.dims (← get)
  updateWeight i.dest fun ctx => do
    let src ← ctx.floats i.src
    Tensor.onFloats fun s =>
      scatter overwrite (i.window.sites dims.output) (s.position ·.coord)
        (i.average src dims.input)

/-- The backward kernel of an average pool. -/
def backwardAvg : Run (Context α) Unit := do
  let dims ← i.dims (← get)
  Context.change (·.ensureGrad i.dest)
  updateGrad i.src fun ctx => do
    let outGrad ← ctx.gradFloats i.dest
    Tensor.onFloats fun s =>
      (i.window.sites dims.output).forM fun o => do
        let share := (← outGrad.get o.coord) / i.area
        scatter accumulate (i.window.taps o.anchor dims.input)
          (fun t => s.position [o.n, t.ox, t.oy, o.d]) fun _ => return share

/-! ### Either -/

/-- The forward kernel. -/
def forward : Run (Context α) Unit :=
  match i.kind with
  | .max => i.forwardMax
  | .avg => i.forwardAvg

/-- The backward kernel. -/
def backward : Run (Context α) Unit :=
  match i.kind with
  | .max => i.backwardMax
  | .avg => i.backwardAvg

end Pool

end TensorProgram
