/-
TensorProgram/Kernel/Rearrange.lean

Instructions that move elements to other coordinates: transposition, and blocks
laid side by side along an axis.  The gradient of an input is the opposite move
of the gradient of the output: the transposition by the inverse shuffle, or the
block that the input filled.  It is written by the gradient policy.
-/
import TensorProgram.Kernel.Elementwise

namespace TensorProgram

variable {α : Type} [Scalar α]

open Context (updateWeight updateGrad)

/-- What a write leaves in a buffer of zeros. -/
def written {n : Nat} (f : Run (Vector α n) Unit) : Outcome (Vector α n) :=
  match f (Vector.replicate n 0) with
  | .ok _ data => .ok data
  | .error e _ => .error e

/-- Write into a gradient: directly to replace it, and to accumulate into a
buffer of zeros, which is then added to it. -/
def GradientPolicy.store (policy : GradientPolicy)
    (f : (s : Shape) → Run (Vector α s.elemCount) Unit) (s : Shape) :
    Run (Vector α s.elemCount) Unit :=
  match policy with
  | .replace => f s
  | .accumulate => do
      let data ← written (f s)
      (View.mk s data).addInto s

namespace Transpose

variable (i : Transpose)

/-- The forward kernel. -/
def forward : Run (Context α) Unit :=
  updateWeight i.dest fun ctx => do
    let src ← ctx.floats i.src
    Tensor.onFloats (src.transposeInto i.shuffle)

/-- The backward kernel. -/
def backward (policy : GradientPolicy) : Run (Context α) Unit := do
  let inverse ← inversePermutation i.shuffle
  Context.change (·.ensureGrad i.dest)
  updateGrad i.src fun ctx => do
    let outGrad ← ctx.gradFloats i.dest
    Tensor.onFloats (policy.store (outGrad.transposeInto inverse))

end Transpose

namespace Concat

variable (i : Concat)

/-- The coordinate that is `start` along the axis of the blocks and zero along
the others. -/
def origin (rank start : Nat) : List Nat := (List.replicate rank 0).set i.dim start

/-- The block of shape `s` agrees with the output on all other axes; where the
block after it starts. -/
def blockEnd (dest s : Shape) (start : Nat) : Except Error Nat :=
  if s.agreesExcept dest i.dim then .ok (start + s.dims.getD i.dim 0)
  else .error (.shapeMismatch "concat operand" dest s)

/-- The operands, each with the coordinate at which its block begins, if the
blocks fill the output exactly. -/
def blocks (ctx : Context α) : Except Error (List (ValueId × List Nat)) := do
  let dest ← ctx.shapeOf i.dest
  let extent ← dest.dim i.dim
  let (blocks, covered) ← i.srcs.foldlM (fun (blocks, start) id => do
    let next ← i.blockEnd dest (← ctx.shapeOf id) start
    return (blocks ++ [(id, i.origin dest.rank start)], next)) ([], 0)
  if covered = extent then return blocks
  else throw (.concatCover covered extent i.dim)

/-- The forward kernel. -/
def forward : Run (Context α) Unit := do
  let blocks ← i.blocks (← get)
  updateWeight i.dest fun ctx =>
    Tensor.onFloats fun s =>
      blocks.forM fun (id, origin) => do
        let block ← ctx.floats id
        block.insertInto origin s

/-- The backward kernel. -/
def backward (policy : GradientPolicy) : Run (Context α) Unit := do
  let blocks ← i.blocks (← get)
  Context.change (·.ensureGrad i.dest)
  blocks.forM fun (id, origin) =>
    updateGrad id fun ctx => do
      let outGrad ← ctx.gradFloats i.dest
      Tensor.onFloats (policy.store (outGrad.extractInto origin))

end Concat

end TensorProgram
