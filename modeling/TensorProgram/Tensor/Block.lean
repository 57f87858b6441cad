/-
TensorProgram/Tensor/Block.lean

Moving elements between tensors along views: transposition, and copying a block
into or out of a larger tensor.  Each is a walk over one view of one buffer
beside the plain order of the other buffer.  The fit is checked first, and a
failing check writes nothing.
-/
import TensorProgram.Tensor.Update

namespace TensorProgram

variable {ε : Type}

namespace View

/-- Fill a buffer in order with the elements of `src` at these positions. -/
def gather {n : Nat} (src : View ε) (positions : List Nat) : Run (Vector ε n) Unit :=
  scatter overwrite positions.zipIdx (fun p => atPosition p.2) fun p => src.raw p.1

/-- Write the transposition of `src` into a buffer of shape `s`: axis `i` of the
result is axis `shuffle[i]` of `src`. -/
def transposeInto (src : View ε) (shuffle : List Nat) (s : Shape) :
    Run (Vector ε s.elemCount) Unit := do
  let view ← (Layout.contiguous src.shape).permute shuffle
  if view.shape = s then src.gather view.indices
  else Run.report (.shapeMismatch "transpose" view.shape s)

/-- Copy the block of shape `s` at coordinate `offset` of `src` into a buffer. -/
def extractInto (src : View ε) (offset : List Nat) (s : Shape) :
    Run (Vector ε s.elemCount) Unit := do
  let view ← (Layout.contiguous src.shape).window s offset
  src.gather view.indices

/-- Copy `block` into a buffer of shape `s` with its origin at coordinate
`offset`. -/
def insertInto (block : View ε) (offset : List Nat) (s : Shape) :
    Run (Vector ε s.elemCount) Unit := do
  let view ← (Layout.contiguous s).window block.shape offset
  scatter overwrite view.indices.zipIdx (fun p => atPosition p.1) fun p => block.raw p.2

/-- Copy `src` into a buffer of the same length. -/
def copyInto {n : Nat} (src : View ε) : Run (Vector ε n) Unit := fun data =>
  if h : src.shape.elemCount = n then .ok () (src.data.cast h) else .error .fault data

end View

end TensorProgram
