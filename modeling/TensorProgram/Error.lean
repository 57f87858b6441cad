/-
TensorProgram/Error.lean

Everything that can be reported as wrong, one constructor per cause, and the
wording of each (`Error.message`).  An error names an invariant that a caller
broke: a value wired to the wrong shape, a tensor read as the wrong kind, a
program that uses a value before it exists.  Accesses outside a buffer are not
errors in this sense; `TensorProgram.Failure` keeps them apart.
-/
import TensorProgram.Shape.Basic
import TensorProgram.ElemKind
import TensorProgram.ValueId

namespace TensorProgram

/-- A reported violation. -/
inductive Error where
  /-- Two shapes that must agree do not; `subject` says what they belong to. -/
  | shapeMismatch (subject : String) (expected got : Shape)
  /-- A shape has the wrong number of axes. -/
  | rankMismatch (subject : String) (expected got : Nat)
  /-- A tensor of one element kind was read as the other. -/
  | kindMismatch (expected got : ElemKind)
  /-- An axis that a tensor of this rank does not have. -/
  | dimOutOfRange (dim rank : Nat)
  /-- A list of elements does not fill a shape exactly. -/
  | elementCountMismatch (shape : Shape) (got : Nat)
  /-- A list that is no permutation of the axes. -/
  | invalidPermutation (shuffle : List Nat) (rank : Nat)
  /-- A block at this offset does not lie inside the outer tensor. -/
  | blockOutOfBounds (inner outer : Shape) (offset : List Nat)
  /-- A max-pool window at this position lies outside the input. -/
  | emptyPoolingWindow (x y : Int)
  /-- No tensor is bound in this slot of a value. -/
  | missingTensor (id : ValueId) (slot : Slot)
  /-- A value that was never declared. -/
  | undeclaredValue (id : ValueId)
  /-- A sliding window that does not move. -/
  | zeroStride
  /-- A sliding window that is empty or larger than its padded input. -/
  | windowDoesNotFit (kernel input pad : Nat)
  /-- The value at this position of a value table carries another name. -/
  | misplacedValue (name : String) (position : Nat) (id : ValueId)
  /-- An instruction uses an activation before it is allocated. -/
  | unallocatedActivation (position : Nat) (mnemonic name : String)
  /-- A violation found while checking an instruction of a program. -/
  | inInstruction (position : Nat) (mnemonic : String) (cause : Error)
  /-- A lifecycle instruction names a value that is no activation. -/
  | notAnActivation (name : String)
  /-- A max pool of a program names no value for its coordinates. -/
  | coordinatesNotNamed
  /-- A max pool runs without a value for its coordinates. -/
  | noSavedCoordinates
  /-- A saved max-pool coordinate lies outside the input. -/
  | savedCoordinateOutside (x y n h w c : Nat)
  /-- A concatenation of nothing. -/
  | emptyConcat
  /-- The operands of a concatenation do not add up to its output. -/
  | concatCover (covered extent dim : Nat)
  /-- A softmax whose rows have no entry. -/
  | emptySoftmaxRow
  /-- A batch normalization over an axis of extent zero. -/
  | zeroBatchNormChannels
  /-- A declared local response normalization without channels. -/
  | localResponseNeedsChannel
  /-- A local response normalization runs without channels. -/
  | zeroLocalResponseChannels
  /-- A failure that the caller of an update reports from inside it. -/
  | reported (text : String)

/-- The wording of an error. -/
def Error.message : Error → String
  | .shapeMismatch subject expected got =>
      s!"shape mismatch in {subject}: expected {expected.text}, got {got.text}"
  | .rankMismatch subject expected got =>
      s!"rank mismatch in {subject}: expected rank {expected}, got {got}"
  | .kindMismatch expected got =>
      s!"element kind mismatch: expected {expected.text}, got {got.text}"
  | .dimOutOfRange dim rank =>
      s!"dimension out of range: dim {dim} for tensor with {rank} dimensions"
  | .elementCountMismatch shape got =>
      s!"element count mismatch: shape {shape.text} requires {shape.elemCount} elements, got {got}"
  | .invalidPermutation shuffle rank =>
      s!"invalid permutation {bracketed shuffle} for rank {rank}"
  | .blockOutOfBounds inner outer offset =>
      s!"sub-tensor {inner.text} at offset {bracketed offset} does not fit in {outer.text}"
  | .emptyPoolingWindow x y =>
      s!"pooling window at ({x}, {y}) has no valid position"
  | .missingTensor id slot =>
      s!"no {slot.text} tensor bound for value {ValueId.text id}"
  | .undeclaredValue id => s!"value {ValueId.text id} is not declared"
  | .zeroStride => "window stride must be non-zero"
  | .windowDoesNotFit kernel input pad =>
      s!"window of size {kernel} does not fit input extent {input} with padding {pad}"
  | .misplacedValue name position id =>
      s!"value {name} declared at position {position} carries id {ValueId.text id}"
  | .unallocatedActivation position mnemonic name =>
      s!"instruction {position} ({mnemonic}) uses activation {name} before it is allocated"
  | .inInstruction position mnemonic cause =>
      s!"instruction {position} ({mnemonic}): {cause.message}"
  | .notAnActivation name => s!"{name} is a weight, not an activation"
  | .coordinatesNotNamed => "max pooling needs a coordinate value"
  | .noSavedCoordinates => "max pooling has no saved-coordinate value"
  | .savedCoordinateOutside x y n h w c =>
      s!"saved max-pool coordinate ({x}, {y}) is outside NHWC{bracketed [n, h, w, c]}"
  | .emptyConcat => "concat needs at least one operand"
  | .concatCover covered extent dim =>
      s!"concat operands cover {covered} of {extent} along dim {dim}"
  | .emptySoftmaxRow => "softmax over an empty row"
  | .zeroBatchNormChannels => "batch norm over zero channels"
  | .localResponseNeedsChannel => "local response normalization needs at least one channel"
  | .zeroLocalResponseChannels => "lrn input needs at least one channel"
  | .reported text => text

end TensorProgram
