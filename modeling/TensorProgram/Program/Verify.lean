/-
TensorProgram/Program/Verify.lean

The static check of a program.  It walks the instructions in order and demands

* that every operand is declared, and that an activation is allocated before
  an instruction uses it;
* that operands have the element kinds and the shapes which the instruction
  relates to one another;
* that only activations are allocated or given up.

The first violation is the answer (`Program.verify`).  What a single
instruction demands of the declarations is `Program.verifyInstruction`.
-/
import TensorProgram.Program.Basic
import TensorProgram.Shape.Agreement

namespace TensorProgram.Program

variable {α : Type} (p : Program α)

/-! ### Demands on declarations -/

/-- A value is declared with this kind. -/
def requireKind (kind : ElemKind) (id : ValueId) : Except Error Unit := do
  let got := (← p.value id).kind
  if got = kind then return else throw (.kindMismatch kind got)

/-- All of these values are declared with scalars. -/
def requireFloats (ids : List ValueId) : Except Error Unit :=
  ids.forM (p.requireKind .float)

/-- A value is declared with this shape. -/
def requireShape (id : ValueId) (subject : String) (expected : Shape) : Except Error Unit := do
  requireSameShape subject expected (← p.shapeOf id)

/-- A value is declared with the extents of a batch of images. -/
def images (id : ValueId) : Except Error NHWC := do
  NHWC.ofDims (← p.shapeOf id).dims

/-- A value is declared as an activation. -/
def requireActivation (id : ValueId) : Except Error Unit := do
  let v ← p.value id
  if v.role = .activation then return else throw (.notAnActivation v.name)

/-- Both values hold scalars and the output has the shape of the input. -/
def requireSameFloats (dest src : ValueId) (subject : String) : Except Error Unit := do
  p.requireFloats [dest, src]
  p.requireShape dest subject (← p.shapeOf src)

/-! ### Demands of single instructions -/

/-- What errors call the shape of an activation's output. -/
def activationSubject : Activation → String
  | .relu => "relu"
  | .sigmoid => "sigmoid"
  | .tanh => "tanh"

/-- The demands of a convolution. -/
def verifyConvolution (i : Convolution) : Except Error Unit := do
  p.requireFloats [i.dest, i.src, i.filter, i.bias]
  let input ← p.images i.src
  let output ← p.images i.dest
  let (height, width) ← i.window.outputDims input
  p.requireShape i.dest "convolution output" ⟨[input.n, height, width, output.c]⟩
  p.requireShape i.filter "convolution filter"
    ⟨[output.c, i.window.kernel, i.window.kernel, input.c]⟩
  p.requireShape i.bias "convolution bias" ⟨[output.c]⟩

/-- The demands of a pooling. -/
def verifyPool (i : Pool) : Except Error Unit := do
  p.requireFloats [i.dest, i.src]
  let input ← p.images i.src
  let (height, width) ← i.window.outputDims input
  p.requireShape i.dest "pool output" ⟨[input.n, height, width, input.c]⟩
  match i.kind, i.coords with
  | .max, some coords =>
      p.requireKind .index coords
      p.requireShape coords "max pool coordinates" ⟨[input.n, height, width, input.c, 2]⟩
  | .max, none => throw .coordinatesNotNamed
  | .avg, _ => return

/-- The demands of an affine map of rows. -/
def verifyFullyConnected (i : FullyConnected) : Except Error Unit := do
  p.requireFloats [i.dest, i.src, i.filter, i.bias]
  let src ← p.shapeOf i.src
  let (batch, inputs) ← flattenRows src.dims
  let dest ← p.shapeOf i.dest
  let (outBatch, outputs) ← flattenRows dest.dims
  if outBatch ≠ batch then throw (.shapeMismatch "fully connected batch" src dest)
  p.requireShape i.filter "fully connected filter" ⟨[outputs, inputs]⟩
  p.requireShape i.bias "fully connected bias" ⟨[outputs]⟩

/-- The demands of a softmax. -/
def verifySoftmax (i : Softmax) : Except Error Unit := do
  p.requireFloats [i.dest, i.src, i.saved]
  p.requireKind .index i.selected
  let src ← p.shapeOf i.src
  requireRank "softmax" src 2
  p.requireShape i.dest "softmax output" src
  p.requireShape i.saved "softmax saved probabilities" src
  p.requireShape i.selected "softmax labels" ⟨[src.dims.headD 0, 1]⟩

/-- The demands of a squared distance. -/
def verifyRegression (i : Regression) : Except Error Unit := do
  p.requireFloats [i.dest, i.src, i.expected]
  let src ← p.shapeOf i.src
  requireRank "regression" src 2
  p.requireShape i.dest "regression output" src
  p.requireShape i.expected "regression expected" src

/-- The demands of a reordering of axes. -/
def verifyTranspose (i : Transpose) : Except Error Unit := do
  p.requireFloats [i.dest, i.src]
  let permuted ← (← p.shapeOf i.src).permute i.shuffle
  p.requireShape i.dest "transpose output" permuted

/-- The demands of a change of shape. -/
def verifyReshape (i : Unary) : Except Error Unit := do
  p.requireFloats [i.dest, i.src]
  requireSameSize "reshape element count" (← p.shapeOf i.src) (← p.shapeOf i.dest)

/-- The demands of blocks laid side by side: each agrees with the output on all
axes but one, and along that one they add up to it. -/
def verifyConcat (i : Concat) : Except Error Unit := do
  p.requireFloats [i.dest]
  p.requireFloats i.srcs
  let dest ← p.shapeOf i.dest
  let extent ← dest.dim i.dim
  if i.srcs.isEmpty then throw .emptyConcat
  let covered ← i.srcs.foldlM (fun covered id => do
    let s ← p.shapeOf id
    if s.agreesExcept dest i.dim then return covered + s.dims.getD i.dim 0
    else throw (.shapeMismatch "concat operand" dest s)) 0
  if covered ≠ extent then throw (.concatCover covered extent i.dim)

/-- The demands of a normalization by running statistics. -/
def verifyBatchNorm (i : BatchNorm α) : Except Error Unit := do
  p.requireFloats [i.dest, i.src, i.scale, i.bias, i.mean, i.var]
  let src ← p.shapeOf i.src
  p.requireShape i.dest "batch norm output" src
  let channels : Shape := ⟨[← src.dim i.axis]⟩
  p.requireShape i.scale "batch norm scale" channels
  p.requireShape i.bias "batch norm bias" channels
  p.requireShape i.mean "batch norm mean" channels
  p.requireShape i.var "batch norm variance" channels

/-- The demands of a normalization by neighbouring channels. -/
def verifyLocalResponse (i : LocalResponse α) : Except Error Unit := do
  p.requireFloats [i.dest, i.src, i.scale]
  let input ← p.images i.src
  if input.c = 0 then throw .localResponseNeedsChannel
  p.requireShape i.dest "lrn output" input.toShape
  p.requireShape i.scale "lrn scale cache" input.toShape

/-- The demands of a sum or product. -/
def verifyArithmetic (i : Arithmetic) : Except Error Unit := do
  p.requireFloats [i.dest, i.lhs, i.rhs]
  let lhs ← p.shapeOf i.lhs
  p.requireShape i.rhs "arithmetic rhs" lhs
  p.requireShape i.dest "arithmetic output" lhs

/-- What an instruction demands of the declarations of its operands. -/
def verifyInstruction : Instruction α → Except Error Unit
  | .copy i => p.requireSameFloats i.dest i.src "copy"
  | .reshape i => p.verifyReshape i
  | .activation f i => p.requireSameFloats i.dest i.src (activationSubject f)
  | .convolution i => p.verifyConvolution i
  | .pool i => p.verifyPool i
  | .fullyConnected i => p.verifyFullyConnected i
  | .softmax i => p.verifySoftmax i
  | .regression i => p.verifyRegression i
  | .transpose i => p.verifyTranspose i
  | .concat i => p.verifyConcat i
  | .batchNorm i => p.verifyBatchNorm i
  | .localResponse i => p.verifyLocalResponse i
  | .arithmetic i => p.verifyArithmetic i
  | .alloc id => p.requireActivation id
  | .dealloc id => p.requireActivation id

/-! ### The walk -/

/-- Every operand of instruction `k` is declared, and allocated if it is an
activation that the instruction uses. -/
def verifyOperands (allocated : List ValueId) (k : Nat) (i : Instruction α) :
    Except Error Unit :=
  i.operands.forM fun (id, _) => do
    let v ← p.value id
    if v.role = .activation ∧ i.isLifecycle = false ∧ id ∉ allocated then
      throw (.unallocatedActivation k i.mnemonic v.name)

/-- The activations alive after an instruction. -/
def allocatedAfter (allocated : List ValueId) : Instruction α → List ValueId
  | .alloc dest => dest :: allocated
  | _ => allocated

/-- Check the instructions from number `k` on. -/
def verifyFrom (allocated : List ValueId) (k : Nat) :
    List (Instruction α) → Except Error Unit
  | [] => .ok ()
  | i :: rest => do
      p.verifyOperands allocated k i
      (p.verifyInstruction i).mapError (.inInstruction k i.mnemonic)
      verifyFrom (allocatedAfter allocated i) (k + 1) rest

/-- Check a program. -/
def verify : Except Error Unit := p.verifyFrom [] 0 p.instructions

end TensorProgram.Program
