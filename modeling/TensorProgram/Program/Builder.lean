/-
TensorProgram/Program/Builder.lean

Building a program one layer at a time.  A layer declares the values its
instruction needs, sizes its output from the declared inputs and appends the
instruction.  Outputs and saved state are activations, allocated right before
the instruction that first writes them; parameters are trainable weights.
Values are named after their layer: a convolution called `conv1` declares
`conv1.filter`, `conv1.bias` and its output `conv1`.

A layer that does not fit is an error and leaves nothing behind.  The builder
remembers which activations are alive, in the order of their allocation;
`Builder.deallocateActive` ends them in the opposite order.
-/
import TensorProgram.Program.Verify

namespace TensorProgram

/-- A layer, with the values it is applied to. -/
inductive Layer (α : Type) where
  /-- A value that the caller fills. -/
  | input (kind : ElemKind) (shape : Shape)
  /-- A trainable parameter. -/
  | weight (shape : Shape) (init : WeightInit α)
  /-- The same elements. -/
  | copy (src : ValueId)
  /-- A function applied to every element. -/
  | activation (f : Activation) (src : ValueId)
  /-- A convolution with this number of output channels. -/
  | convolution (src : ValueId) (depth : Nat) (window : Window)
  /-- A pooling. -/
  | pool (kind : PoolKind) (src : ValueId) (window : Window)
  /-- An affine map of rows to this number of outputs. -/
  | fullyConnected (src : ValueId) (depth : Nat)
  /-- A softmax with its loss. -/
  | softmax (src selected : ValueId)
  /-- A squared distance. -/
  | regression (src expected : ValueId)
  /-- A reordering of axes. -/
  | transpose (src : ValueId) (shuffle : List Nat)
  /-- The same elements in another shape. -/
  | reshape (src : ValueId) (shape : Shape)
  /-- Blocks side by side along an axis. -/
  | concat (srcs : List ValueId) (dim : Nat)
  /-- A normalization by running statistics. -/
  | batchNorm (src : ValueId) (axis : Nat) (epsilon momentum : α)
  /-- A normalization by neighbouring channels. -/
  | localResponse (src : ValueId) (halfWindow : Nat) (alpha beta k : α)
  /-- A sum or product of two tensors. -/
  | arithmetic (kind : ArithmeticKind) (lhs rhs : ValueId)

/-- A program under construction. -/
structure Builder (α : Type) where
  /-- The program so far. -/
  program : Program α := {}
  /-- The activations allocated and not yet given up, in order of allocation. -/
  live : List ValueId := []

namespace Builder

variable {α : Type}

/-! ### Declarations -/

/-- A step of construction that always succeeds. -/
abbrev Construct (α β : Type) := StateM (Builder α) β

/-- A step of construction that can fail, and leaves a builder when it does. -/
abbrev Attempt (α β : Type) := EStateM Error (Builder α) β

/-- Take a step that always succeeds. -/
def commit {β : Type} (f : Construct α β) : Attempt α β := fun b => .ok (f.run b).1 (f.run b).2

/-- Ask something of the program so far. -/
def check {β : Type} (f : Program α → Except Error β) : Attempt α β := fun b =>
  match f b.program with
  | .ok x => .ok x b
  | .error e => .error e b

/-- Declare a value under the next free name. -/
def declare (name : String) (kind : ElemKind) (shape : Shape) (role : Role)
    (trainable : Bool) (init : WeightInit α) : Construct α ValueId := fun b =>
  let id := b.program.values.length
  let value : Value α := ⟨id, name, kind, shape, role, trainable, init⟩
  (id, { b with program := { b.program with values := b.program.values ++ [value] } })

/-- Append an instruction. -/
def append (i : Instruction α) : Construct α Unit := fun b =>
  ((), { b with program :=
    { b.program with instructions := b.program.instructions ++ [i] } })

/-- Remember an activation as alive. -/
def enliven (id : ValueId) : Construct α Unit := fun b =>
  ((), { b with live := b.live ++ [id] })

/-- Declare a value that the caller fills. -/
def declareInput (name : String) (kind : ElemKind) (shape : Shape) : Construct α ValueId :=
  declare name kind shape .weight false .zero

/-- Declare a trainable parameter. -/
def declareWeight (name : String) (shape : Shape) (init : WeightInit α) :
    Construct α ValueId :=
  declare name .float shape .weight true init

/-- Declare a weight that training leaves alone. -/
def declareConstant (name : String) (shape : Shape) (init : WeightInit α) :
    Construct α ValueId :=
  declare name .float shape .weight false init

/-- Declare an activation and allocate it. -/
def declareActivation (name : String) (kind : ElemKind) (shape : Shape) :
    Construct α ValueId := do
  let id ← declare name kind shape .activation false .zero
  append (.alloc id)
  enliven id
  return id

/-- Declare an activation of scalars, then append the instruction that writes
it. -/
def declareOutput (name : String) (shape : Shape) (i : ValueId → Instruction α) :
    Construct α ValueId := do
  let dest ← declareActivation name .float shape
  append (i dest)
  return dest

/-! ### Layers -/

section Layers

variable [Scalar α]

/-- What a bias is filled with before the first run: one tenth. -/
def defaultBias : α := Scalar.ofNat 1 / Scalar.ofNat 10

/-- A convolution. -/
def convolution (name : String) (src : ValueId) (depth : Nat) (win : Window)
    (input : NHWC) (height width : Nat) : Construct α ValueId := do
  let k := win.kernel
  let filter ← declareWeight (name ++ ".filter") ⟨[depth, k, k, input.c]⟩
    (.xavier (k * k * input.c))
  let bias ← declareWeight (name ++ ".bias") ⟨[depth]⟩ (.broadcast defaultBias)
  declareOutput name ⟨[input.n, height, width, depth]⟩ fun dest =>
    .convolution ⟨dest, src, filter, bias, win⟩

/-- The coordinates that a pooling saves, if it saves any. -/
def savedCoordinates (name : String) (kind : PoolKind) (shape : Shape) :
    Construct α (Option ValueId) :=
  match kind with
  | .max => do
      let coords ← declareActivation (name ++ ".xy") .index shape
      return some coords
  | .avg => return none

/-- A pooling. -/
def pool (name : String) (kind : PoolKind) (src : ValueId) (win : Window)
    (input : NHWC) (height width : Nat) : Construct α ValueId := do
  let dest ← declareActivation name .float ⟨[input.n, height, width, input.c]⟩
  let coords ← savedCoordinates name kind ⟨[input.n, height, width, input.c, 2]⟩
  append (.pool ⟨kind, dest, src, coords, win⟩)
  return dest

/-- An affine map of rows. -/
def fullyConnected (name : String) (src : ValueId) (depth batch inputs : Nat) :
    Construct α ValueId := do
  let filter ← declareWeight (name ++ ".filter") ⟨[depth, inputs]⟩ (.xavier inputs)
  let bias ← declareWeight (name ++ ".bias") ⟨[depth]⟩ (.broadcast defaultBias)
  declareOutput name ⟨[batch, depth]⟩ fun dest => .fullyConnected ⟨dest, src, filter, bias⟩

/-- A softmax with its loss. -/
def softmax (name : String) (src selected : ValueId) (shape : Shape) :
    Construct α ValueId := do
  let dest ← declareActivation name .float shape
  let saved ← declareActivation (name ++ ".e") .float shape
  append (.softmax ⟨dest, src, saved, selected⟩)
  return dest

/-- A normalization by running statistics, which start at mean zero and
variance one. -/
def batchNorm (name : String) (src : ValueId) (axis : Nat) (epsilon momentum : α)
    (shape channels : Shape) : Construct α ValueId := do
  let scale ← declareWeight (name ++ ".scale") channels (.broadcast 1)
  let bias ← declareWeight (name ++ ".bias") channels .zero
  let mean ← declareConstant (name ++ ".mean") channels .zero
  let var ← declareConstant (name ++ ".var") channels (.broadcast 1)
  declareOutput name shape fun dest =>
    .batchNorm ⟨dest, src, scale, bias, mean, var, axis, epsilon, momentum⟩

/-- A normalization by neighbouring channels. -/
def localResponse (name : String) (src : ValueId) (halfWindow : Nat) (alpha beta k : α)
    (shape : Shape) : Construct α ValueId := do
  let dest ← declareActivation name .float shape
  let scale ← declareActivation (name ++ ".scale") .float shape
  append (.localResponse ⟨dest, src, scale, halfWindow, alpha, beta, k⟩)
  return dest

/-- Append a layer, or report why it does not fit the values declared so far.  The
name it answers is the layer's output. -/
def attach (name : String) : Layer α → Attempt α ValueId
  | .input kind shape => commit <| declareInput name kind shape
  | .weight shape init => commit <| declareWeight name shape init
  | .copy src => do
      let shape ← check (·.shapeOf src)
      commit <| declareOutput name shape fun dest => .copy ⟨dest, src⟩
  | .activation f src => do
      let shape ← check (·.shapeOf src)
      commit <| declareOutput name shape fun dest => .activation f ⟨dest, src⟩
  | .convolution src depth win => do
      let input ← check (·.images src)
      let (height, width) ← check fun _ => win.outputDims input
      commit <| convolution name src depth win input height width
  | .pool kind src win => do
      let input ← check (·.images src)
      let (height, width) ← check fun _ => win.outputDims input
      commit <| pool name kind src win input height width
  | .fullyConnected src depth => do
      let shape ← check (·.shapeOf src)
      let (batch, inputs) ← check fun _ => flattenRows shape.dims
      commit <| fullyConnected name src depth batch inputs
  | .softmax src selected => do
      let shape ← check (·.shapeOf src)
      commit <| softmax name src selected shape
  | .regression src expected => do
      let shape ← check (·.shapeOf src)
      commit <| declareOutput name shape fun dest => .regression ⟨dest, src, expected⟩
  | .transpose src shuffle => do
      let shape ← check (·.shapeOf src)
      let shuffled ← check fun _ => shape.permute shuffle
      commit <| declareOutput name shuffled fun dest => .transpose ⟨dest, src, shuffle⟩
  | .reshape src shape => do
      let given ← check (·.shapeOf src)
      check fun _ => requireSameSize "reshape element count" given shape
      commit <| declareOutput name shape fun dest => .reshape ⟨dest, src⟩
  | .concat [] _ => throw .emptyConcat
  | .concat (first :: rest) dim => do
      let shape ← check (·.shapeOf first)
      let start ← check fun _ => shape.dim dim
      let extent ← check fun p => rest.foldlM (fun extent id => do
        return extent + (← (← p.shapeOf id).dim dim)) start
      commit <| declareOutput name ⟨shape.dims.set dim extent⟩ fun dest =>
        .concat ⟨dest, first :: rest, dim⟩
  | .batchNorm src axis epsilon momentum => do
      let shape ← check (·.shapeOf src)
      let count ← check fun _ => shape.dim axis
      commit <| batchNorm name src axis epsilon momentum shape ⟨[count]⟩
  | .localResponse src halfWindow alpha beta k => do
      let input ← check (·.images src)
      commit <| localResponse name src halfWindow alpha beta k input.toShape
  | .arithmetic kind lhs rhs => do
      let shape ← check (·.shapeOf lhs)
      let other ← check (·.shapeOf rhs)
      check fun _ => requireSameShape "arithmetic operands" shape other
      commit <| declareOutput name shape fun dest => .arithmetic ⟨kind, dest, lhs, rhs⟩

/-- The answer and the builder after a layer is appended, or the reason why it is
not. -/
def add (b : Builder α) (name : String) (layer : Layer α) :
    Except Error (ValueId × Builder α) :=
  match attach name layer b with
  | .ok id b' => .ok (id, b')
  | .error e _ => .error e

end Layers

/-! ### Finishing -/

/-- The declared shape of a value. -/
def shapeOf (b : Builder α) (id : ValueId) : Except Error Shape := b.program.shapeOf id

/-- End the life of every activation alive, the latest first. -/
def deallocateActive (b : Builder α) : Builder α where
  program := { b.program with
    instructions := b.program.instructions ++ b.live.reverse.map .dealloc }
  live := []

/-- The finished program, if it passes the static check. -/
def build (b : Builder α) : Except Error (Program α) := do
  b.program.verify
  return b.program

/-! ### Construction as data -/

/-- A call that changes a builder. -/
inductive Step (α : Type) where
  /-- Append a layer. -/
  | layer (name : String) (layer : Layer α)
  /-- End the life of every activation alive. -/
  | deallocateActive

/-- The builder that a call leaves, successful or failing. -/
def step [Scalar α] (b : Builder α) : Step α → Builder α
  | .layer name layer =>
      match attach name layer b with
      | .ok _ b' => b'
      | .error _ b' => b'
  | .deallocateActive => b.deallocateActive

end Builder

end TensorProgram
