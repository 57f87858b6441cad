/-
TensorProgram/Proofs/Program/Completeness.lean

What a builder finishes passes the static check.  The builder sizes the output of
a layer, the check sizes it again, and the two agree for every layer, whatever
its window, shuffle, depth or extents are.  What the builder leaves to its caller
is small: arguments hold scalars, labels of a softmax are indices of the right
shape, blocks agree outside the axis they are laid along, and a normalization by
neighbours has a channel (`Layer.Suits`).

Along the calls the builder keeps `Builder.Met`: all instructions so far have
their demands met and all live values are activations.  Together with
`Builder.Assembled` this is what the check asks for.
-/
import TensorProgram.Proofs.Program.Demands
import TensorProgram.Scalar.Binary32

namespace TensorProgram

variable {α : Type}

open Signature (Floats Indices)

/-! ### Suitable arguments -/

namespace Program

/-- A value holds scalars. -/
def HoldsScalars (p : Program α) (id : ValueId) : Prop := ∃ s, Floats p.signature id s

/-- Two values have equally many axes, and equal extents along all but one. -/
def AgreeExcept (p : Program α) (axis : Nat) (a b : ValueId) : Prop :=
  ∀ s t, p.shapeOf a = .ok s → p.shapeOf b = .ok t →
    s.dims.length = t.dims.length ∧ ∀ k, k ≠ axis → s.dims[k]? = t.dims[k]?

theorem floats_of_holdsScalars {p : Program α} {id : ValueId} {s : Shape} (h : p.HoldsScalars id)
    (hs : p.shapeOf id = .ok s) : Floats p.signature id s := by
  obtain ⟨t, ht⟩ := h
  obtain rfl := Except.ok.inj (hs.symm.trans (shapeOf_eq_ok ht))
  exact ht

theorem signature_of_prefix {p q : Program α} {id : ValueId} {d : Declaration}
    (h : p.values <+: q.values) (hid : p.signature id = some d) : q.signature id = some d := by
  obtain ⟨vs, hvs⟩ := h
  obtain ⟨v, hv, hd⟩ := Option.map_eq_some_iff.mp hid
  rw [signature, ← hvs, List.getElem?_append_left (List.getElem?_eq_some_iff.mp hv).1, hv,
    Option.map_some, hd]

end Program

/-- What the static check asks of the arguments of a layer and building it does
not. -/
def Layer.Suits (p : Program α) : Layer α → Prop
  | .input .. | .weight .. => True
  | .copy src | .activation _ src | .convolution src .. | .pool _ src _ | .fullyConnected src _
  | .transpose src _ | .reshape src _ | .batchNorm src .. => p.HoldsScalars src
  | .softmax src selected => ∃ rows columns,
      Floats p.signature src ⟨[rows, columns]⟩ ∧ Indices p.signature selected ⟨[rows, 1]⟩
  | .regression src expected => ∃ rows columns,
      Floats p.signature src ⟨[rows, columns]⟩ ∧ Floats p.signature expected ⟨[rows, columns]⟩
  | .concat srcs dim => (∀ id ∈ srcs, p.HoldsScalars id) ∧
      ∀ a ∈ srcs, ∀ b ∈ srcs, p.AgreeExcept dim a b
  | .localResponse src .. => p.HoldsScalars src ∧ ∀ d, p.images src = .ok d → 1 ≤ d.c
  | .arithmetic _ lhs rhs => p.HoldsScalars lhs ∧ p.HoldsScalars rhs

namespace Builder

/-! ### Demands along a construction -/

/-- All instructions so far have their demands met, and live values are
activations. -/
structure Met (b : Builder α) : Prop where
  /-- Demands of instructions. -/
  demands : ∀ i ∈ b.program.instructions, b.program.verifyInstruction i = .ok ()
  /-- Live values. -/
  live : ∀ id ∈ b.live, b.program.requireActivation id = .ok ()

variable {b b' : Builder α} {name : String} {id : ValueId} {i : Instruction α}

/-- Declaring a value disturbs nothing. -/
theorem Met.declare (h : b.Met) (name : String) (kind : ElemKind) (shape : Shape) (role : Role)
    (trainable : Bool) (init : WeightInit α) :
    Met ((Builder.declare name kind shape role trainable init).run b).2 where
  demands j hj := Program.persists_verifyInstruction (List.prefix_append ..) j () (h.demands j hj)
  live j hj := Program.persists_requireActivation (List.prefix_append ..) j () (h.live j hj)

/-- A value is declared under the next free name. -/
theorem getElem?_declare (name : String) (kind : ElemKind) (shape : Shape) (role : Role)
    (trainable : Bool) (init : WeightInit α) :
    ((Builder.declare name kind shape role trainable init).run b).2.program.values[
      b.program.values.length]? =
      some ⟨b.program.values.length, name, kind, shape, role, trainable, init⟩ :=
  List.getElem?_concat_length

theorem signature_declare (name : String) (kind : ElemKind) (shape : Shape) (role : Role)
    (trainable : Bool) (init : WeightInit α) :
    ((Builder.declare name kind shape role trainable init).run b).2.program.signature
      b.program.values.length = some ⟨kind, shape⟩ := by
  rw [Program.signature, getElem?_declare]
  rfl

/-- An instruction is appended with its demands met. -/
theorem Met.append (h : b.Met) (hi : b.program.verifyInstruction i = .ok ()) :
    Met ((Builder.append i).run b).2 where
  demands j hj := by
    refine Program.persists_verifyInstruction List.prefix_rfl j () ?_
    rcases List.mem_append.mp hj with hj | hj
    · exact h.demands j hj
    · obtain rfl := List.mem_singleton.mp hj
      exact hi
  live j hj := Program.persists_requireActivation List.prefix_rfl j () (h.live j hj)

theorem Met.enliven (h : b.Met) (hid : b.program.requireActivation id = .ok ()) :
    Met ((Builder.enliven id).run b).2 where
  demands := h.demands
  live j hj := by
    rcases List.mem_append.mp hj with hj | hj
    · exact h.live j hj
    · obtain rfl := List.mem_singleton.mp hj
      exact hid

/-- An activation is declared, allocated and alive. -/
theorem Met.declareActivation (h : b.Met) (name : String) (kind : ElemKind) (shape : Shape) :
    Met ((Builder.declareActivation name kind shape).run b).2 := by
  have hdeclared := h.declare name kind shape .activation false .zero
  have hactivation : Program.requireActivation
      ((Builder.declare name kind shape .activation false .zero).run b).2.program
      b.program.values.length = .ok () := by
    rw [Program.requireActivation, Program.value, getElem?_declare]
    rfl
  exact (hdeclared.append (i := .alloc _) hactivation).enliven
    (Program.persists_requireActivation List.prefix_rfl _ () hactivation)

/-- One activation is declared and written. -/
theorem Met.declareOutput (h : b.Met) {shape : Shape} {i : ValueId → Instruction α}
    (hi : ∀ q : Program α, b.program.values <+: q.values →
      Floats q.signature b.program.values.length shape →
      q.verifyInstruction (i b.program.values.length) = .ok ()) :
    Met ((Builder.declareOutput name shape i).run b).2 := by
  have hactivation := h.declareActivation name .float shape
  refine hactivation.append (hi _ (List.prefix_append ..) ?_)
  exact signature_declare name .float shape .activation false .zero

/-- Two activations are declared and written. -/
theorem Met.declareBoth (h : b.Met) {first second : String} {k : ElemKind} {s t : Shape}
    {i : ValueId → ValueId → Instruction α}
    (hi : ∀ (q : Program α) (m : ValueId), b.program.values <+: q.values →
      Floats q.signature b.program.values.length s → q.signature m = some ⟨k, t⟩ →
      q.verifyInstruction (i b.program.values.length m) = .ok ()) :
    Met ((do
      let dest ← Builder.declareActivation first .float s
      let saved ← Builder.declareActivation second k t
      Builder.append (i dest saved)
      return dest : Construct α ValueId).run b).2 := by
  have hfirst := h.declareActivation first .float s
  have hsecond := hfirst.declareActivation second k t
  refine hsecond.append (hi _ _ ?_ ?_ ?_)
  · exact (List.prefix_append ..).trans (List.prefix_append ..)
  · exact Program.signature_of_prefix (List.prefix_append ..)
      (signature_declare first .float s .activation false .zero)
  · exact signature_declare second k t .activation false .zero

/-- Giving up what is alive. -/
theorem Met.deallocateActive (h : b.Met) : b.deallocateActive.Met where
  demands j hj := by
    refine Program.persists_verifyInstruction List.prefix_rfl j () ?_
    rcases List.mem_append.mp hj with hj | hj
    · exact h.demands j hj
    · obtain ⟨id, hid, rfl⟩ := List.mem_map.mp hj
      exact h.live id (List.mem_reverse.mp hid)
  live j hj := nomatch hj

/-! ### Layers -/

/-- A convolution. -/
theorem Met.convolution [Scalar α] (h : b.Met) {src : ValueId} {input : NHWC}
    {height width : Nat} {win : Window} (depth : Nat)
    (hsrc : Floats b.program.signature src input.toShape)
    (hdims : win.outputDims input = .ok (height, width)) :
    Met ((Builder.convolution name src depth win input height width).run b).2 := by
  have hfilter := h.declare (name ++ ".filter") .float
    ⟨[depth, win.kernel, win.kernel, input.c]⟩ .weight true
    (.xavier (win.kernel * win.kernel * input.c))
  have hbias := hfilter.declare (name ++ ".bias") .float ⟨[depth]⟩ .weight true
    (.broadcast defaultBias)
  refine hbias.declareOutput (i := fun dest => .convolution ⟨dest, src, _, _, win⟩)
    fun q hq hdest => ?_
  refine Program.verifyConvolution_eq_ok hdest ?_ ?_ ?_ hdims
  · exact Program.signature_of_prefix ((List.prefix_append ..).trans
      ((List.prefix_append ..).trans hq)) hsrc
  · exact Program.signature_of_prefix ((List.prefix_append ..).trans hq)
      (signature_declare (name ++ ".filter") .float _ .weight true _)
  · exact Program.signature_of_prefix hq
      (signature_declare (name ++ ".bias") .float _ .weight true _)

/-- An affine map of rows. -/
theorem Met.fullyConnected [Scalar α] (h : b.Met) {src : ValueId} {s : Shape}
    {batch inputs : Nat} (depth : Nat) (hsrc : Floats b.program.signature src s)
    (hrows : flattenRows s.dims = .ok (batch, inputs)) :
    Met ((Builder.fullyConnected name src depth batch inputs).run b).2 := by
  have hfilter := h.declare (name ++ ".filter") .float ⟨[depth, inputs]⟩ .weight true
    (.xavier inputs)
  have hbias := hfilter.declare (name ++ ".bias") .float ⟨[depth]⟩ .weight true
    (.broadcast defaultBias)
  refine hbias.declareOutput (i := fun dest => .fullyConnected ⟨dest, src, _, _⟩)
    fun q hq hdest => ?_
  refine Program.verifyFullyConnected_eq_ok hdest (s := s) ?_ ?_ ?_ hrows
  · exact Program.signature_of_prefix ((List.prefix_append ..).trans
      ((List.prefix_append ..).trans hq)) hsrc
  · exact Program.signature_of_prefix ((List.prefix_append ..).trans hq)
      (signature_declare (name ++ ".filter") .float _ .weight true _)
  · exact Program.signature_of_prefix hq
      (signature_declare (name ++ ".bias") .float _ .weight true _)

/-- A normalization by running statistics. -/
theorem Met.batchNorm [Scalar α] (h : b.Met) {src : ValueId} {s : Shape} {axis count : Nat}
    (epsilon momentum : α) (hsrc : Floats b.program.signature src s)
    (haxis : s.dim axis = .ok count) :
    Met ((Builder.batchNorm name src axis epsilon momentum s ⟨[count]⟩).run b).2 := by
  have hscale := h.declare (name ++ ".scale") .float ⟨[count]⟩ .weight true (.broadcast 1)
  have hbias := hscale.declare (name ++ ".bias") .float ⟨[count]⟩ .weight true .zero
  have hmean := hbias.declare (name ++ ".mean") .float ⟨[count]⟩ .weight false .zero
  have hvar := hmean.declare (name ++ ".var") .float ⟨[count]⟩ .weight false (.broadcast 1)
  refine hvar.declareOutput
    (i := fun dest => .batchNorm ⟨dest, src, _, _, _, _, axis, epsilon, momentum⟩)
    fun q hq hdest => ?_
  -- what is declared on the way stays declared in every later program
  have hafterMean := (List.prefix_append ..).trans hq
  have hafterBias := (List.prefix_append ..).trans hafterMean
  have hafterScale := (List.prefix_append ..).trans hafterBias
  refine Program.verifyBatchNorm_eq_ok (s := s) hdest ?_ ?_ ?_ ?_ ?_ haxis
  · exact Program.signature_of_prefix ((List.prefix_append ..).trans hafterScale) hsrc
  · exact Program.signature_of_prefix hafterScale
      (signature_declare (name ++ ".scale") .float _ .weight true _)
  · exact Program.signature_of_prefix hafterBias
      (signature_declare (name ++ ".bias") .float _ .weight true _)
  · exact Program.signature_of_prefix hafterMean
      (signature_declare (name ++ ".mean") .float _ .weight false _)
  · exact Program.signature_of_prefix hq
      (signature_declare (name ++ ".var") .float _ .weight false _)

/-- A pooling. -/
theorem Met.pool (h : b.Met) {kind : PoolKind} {src : ValueId} {input : NHWC}
    {height width : Nat} {win : Window} (hsrc : Floats b.program.signature src input.toShape)
    (hdims : win.outputDims input = .ok (height, width)) :
    Met ((Builder.pool name kind src win input height width).run b).2 := by
  cases kind with
  | max =>
      exact h.declareBoth (i := fun dest coords => .pool ⟨.max, dest, src, some coords, win⟩)
        fun q m hq hdest hcoords => Program.verifyPool_eq_ok hdest
          (Program.signature_of_prefix hq hsrc) (fun _ => ⟨m, rfl, hcoords⟩) hdims
  | avg =>
      exact h.declareOutput (i := fun dest => .pool ⟨.avg, dest, src, none, win⟩)
        fun q hq hdest => Program.verifyPool_eq_ok hdest (Program.signature_of_prefix hq hsrc)
          (fun hmax => nomatch hmax) hdims

/-- Blocks side by side. -/
theorem Met.concat (h : b.Met) {first : ValueId} {rest : List ValueId} {dim : Nat} {s : Shape}
    {start extent : Nat} (hscalars : ∀ id ∈ first :: rest, b.program.HoldsScalars id)
    (hagree : ∀ a ∈ first :: rest, ∀ c ∈ first :: rest, b.program.AgreeExcept dim a c)
    (hs : b.program.shapeOf first = .ok s) (hstart : s.dim dim = .ok start)
    (hextent : rest.foldlM (fun extent id => do
      return extent + (← (← b.program.shapeOf id).dim dim)) start = .ok extent) :
    Met ((Builder.declareOutput name ⟨s.dims.set dim extent⟩ fun dest =>
      .concat ⟨dest, first :: rest, dim⟩).run b).2 := by
  refine h.declareOutput fun q hq hdest => ?_
  have hblocks : ∀ id ∈ first :: rest, ∃ t, b.program.shapeOf id = .ok t ∧
      q.shapeOf id = .ok t ∧ t.agreesExcept ⟨s.dims.set dim extent⟩ dim = true := by
    intro id hid
    obtain ⟨t, ht⟩ := hscalars id hid
    have ht := Program.shapeOf_eq_ok ht
    obtain ⟨hrank, hdims⟩ := hagree id hid first (by simp) t s ht hs
    exact ⟨t, ht, Program.persists_shapeOf hq id t ht, Shape.agreesExcept_set hrank hdims⟩
  have hlt : dim < s.dims.length := (List.getElem?_eq_some_iff.mp (getElem?_of_dim hstart)).1
  have hfloats : q.requireFloats (first :: rest) = .ok () := by
    refine Except.forM_of_eq_ok fun id hid => ?_
    obtain ⟨t, ht⟩ := hscalars id hid
    exact Program.requireKind_eq_ok (Program.signature_of_prefix hq ht)
  -- the builder counts from the extent of the first operand, the check from zero
  have hall : (first :: rest).foldlM (fun extent id => do
      return extent + (← (← b.program.shapeOf id).dim dim)) 0 = .ok extent := by
    rw [List.foldlM_cons, hs, Except.ok_bind, hstart, Except.ok_bind, Nat.zero_add, pure_bind]
    exact hextent
  refine Program.verifyConcat_eq_ok hdest hfloats ?_ rfl (Program.covering_eq_ok hblocks hall)
  rw [Shape.dim, List.getElem?_set_self hlt]

variable [Scalar α]

/-- **A layer over suitable arguments has its demands met.** -/
theorem Met.add (h : b.Met) {l : Layer α} (hsuits : l.Suits b.program)
    (hadd : attach name l b = .ok id b') : b'.Met := by
  -- layer by layer: what its checks have found is what the verifier will demand
  cases l with
  | input kind shape =>
      obtain rfl := commit_eq_ok hadd
      exact h.declare name kind shape .weight false .zero
  | weight shape init =>
      obtain rfl := commit_eq_ok hadd
      exact h.declare name .float shape .weight true init
  | copy src =>
      obtain ⟨s, hs, hadd⟩ := check_eq_ok hadd
      obtain rfl := commit_eq_ok hadd
      have hsrc := Program.floats_of_holdsScalars hsuits hs
      exact h.declareOutput fun q hq hdest =>
        Program.requireSameFloats_eq_ok hdest (Program.signature_of_prefix hq hsrc) _
  | activation f src =>
      obtain ⟨s, hs, hadd⟩ := check_eq_ok hadd
      obtain rfl := commit_eq_ok hadd
      have hsrc := Program.floats_of_holdsScalars hsuits hs
      exact h.declareOutput fun q hq hdest =>
        Program.requireSameFloats_eq_ok hdest (Program.signature_of_prefix hq hsrc) _
  | convolution src depth win =>
      obtain ⟨input, hinput, hadd⟩ := check_eq_ok hadd
      obtain ⟨⟨height, width⟩, hdims, hadd⟩ := check_eq_ok hadd
      obtain rfl := commit_eq_ok hadd
      have hsrc := Program.floats_of_holdsScalars hsuits (Program.shapeOf_of_images hinput)
      exact h.convolution depth hsrc hdims
  | pool kind src win =>
      obtain ⟨input, hinput, hadd⟩ := check_eq_ok hadd
      obtain ⟨⟨height, width⟩, hdims, hadd⟩ := check_eq_ok hadd
      obtain rfl := commit_eq_ok hadd
      have hsrc := Program.floats_of_holdsScalars hsuits (Program.shapeOf_of_images hinput)
      exact h.pool hsrc hdims
  | fullyConnected src depth =>
      obtain ⟨s, hs, hadd⟩ := check_eq_ok hadd
      obtain ⟨⟨batch, inputs⟩, hrows, hadd⟩ := check_eq_ok hadd
      obtain rfl := commit_eq_ok hadd
      exact h.fullyConnected depth (Program.floats_of_holdsScalars hsuits hs) hrows
  | softmax src selected =>
      obtain ⟨s, hs, hadd⟩ := check_eq_ok hadd
      obtain rfl := commit_eq_ok hadd
      obtain ⟨rows, columns, hsrc, hselected⟩ := hsuits
      obtain rfl := Except.ok.inj (hs.symm.trans (Program.shapeOf_eq_ok hsrc))
      exact h.declareBoth (i := fun dest saved => .softmax ⟨dest, src, saved, selected⟩)
        fun q m hq hdest hsaved => Program.verifySoftmax_eq_ok hdest
          (Program.signature_of_prefix hq hsrc) hsaved (Program.signature_of_prefix hq hselected)
  | regression src expected =>
      obtain ⟨s, hs, hadd⟩ := check_eq_ok hadd
      obtain rfl := commit_eq_ok hadd
      obtain ⟨rows, columns, hsrc, hexpected⟩ := hsuits
      obtain rfl := Except.ok.inj (hs.symm.trans (Program.shapeOf_eq_ok hsrc))
      exact h.declareOutput fun q hq hdest => Program.verifyRegression_eq_ok hdest
        (Program.signature_of_prefix hq hsrc) (Program.signature_of_prefix hq hexpected)
  | transpose src shuffle =>
      obtain ⟨s, hs, hadd⟩ := check_eq_ok hadd
      obtain ⟨t, hpermute, hadd⟩ := check_eq_ok hadd
      obtain rfl := commit_eq_ok hadd
      have hsrc := Program.floats_of_holdsScalars hsuits hs
      exact h.declareOutput fun q hq hdest => Program.verifyTranspose_eq_ok hdest
        (Program.signature_of_prefix hq hsrc) hpermute
  | reshape src shape =>
      obtain ⟨s, hs, hadd⟩ := check_eq_ok hadd
      obtain ⟨_, hsize, hadd⟩ := check_eq_ok hadd
      obtain rfl := commit_eq_ok hadd
      have hsrc := Program.floats_of_holdsScalars hsuits hs
      exact h.declareOutput fun q hq hdest => Program.verifyReshape_eq_ok hdest
        (Program.signature_of_prefix hq hsrc) hsize
  | concat srcs dim =>
      cases srcs with
      | nil => cases hadd
      | cons first rest =>
          obtain ⟨s, hs, hadd⟩ := check_eq_ok hadd
          obtain ⟨start, hstart, hadd⟩ := check_eq_ok hadd
          obtain ⟨extent, hextent, hadd⟩ := check_eq_ok hadd
          obtain rfl := commit_eq_ok hadd
          exact h.concat hsuits.1 hsuits.2 hs hstart hextent
  | batchNorm src axis epsilon momentum =>
      obtain ⟨s, hs, hadd⟩ := check_eq_ok hadd
      obtain ⟨count, hcount, hadd⟩ := check_eq_ok hadd
      obtain rfl := commit_eq_ok hadd
      exact h.batchNorm epsilon momentum (Program.floats_of_holdsScalars hsuits hs) hcount
  | localResponse src halfWindow alpha beta k =>
      obtain ⟨input, hinput, hadd⟩ := check_eq_ok hadd
      obtain rfl := commit_eq_ok hadd
      have hsrc := Program.floats_of_holdsScalars hsuits.1 (Program.shapeOf_of_images hinput)
      have hpos : input.c ≠ 0 := Nat.one_le_iff_ne_zero.mp (hsuits.2 input hinput)
      exact h.declareBoth
        (i := fun dest scale => .localResponse ⟨dest, src, scale, halfWindow, alpha, beta, k⟩)
        fun q m hq hdest hscale => Program.verifyLocalResponse_eq_ok hdest
          (Program.signature_of_prefix hq hsrc) hscale hpos
  | arithmetic kind lhs rhs =>
      obtain ⟨s, hs, hadd⟩ := check_eq_ok hadd
      obtain ⟨t, ht, hadd⟩ := check_eq_ok hadd
      obtain ⟨_, hsame, hadd⟩ := check_eq_ok hadd
      obtain rfl := commit_eq_ok hadd
      obtain rfl := eq_of_requireSameShape hsame
      have hlhs := Program.floats_of_holdsScalars hsuits.1 hs
      have hrhs := Program.floats_of_holdsScalars hsuits.2 ht
      exact h.declareOutput fun q hq hdest => Program.verifyArithmetic_eq_ok hdest
        (Program.signature_of_prefix hq hlhs) (Program.signature_of_prefix hq hrhs)

/-! ### Sequences of calls -/

/-- The arguments of a call are declared, and if it succeeds in appending a layer
they suit the layer. -/
def Step.Suits (b : Builder α) : Step α → Prop
  | .layer name l => Step.Scoped b (.layer name l) ∧ ((b.add name l).isOk → l.Suits b.program)
  | .deallocateActive => True

/-- The builder after these calls, successful or failing. -/
def stepAll (b : Builder α) (ts : List (Step α)) : Builder α := ts.foldl step b

/-- Every one of these calls has suitable arguments where it is made. -/
def AllSuit (b : Builder α) : List (Step α) → Prop
  | [] => True
  | t :: ts => t.Suits b ∧ AllSuit (b.step t) ts

/-- What holds along calls with suitable arguments. -/
structure Passing (b : Builder α) : Prop where
  /-- The builder is assembled. -/
  assembled : b.Assembled
  /-- Demands are met. -/
  met : b.Met

omit [Scalar α] in
theorem Passing.grown (h : b.Passing) : b.Grown := h.assembled.grown

omit [Scalar α] in
theorem passing_empty : Passing ({} : Builder α) :=
  ⟨.empty, ⟨nofun, nofun⟩⟩

theorem Passing.step (h : b.Passing) {t : Step α} (ht : t.Suits b) : (b.step t).Passing := by
  cases t with
  | layer name l =>
      obtain ⟨hscoped, hsuits⟩ := ht
      rw [Builder.step]
      rcases hadd : attach name l b with ⟨id, b'⟩ | ⟨e, b'⟩
      · have hlayer := hsuits (by rw [add, hadd]; rfl)
        exact ⟨h.assembled.add hscoped hadd, h.met.add hlayer hadd⟩
      · obtain rfl := atomic_attach name l hadd
        exact h
  | deallocateActive => exact ⟨.released h.assembled, h.met.deallocateActive⟩

theorem Passing.stepAll (h : b.Passing) {ts : List (Step α)} (hts : b.AllSuit ts) :
    (b.stepAll ts).Passing := by
  induction ts generalizing b with
  | nil => exact h
  | cons t ts ih => exact ih (h.step hts.1) hts.2

/-- **Builders are complete.**  After any calls with suitable arguments, failing
ones included, the program can be finished. -/
theorem build_complete (ts : List (Step α)) (h : AllSuit {} ts) :
    (stepAll {} ts).build = .ok (stepAll {} ts).program := by
  have hpassing := passing_empty.stepAll h
  rw [build, hpassing.grown.verify_eq_ok hpassing.met.demands]
  rfl

/-- A classifier of an empty batch of images.  The pooling does not fit and
leaves nothing behind. -/
def emptyBatch : List (Step Float32) :=
  [.layer "x" (.input .float ⟨[0, 4, 4, 2]⟩), .layer "y" (.input .index ⟨[0, 1]⟩),
    .layer "conv" (.convolution 0 3 ⟨3, 1, 1⟩), .layer "pool" (.pool .max 4 ⟨9, 1, 0⟩),
    .layer "rows" (.fullyConnected 4 5), .layer "loss" (.softmax 7 1), .deallocateActive]

theorem build_complete_emptyBatch : AllSuit {} emptyBatch ∧
    (stepAll {} emptyBatch).build = .ok (stepAll {} emptyBatch).program := by
  have hsuit : AllSuit {} emptyBatch := by
    refine ⟨⟨by decide, fun _ => trivial⟩, ⟨by decide, fun _ => trivial⟩,
      ⟨by decide, fun _ => ⟨_, rfl⟩⟩, ⟨by decide, fun _ => ⟨_, rfl⟩⟩,
      ⟨by decide, fun _ => ⟨_, rfl⟩⟩, ⟨by decide, fun _ => ⟨0, 5, rfl, rfl⟩⟩, trivial, trivial⟩
  exact ⟨hsuit, build_complete emptyBatch hsuit⟩

end Builder

end TensorProgram
