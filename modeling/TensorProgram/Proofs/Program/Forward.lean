/-
TensorProgram/Proofs/Program/Forward.lean

Running a well typed instruction forward.  On a context that binds its operands
as declared it either computes or stops, and which of the two is settled by the
declarations (`Instruction.Typed.computes_or_stops`).  It stops for one of three
reasons (`Instruction.Stops`).  When it computes, what it binds depends on
nothing but the values it consults, and every output is bound anew
(`Instruction.Computes`).

The one demand on coinciding operands is `Instruction.Separate`: a value that
the instruction writes occurs once among its operands.
-/
import TensorProgram.Proofs.Kernel.BatchNorm
import TensorProgram.Proofs.Kernel.Footprint
import TensorProgram.Proofs.Kernel.LocalResponse
import TensorProgram.Proofs.Kernel.Loss
import TensorProgram.Proofs.Program.Typing

namespace TensorProgram

variable {α : Type}

/-- Bind a list of weights in order. -/
def Context.setWeights (c : Context α) (ws : List (ValueId × Tensor α)) : Context α :=
  ws.foldl (fun c w => c.setWeight w.1 w.2) c

namespace Instruction

/-- Every value that the instruction writes occurs once among its operands. -/
def Separate (i : Instruction α) : Prop := ∀ id ∈ i.written, (i.operands.map Prod.fst).count id = 1

instance (i : Instruction α) : Decidable i.Separate :=
  inferInstanceAs (Decidable (∀ id ∈ i.written, (i.operands.map Prod.fst).count id = 1))

/-- The values that running forward may read. -/
def consulted (i : Instruction α) : List ValueId :=
  (i.operands.filter fun o => o.2 ≠ .write).map Prod.fst

/-- The values that running forward overwrites altogether. -/
def outputs : Instruction α → List ValueId
  | copy i | reshape i | activation _ i => [i.dest]
  | convolution i => [i.dest]
  | pool i =>
      match i.kind with
      | .max => i.dest :: i.coords.toList
      | .avg => [i.dest]
  | fullyConnected i => [i.dest]
  | softmax i => [i.dest, i.saved]
  | regression i => [i.dest]
  | transpose i => [i.dest]
  | concat i => [i.dest]
  | batchNorm i => [i.dest]
  | localResponse i => [i.dest, i.scale]
  | arithmetic i => [i.dest]
  | alloc _ | dealloc _ => []

/-- What begins or ends a life overwrites nothing. -/
theorem works_of_mem_outputs {i : Instruction α} {id : ValueId} (h : id ∈ i.outputs) :
    i.isLifecycle = false := by
  cases i with
  | alloc dest => cases h
  | dealloc src => cases h
  | _ => rfl

/-- The context binds every operand, and what it binds fits the declarations. -/
structure Ready (Γ : Signature) (i : Instruction α) (c : Context α) : Prop where
  /-- The declarations. -/
  declared : ∀ id : ValueId, c.declared[id]? = Γ id
  /-- Bindings fit. -/
  typed : c.Typed
  /-- Operands are bound. -/
  bound : ∀ id ∈ i.operands.map Prod.fst, (c.weights[id]?).isSome

/-- The coordinates that a max pool saved lie inside its input. -/
def Saved (Γ : Signature) (c : Context α) : Instruction α → Prop
  | pool i => ∀ (d : ImageDims) (s t : Shape) (coords : ValueId), i.kind = .max →
      Γ.Floats i.src s → Γ.Floats i.dest t → Pool.Fits d s t → i.coords = some coords →
      ∃ saved : View Nat, c.weights[coords]? = some saved.indexTensor ∧
        saved.shape = Pool.pairs d.output ∧ i.SavedInside d saved
  | _ => True

/-- The errors that running a well typed instruction forward can end with. -/
inductive Stops (Γ : Signature) : Instruction α → Error → Prop
  /-- A window of a max pool holds no element. -/
  | emptyWindow {i : Pool} {d : ImageDims} {s t : Shape} {o : OutputSite} (kind : i.kind = .max)
      (src : Γ.Floats i.src s) (dest : Γ.Floats i.dest t) (fits : Pool.Fits d s t)
      (first : (i.window.sites d.output).find? (i.isEmptyWindow d) = some o) :
      Stops Γ (.pool i) (.emptyPoolingWindow o.anchor.x.toInt o.anchor.y.toInt)
  /-- The rows of a softmax are empty. -/
  | emptyRow {i : Softmax} {rows : Nat} (src : Γ.Floats i.src ⟨[rows, 0]⟩) :
      Stops Γ (.softmax i) .emptySoftmaxRow
  /-- The input of a normalization has no channel. -/
  | noChannel {i : BatchNorm α} {s : Shape} (src : Γ.Floats i.src s)
      (axis : s.dims[i.axis]? = some 0) : Stops Γ (.batchNorm i) .zeroBatchNormChannels

/-- Two contexts agree on what running forward may read. -/
def SameInputs (i : Instruction α) (c d : Context α) : Prop :=
  ∀ id ∈ i.consulted, d.weights[id]? = c.weights[id]?

variable [Scalar α]

/-- Running forward binds these weights, on every context that agrees with `c` on
what it may read. -/
structure Computes (Γ : Signature) (train : Bool) (i : Instruction α) (c : Context α)
    (outs : List (ValueId × Tensor α)) : Prop where
  /-- Every output is bound anew. -/
  outputs : ∀ id ∈ i.outputs, id ∈ outs.map Prod.fst
  /-- Running forward binds the weights. -/
  run : ∀ d, i.Ready Γ d → i.SameInputs c d → i.forward train d = .ok () (d.setWeights outs)
  /-- What a max pool saves lies inside its input. -/
  saved : ∀ d, i.Ready Γ d → i.Saved Γ (d.setWeights outs)

/-- Running forward ends with this error and changes no weight but the outputs. -/
def Halts (Γ : Signature) (train : Bool) (i : Instruction α) (e : Error) : Prop :=
  ∀ d, i.Ready Γ d → ∃ d', i.forward train d = .error (.error e) d' ∧
    ∀ id ∉ i.outputs, d'.weights[id]? = d.weights[id]?

/-- The instruction does not stop, and computes on every context that is ready
for it. -/
structure Goes (Γ : Signature) (train : Bool) (i : Instruction α) : Prop where
  /-- Nothing stops it. -/
  goes : ∀ e, ¬ i.Stops Γ e
  /-- It computes. -/
  computes : ∀ c, i.Ready Γ c → ∃ outs, i.Computes Γ train c outs

/-! ### Operands of a context that is ready -/

section Ready

variable {Γ : Signature} {i : Instruction α} {c d : Context α} {id : ValueId} {s : Shape}

omit [Scalar α] in
theorem Ready.buffer (h : i.Ready Γ c) (hid : id ∈ i.operands.map Prod.fst) (hs : Γ.Floats id s) :
    ∃ data : Vector α s.elemCount, c.weights[id]? = some ⟨s, .float data⟩ := by
  obtain ⟨t, ht⟩ := Option.isSome_iff_exists.mp (h.bound id hid)
  obtain ⟨data, rfl⟩ := Tensor.eq_float (h.typed.weight ((h.declared id).trans hs) ht)
  exact ⟨data, ht⟩

omit [Scalar α] in
theorem Ready.view (h : i.Ready Γ c) (hid : id ∈ i.operands.map Prod.fst) (hs : Γ.Floats id s) :
    ∃ v : View α, c.weights[id]? = some v.tensor ∧ v.shape = s := by
  obtain ⟨data, hdata⟩ := h.buffer hid hs
  exact ⟨⟨s, data⟩, hdata, rfl⟩

omit [Scalar α] in
theorem Ready.indices (h : i.Ready Γ c) (hid : id ∈ i.operands.map Prod.fst) (hs : Γ.Indices id s) :
    ∃ data : Vector Nat s.elemCount, c.weights[id]? = some ⟨s, .index data⟩ := by
  obtain ⟨t, ht⟩ := Option.isSome_iff_exists.mp (h.bound id hid)
  obtain ⟨data, rfl⟩ := Tensor.eq_index (h.typed.weight ((h.declared id).trans hs) ht)
  exact ⟨data, ht⟩

omit [Scalar α] in
theorem SameInputs.weight (h : i.SameInputs c d) (hid : id ∈ i.consulted) {t : Tensor α}
    (ht : c.weights[id]? = some t) : d.weights[id]? = some t := (h id hid).trans ht

end Ready

/-! ### Operands that differ -/

omit [Scalar α] in
/-- A value that is written differs from all operands before and after it. -/
theorem Separate.ne {i : Instruction α} (h : i.Separate) {a b : ValueId} {access : Access}
    {l r : List (ValueId × Access)} (hops : i.operands = l ++ (a, access) :: r)
    (haccess : access ≠ .read) (hb : b ∈ (l ++ r).map Prod.fst) : a ≠ b := by
  rintro rfl
  have hwritten : a ∈ i.written := by
    rw [written, hops]
    exact List.mem_map.mpr ⟨(a, access), List.mem_filter.mpr ⟨by simp, by simpa using haccess⟩, rfl⟩
  have hcount := h a hwritten
  have hpos : 0 < ((l ++ r).map Prod.fst).count a := List.count_pos_iff.mpr hb
  rw [hops] at hcount
  simp only [List.map_append, List.map_cons, List.count_append, List.count_cons_self] at hcount hpos
  omega

/-! ### Instructions with one output -/

section One

variable {Γ : Signature} {train : Bool} {i : Instruction α} {c : Context α} {dest : ValueId}

/-- An instruction with one output that is no max pool computes as soon as it
binds that output. -/
theorem computes_one (houtputs : i.outputs = [dest]) (hsaved : ∀ d, i.Saved Γ d)
    (hrun : ∃ t, ∀ d, i.Ready Γ d → i.SameInputs c d →
      i.forward train d = .ok () (d.setWeight dest t)) :
    ∃ outs, i.Computes Γ train c outs := by
  obtain ⟨t, ht⟩ := hrun
  refine ⟨[(dest, t)], fun id hid => ?_, ht, fun d _ => hsaved _⟩
  rw [houtputs] at hid
  simpa using hid

end One

section Rules

variable {Γ : Signature} {train : Bool} {c : Context α}

theorem computes_copy {i : Unary} {s : Shape} (hsep : (copy i : Instruction α).Separate)
    (hdest : Γ.Floats i.dest s) (hsrc : Γ.Floats i.src s) (hc : (copy i).Ready Γ c) :
    ∃ outs, (copy i).Computes Γ train c outs := by
  have hne : i.dest ≠ i.src := hsep.ne (l := []) rfl (by decide) (by simp)
  obtain ⟨v, hv, rfl⟩ := hc.view (by simp [operands]) hsrc
  refine computes_one rfl (fun _ => trivial) ?_
  apply Exists.intro
  intro d hd hreads
  obtain ⟨old, hold⟩ := hd.buffer (by simp [operands]) hdest
  have hv' : d.weights[i.src]? = some v.tensor := hreads.weight (by simp [consulted, operands]) hv
  exact (Run.bind_of_ok (i.requireAlike_ok _ hv' hold rfl)).trans (i.move_eq hv' hold hne rfl)

theorem computes_reshape {i : Unary} {s u : Shape} (hsep : (reshape i : Instruction α).Separate)
    (hdest : Γ.Floats i.dest u) (hsrc : Γ.Floats i.src s) (hsize : s.elemCount = u.elemCount)
    (hc : (reshape i).Ready Γ c) : ∃ outs, (reshape i).Computes Γ train c outs := by
  have hne : i.dest ≠ i.src := hsep.ne (l := []) rfl (by decide) (by simp)
  obtain ⟨v, hv, rfl⟩ := hc.view (by simp [operands]) hsrc
  refine computes_one rfl (fun _ => trivial) ?_
  apply Exists.intro
  intro d hd hreads
  obtain ⟨old, hold⟩ := hd.buffer (by simp [operands]) hdest
  have hv' : d.weights[i.src]? = some v.tensor := hreads.weight (by simp [consulted, operands]) hv
  exact (Run.bind_of_ok (i.requireEquinumerous_ok hv' hold hsize.symm)).trans
    (i.move_eq hv' hold hne hsize)

theorem computes_activation {f : Activation} {i : Unary} {s : Shape}
    (hsep : (activation f i : Instruction α).Separate) (hdest : Γ.Floats i.dest s)
    (hsrc : Γ.Floats i.src s) (hc : (activation f i).Ready Γ c) :
    ∃ outs, (activation f i).Computes Γ train c outs := by
  have hne : i.dest ≠ i.src := hsep.ne (l := []) rfl (by decide) (by simp)
  obtain ⟨v, hv, rfl⟩ := hc.view (by simp [operands]) hsrc
  refine computes_one rfl (fun _ => trivial) ?_
  apply Exists.intro
  intro d hd hreads
  obtain ⟨old, hold⟩ := hd.buffer (by simp [operands]) hdest
  exact f.forward_eq i (hreads.weight (by simp [consulted, operands]) hv) hold hne rfl

theorem computes_convolution {i : Convolution} {e : ImageDims} {s u v w : Shape}
    (hsep : (convolution i : Instruction α).Separate) (hdest : Γ.Floats i.dest u)
    (hsrc : Γ.Floats i.src s) (hfilter : Γ.Floats i.filter v) (hbias : Γ.Floats i.bias w)
    (hfits : Convolution.Fits i.window e s u v w) (hc : (convolution i).Ready Γ c) :
    ∃ outs, (convolution i).Computes Γ train c outs := by
  have hne : ∀ id ∈ [i.src, i.filter, i.bias], i.dest ≠ id :=
    fun id hid => hsep.ne (l := []) rfl (by decide) (by simpa using hid)
  obtain ⟨x, hx, rfl⟩ := hc.view (by simp [operands]) hsrc
  obtain ⟨f, hf, rfl⟩ := hc.view (by simp [operands]) hfilter
  obtain ⟨b, hb, rfl⟩ := hc.view (by simp [operands]) hbias
  refine computes_one rfl (fun _ => trivial) ?_
  apply Exists.intro
  intro d hd hreads
  obtain ⟨old, hold⟩ := hd.buffer (by simp [operands]) hdest
  exact i.forward_eq (hreads.weight (by simp [consulted, operands]) hx)
    (hreads.weight (by simp [consulted, operands]) hf)
    (hreads.weight (by simp [consulted, operands]) hb) hold (hne _ (by simp)) (hne _ (by simp))
    (hne _ (by simp)) hfits

theorem computes_avgPool {i : Pool} {e : ImageDims} {s u : Shape} (hkind : i.kind = .avg)
    (hsep : (pool i : Instruction α).Separate) (hdest : Γ.Floats i.dest u)
    (hsrc : Γ.Floats i.src s) (hfits : Pool.Fits e s u) (hc : (pool i).Ready Γ c) :
    ∃ outs, (pool i).Computes Γ train c outs := by
  have hne : i.dest ≠ i.src := hsep.ne (l := []) rfl (by decide) (by simp)
  obtain ⟨v, hv, rfl⟩ := hc.view (by simp [operands]) hsrc
  have houtputs : (pool i : Instruction α).outputs = [i.dest] := by simp only [outputs, hkind]
  have hsaved : ∀ d : Context α, (pool i).Saved Γ d := by
    intro d e s u coords hmax
    rw [hkind] at hmax
    cases hmax
  refine computes_one houtputs hsaved ?_
  apply Exists.intro
  intro d hd hreads
  obtain ⟨old, hold⟩ := hd.buffer (by simp [operands]) hdest
  rw [forward, Pool.forward, hkind]
  exact i.forwardAvg_eq (hreads.weight (by simp [consulted, operands]) hv) hold hne hfits

theorem computes_fullyConnected {i : FullyConnected} {e : FullyConnected.Dims} {s u v w : Shape}
    (hsep : (fullyConnected i : Instruction α).Separate) (hdest : Γ.Floats i.dest u)
    (hsrc : Γ.Floats i.src s) (hfilter : Γ.Floats i.filter v) (hbias : Γ.Floats i.bias w)
    (hfits : FullyConnected.Fits e s u v w) (hc : (fullyConnected i).Ready Γ c) :
    ∃ outs, (fullyConnected i).Computes Γ train c outs := by
  have hne : ∀ id ∈ [i.src, i.filter, i.bias], i.dest ≠ id :=
    fun id hid => hsep.ne (l := []) rfl (by decide) (by simpa using hid)
  obtain ⟨x, hx, rfl⟩ := hc.view (by simp [operands]) hsrc
  obtain ⟨f, hf, rfl⟩ := hc.view (by simp [operands]) hfilter
  obtain ⟨b, hb, rfl⟩ := hc.view (by simp [operands]) hbias
  refine computes_one rfl (fun _ => trivial) ?_
  apply Exists.intro
  intro d hd hreads
  obtain ⟨old, hold⟩ := hd.buffer (by simp [operands]) hdest
  exact i.forward_eq (hreads.weight (by simp [consulted, operands]) hx)
    (hreads.weight (by simp [consulted, operands]) hf)
    (hreads.weight (by simp [consulted, operands]) hb) hold (hne _ (by simp)) (hne _ (by simp))
    (hne _ (by simp)) hfits

theorem computes_regression {i : Regression} {rows columns : Nat}
    (hsep : (regression i : Instruction α).Separate) (hdest : Γ.Floats i.dest ⟨[rows, columns]⟩)
    (hsrc : Γ.Floats i.src ⟨[rows, columns]⟩) (hc : (regression i).Ready Γ c) :
    ∃ outs, (regression i).Computes Γ train c outs := by
  have hne : i.dest ≠ i.src := hsep.ne (l := []) rfl (by decide) (by simp)
  obtain ⟨v, hv, hvs⟩ := hc.view (by simp [operands]) hsrc
  refine computes_one rfl (fun _ => trivial) ?_
  apply Exists.intro
  intro d hd hreads
  obtain ⟨old, hold⟩ := hd.buffer (by simp [operands]) hdest
  exact i.forward_eq (hreads.weight (by simp [consulted, operands]) hv) hold hne hvs

theorem computes_transpose {i : Transpose} {s u : Shape}
    (hsep : (transpose i : Instruction α).Separate) (hdest : Γ.Floats i.dest u)
    (hsrc : Γ.Floats i.src s) (hshuffle : IsPermutation i.shuffle s.rank)
    (hdims : u.dims = permuted i.shuffle s.dims) (hc : (transpose i).Ready Γ c) :
    ∃ outs, (transpose i).Computes Γ train c outs := by
  have hne : i.dest ≠ i.src := hsep.ne (l := []) rfl (by decide) (by simp)
  obtain ⟨v, hv, rfl⟩ := hc.view (by simp [operands]) hsrc
  refine computes_one rfl (fun _ => trivial) ?_
  apply Exists.intro
  intro d hd hreads
  obtain ⟨old, hold⟩ := hd.buffer (by simp [operands]) hdest
  exact i.forward_eq (hreads.weight (by simp [consulted, operands]) hv) hold hne hshuffle hdims

theorem computes_arithmetic {i : Arithmetic} {s : Shape}
    (hsep : (arithmetic i : Instruction α).Separate) (hdest : Γ.Floats i.dest s)
    (hlhs : Γ.Floats i.lhs s) (hrhs : Γ.Floats i.rhs s) (hc : (arithmetic i).Ready Γ c) :
    ∃ outs, (arithmetic i).Computes Γ train c outs := by
  have hne : ∀ id ∈ [i.lhs, i.rhs], i.dest ≠ id :=
    fun id hid => hsep.ne (l := []) rfl (by decide) (by simpa using hid)
  obtain ⟨x, hx, hxs⟩ := hc.view (by simp [operands]) hlhs
  obtain ⟨y, hy, hys⟩ := hc.view (by simp [operands]) hrhs
  refine computes_one rfl (fun _ => trivial) ?_
  apply Exists.intro
  intro d hd hreads
  obtain ⟨old, hold⟩ := hd.buffer (by simp [operands]) hdest
  exact i.forward_eq (hreads.weight (by simp [consulted, operands]) hx)
    (hreads.weight (by simp [consulted, operands]) hy) hold (hne _ (by simp)) (hne _ (by simp))
    hxs hys

theorem computes_concat {i : Concat} {u : Shape} {shape : ValueId → Shape}
    (hsep : (concat i : Instruction α).Separate) (hdest : Γ.Floats i.dest u)
    (hsrcs : ∀ id ∈ i.srcs, Γ.Floats id (shape id))
    (hagrees : ∀ id ∈ i.srcs, (shape id).agreesExcept u i.dim = true)
    (hextent : u.dims[i.dim]? = some ((i.srcs.map fun id => (shape id).dims.getD i.dim 0)).sum)
    (hc : (concat i).Ready Γ c) : ∃ outs, (concat i).Computes Γ train c outs := by
  have hne : ∀ id ∈ i.srcs, i.dest ≠ id := fun id hid =>
    hsep.ne (l := []) rfl (by decide) (by simpa using hid)
  obtain ⟨V, hV⟩ := Context.exists_views fun id hid => hc.view (by simp [operands, hid]) (hsrcs id hid)
  have hcover : i.Covers u V := Concat.covers_of_views (fun id hid => (hV id hid).2) hagrees hextent
  refine computes_one rfl (fun _ => trivial) ?_
  apply Exists.intro
  intro d hd hreads
  obtain ⟨old, hold⟩ := hd.buffer (by simp [operands]) hdest
  refine i.forward_eq (fun id hid => ?_) hold hne hcover
  exact hreads.weight (by simp [consulted, operands, hid]) (hV id hid).1

theorem computes_localResponse {i : LocalResponse α} {e : NHWC} (hsep : (localResponse i).Separate)
    (hdest : Γ.Floats i.dest e.toShape) (hsrc : Γ.Floats i.src e.toShape)
    (hscale : Γ.Floats i.scale e.toShape) (hpos : e.c ≠ 0) (hc : (localResponse i).Ready Γ c) :
    ∃ outs, (localResponse i).Computes Γ train c outs := by
  have hne : ∀ id ∈ [i.src, i.scale], i.dest ≠ id :=
    fun id hid => hsep.ne (l := []) rfl (by decide) (by simpa using hid)
  have hcs : i.scale ≠ i.src :=
    hsep.ne (l := [(i.dest, .write), (i.src, .read)]) rfl (by decide) (by simp)
  obtain ⟨v, hv, hvs⟩ := hc.view (by simp [operands]) hsrc
  refine ⟨[(i.dest, ⟨e.toShape, .float (filled _ (i.outputWrites e v))⟩),
    (i.scale, ⟨e.toShape, .float (filled _ (i.scaleWrites e v))⟩)], by simp [outputs],
    fun d hd hreads => ?_, fun _ _ => trivial⟩
  obtain ⟨old, hold⟩ := hd.buffer (by simp [operands]) hdest
  obtain ⟨oldScale, holdScale⟩ := hd.buffer (by simp [operands]) hscale
  exact i.forward_eq (hreads.weight (by simp [consulted, operands]) hv) hold holdScale hvs rfl rfl
    hpos (hne _ (by simp)) (hne _ (by simp)) hcs

/-! ### Instructions that may stop -/

section Softmax

variable {i : Softmax} {rows columns : Nat} (hdest : Γ.Floats i.dest ⟨[rows, columns]⟩)
  (hsrc : Γ.Floats i.src ⟨[rows, columns]⟩) (hsaved : Γ.Floats i.saved ⟨[rows, columns]⟩)

include hdest hsaved

omit [Scalar α] in
theorem Ready.bound_softmax (hc : (softmax i).Ready Γ c) {v : View α}
    (hv : c.weights[i.src]? = some v.tensor) (hs : v.shape = ⟨[rows, columns]⟩) :
    i.Bound c v rows columns := by
  obtain ⟨old, hold⟩ := hc.buffer (by simp [operands]) hdest
  obtain ⟨oldSaved, holdSaved⟩ := hc.buffer (by simp [operands]) hsaved
  exact ⟨hv, hs, ⟨_, hold, rfl⟩, ⟨_, holdSaved, rfl⟩⟩

include hsrc

/-- A softmax over rows with an entry computes. -/
theorem goes_softmax (hsep : (softmax i : Instruction α).Separate) (hpos : columns ≠ 0) :
    (softmax i : Instruction α).Goes Γ train := by
  have hne : ∀ id ∈ [i.src, i.saved], i.dest ≠ id := fun id hid =>
    hsep.ne (l := []) rfl (by decide) (by
      simp only [List.mem_cons, List.not_mem_nil, or_false] at hid
      rcases hid with rfl | rfl <;> simp)
  have hvs : i.saved ≠ i.src :=
    hsep.ne (l := [(i.dest, .write), (i.src, .read)]) rfl (by decide) (by simp)
  refine ⟨fun e he => ?_, fun c hc => ?_⟩
  · cases he with
    | emptyRow hsrc' =>
        have hshape := hsrc.shape_eq hsrc'
        simp only [Shape.mk.injEq, List.cons.injEq] at hshape
        exact hpos hshape.2.1
  -- output and saved probabilities receive the same rows
  obtain ⟨v, hv, hs⟩ := hc.view (by simp [operands]) hsrc
  refine ⟨[(i.dest, ⟨⟨[rows, columns]⟩, .float (filled _ (Softmax.writes rows columns v))⟩),
    (i.saved, ⟨⟨[rows, columns]⟩, .float (filled _ (Softmax.writes rows columns v))⟩)],
    by simp [outputs], fun d hd hreads => ?_, fun _ _ => trivial⟩
  obtain ⟨old, hold⟩ := hd.buffer (by simp [operands]) hdest
  obtain ⟨oldSaved, holdSaved⟩ := hd.buffer (by simp [operands]) hsaved
  have hbound := hd.bound_softmax hdest hsaved (hreads.weight (by simp [consulted, operands]) hv) hs
  exact Softmax.forward_eq hbound hpos hold holdSaved rfl rfl (hne _ (by simp)) (hne _ (by simp)) hvs

/-- A softmax over empty rows stops before it writes. -/
theorem halts_softmax (hempty : columns = 0) :
    (softmax i : Instruction α).Halts Γ train .emptySoftmaxRow := by
  intro d hd
  obtain ⟨v, hv, hs⟩ := hd.view (by simp [operands]) hsrc
  exact ⟨d, Softmax.forward_stops (hd.bound_softmax hdest hsaved hv hs) hempty, fun _ _ => rfl⟩

theorem softmax_computes_or_stops (hsep : (softmax i : Instruction α).Separate) :
    (softmax i : Instruction α).Goes Γ train ∨
      ∃ e, (softmax i : Instruction α).Stops Γ e ∧ (softmax i : Instruction α).Halts Γ train e := by
  by_cases hempty : columns = 0
  · exact .inr ⟨_, .emptyRow (hempty ▸ hsrc), halts_softmax hdest hsrc hsaved hempty⟩
  · exact .inl (goes_softmax hdest hsrc hsaved hsep hempty)

end Softmax

/-- The extents of a pooling are determined by its shapes. -/
theorem fits_unique {d e : ImageDims} {s u : Shape} (hd : Pool.Fits d s u) (he : Pool.Fits e s u) :
    d = e := by
  have hinput : d.input.toShape = e.input.toShape := hd.src.symm.trans he.src
  have houtput : d.output.toShape = e.output.toShape := hd.dest.symm.trans he.dest
  obtain ⟨⟨n, h, w, c⟩, ⟨n', h', w', c'⟩⟩ := d
  obtain ⟨⟨m, k, x, y⟩, ⟨m', k', x', y'⟩⟩ := e
  simp only [NHWC.toShape, Shape.mk.injEq, List.cons.injEq, and_true] at hinput houtput
  obtain ⟨rfl, rfl, rfl, rfl⟩ := hinput
  obtain ⟨rfl, rfl, rfl, rfl⟩ := houtput
  rfl

section MaxPool

variable {i : Pool} {e : ImageDims} {s u : Shape} {coords : ValueId} (hkind : i.kind = .max)
  (hnamed : i.coords = some coords)

omit [Scalar α] in
include hnamed in
theorem operands_pool :
    (pool i : Instruction α).operands = [(i.dest, .write), (i.src, .read), (coords, .write)] := by
  simp [operands, hnamed]

omit [Scalar α] in
include hnamed in
theorem ne_pool (hsep : (pool i : Instruction α).Separate) :
    i.dest ≠ i.src ∧ i.dest ≠ coords ∧ coords ≠ i.src := by
  have hops := operands_pool (α := α) hnamed
  refine ⟨?_, ?_, ?_⟩
  · exact hsep.ne (l := []) hops (by decide) (by simp)
  · exact hsep.ne (l := []) hops (by decide) (by simp)
  · exact hsep.ne (l := [(i.dest, .write), (i.src, .read)]) hops (by decide) (by simp)

include hkind

omit [Scalar α] in
include hnamed in
theorem outputs_maxPool : (pool i : Instruction α).outputs = [i.dest, coords] := by
  simp only [outputs, hkind, hnamed, Option.toList_some]

theorem forward_maxPool : (pool i : Instruction α).forward train = i.forwardMax := by
  rw [forward, Pool.forward, hkind]

variable (hsep : (pool i : Instruction α).Separate) (hdest : Γ.Floats i.dest u)
  (hsrc : Γ.Floats i.src s) (hsaved : Γ.Indices coords (Pool.pairs e.output))
  (hfits : Pool.Fits e s u)

include hnamed hsep hdest hsrc hsaved hfits

/-- A max pool computes if all its windows hold an element. -/
theorem goes_maxPool (hfirst : (i.window.sites e.output).find? (i.isEmptyWindow e) = none) :
    (pool i : Instruction α).Goes Γ train := by
  have hops := operands_pool (α := α) hnamed
  obtain ⟨hds, hdc, hcs⟩ := ne_pool hnamed hsep
  refine ⟨fun err herr => ?_, fun c hc => ?_⟩
  · cases herr with
    | emptyWindow _ hsrc' hdest' hfits' hfirst' =>
        obtain rfl := hsrc.shape_eq hsrc'
        obtain rfl := hdest.shape_eq hdest'
        obtain rfl := fits_unique hfits hfits'
        cases hfirst.symm.trans hfirst'
  obtain ⟨v, hv, rfl⟩ := hc.view (by simp [hops]) hsrc
  refine ⟨[(i.dest, ⟨u, .float (filled _ (i.maxima e v))⟩),
    (coords, ⟨Pool.pairs e.output, .index (filled _ (i.coordinates e v))⟩)],
    by simp [outputs_maxPool hkind hnamed], fun d hd hreads => ?_, fun d hd => ?_⟩
  · obtain ⟨old, hold⟩ := hd.buffer (by simp [hops]) hdest
    obtain ⟨oldSaved, holdSaved⟩ := hd.indices (by simp [hops]) hsaved
    rw [forward_maxPool hkind]
    exact i.forwardMax_eq (hreads.weight (by simp [consulted, hops]) hv) hold hnamed holdSaved rfl
      hfits hds hdc hcs hfirst
  · intro e' s' u' coords' _ hs' hu' hfits' hcoords'
    -- the shapes of input and output are declared, so the extents are the same
    obtain rfl : coords = coords' := Option.some.inj (hnamed.symm.trans hcoords')
    obtain rfl := hsrc.shape_eq hs'
    obtain rfl := hdest.shape_eq hu'
    obtain rfl := fits_unique hfits hfits'
    exact ⟨⟨Pool.pairs e.output, filled _ (i.coordinates e v)⟩, Context.weights_setWeight_self, rfl,
      i.savedInside_coordinates hfirst⟩

/-- A max pool stops at its first window that holds no element.  Up to there it has
written nothing but outputs. -/
theorem halts_maxPool {o : OutputSite}
    (hfirst : (i.window.sites e.output).find? (i.isEmptyWindow e) = some o) :
    (pool i : Instruction α).Halts Γ train (.emptyPoolingWindow o.anchor.x.toInt o.anchor.y.toInt) := by
  have hops := operands_pool (α := α) hnamed
  obtain ⟨hds, hdc, hcs⟩ := ne_pool hnamed hsep
  intro d hd
  obtain ⟨v, hv, rfl⟩ := hd.view (by simp [hops]) hsrc
  obtain ⟨old, hold⟩ := hd.buffer (by simp [hops]) hdest
  obtain ⟨oldSaved, holdSaved⟩ := hd.indices (by simp [hops]) hsaved
  obtain ⟨d', hd'⟩ := i.forwardMax_stops hv hold hnamed holdSaved rfl hfits hds hdc hcs hfirst
  refine ⟨d', by rw [forward_maxPool hkind]; exact hd', fun id hid => ?_⟩
  -- up to there it touched the output and the saved coordinates alone
  have hmoves : Context.Evolves [i.dest, coords] [] d (i.forwardMax.after d) := by
    refine i.moves_forwardMax (by simp) (fun id h => ?_) d
    obtain rfl := Option.some.inj (hnamed.symm.trans h)
    simp
  rw [Run.after_of_error hd'] at hmoves
  rw [outputs_maxPool hkind hnamed] at hid
  exact hmoves.weights hid

theorem maxPool_computes_or_stops : (pool i : Instruction α).Goes Γ train ∨
    ∃ e, (pool i : Instruction α).Stops Γ e ∧ (pool i : Instruction α).Halts Γ train e := by
  rcases hfirst : (i.window.sites e.output).find? (i.isEmptyWindow e) with - | o
  · exact .inl (goes_maxPool hkind hnamed hsep hdest hsrc hsaved hfits hfirst)
  · exact .inr ⟨_, .emptyWindow hkind hsrc hdest hfits hfirst,
      halts_maxPool hkind hnamed hsep hdest hsrc hsaved hfits hfirst⟩

end MaxPool

section BatchNorm

variable {i : BatchNorm α} {s : Shape} {count : Nat}

omit [Scalar α] in
/-- The output of a normalization differs from what it reads, and so do the running
statistics, also from each other. -/
theorem ne_batchNorm (hsep : (batchNorm i).Separate) :
    (∀ id ∈ [i.src, i.scale, i.bias, i.mean, i.var], i.dest ≠ id) ∧ i.mean ≠ i.var ∧
      i.mean ∉ [i.src, i.scale, i.bias] ∧ i.var ∉ [i.src, i.scale, i.bias] := by
  refine ⟨fun id hid => hsep.ne (l := []) rfl (by decide) (by simpa using hid), ?_, fun hid => ?_,
    fun hid => ?_⟩
  · exact hsep.ne (l := [(i.dest, .write), (i.src, .read), (i.scale, .read), (i.bias, .read)]) rfl
      (by decide) (by simp)
  · refine hsep.ne (l := [(i.dest, .write), (i.src, .read), (i.scale, .read), (i.bias, .read)]) rfl
      (by decide) ?_ rfl
    simp only [List.mem_cons, List.not_mem_nil, or_false] at hid
    rcases hid with h | h | h <;> simp [h]
  · refine hsep.ne (l := [(i.dest, .write), (i.src, .read), (i.scale, .read), (i.bias, .read),
      (i.mean, .update)]) rfl (by decide) ?_ rfl
    simp only [List.mem_cons, List.not_mem_nil, or_false] at hid
    rcases hid with h | h | h <;> simp [h]

omit [Scalar α] in
/-- The operands of a normalization are the same on every ready context that agrees on
what is read. -/
theorem SameInputs.bound_batchNorm {d : Context α} {x f b m v : View α}
    (h : (batchNorm i).SameInputs c d) (hd : (batchNorm i).Ready Γ d) (hdest : Γ.Floats i.dest x.shape)
    (hbound : i.Bound c count x f b m v) : i.Bound d count x f b m v := by
  refine ⟨?_, hbound.axis, hd.buffer (by simp [operands]) hdest, ⟨?_, hbound.factors.2⟩,
    ⟨?_, hbound.summands.2⟩, ⟨?_, hbound.means.2⟩, ⟨?_, hbound.variances.2⟩⟩
  · exact h.weight (by simp [consulted, operands]) hbound.input
  · exact h.weight (by simp [consulted, operands]) hbound.factors.1
  · exact h.weight (by simp [consulted, operands]) hbound.summands.1
  · exact h.weight (by simp [consulted, operands]) hbound.means.1
  · exact h.weight (by simp [consulted, operands]) hbound.variances.1

variable (hdest : Γ.Floats i.dest s) (hsrc : Γ.Floats i.src s)
  (haxis : s.dims[i.axis]? = some count) (hscale : Γ.Floats i.scale ⟨[count]⟩)
  (hbias : Γ.Floats i.bias ⟨[count]⟩) (hmean : Γ.Floats i.mean ⟨[count]⟩)
  (hvar : Γ.Floats i.var ⟨[count]⟩)

include hdest hsrc haxis hscale hbias hmean hvar

omit [Scalar α] in
theorem Ready.exists_bound_batchNorm (hc : (batchNorm i).Ready Γ c) :
    ∃ x f b m v, x.shape = s ∧ i.Bound c count x f b m v := by
  obtain ⟨x, hx, rfl⟩ := hc.view (by simp [operands]) hsrc
  obtain ⟨f, hf⟩ := hc.view (by simp [operands]) hscale
  obtain ⟨b, hb⟩ := hc.view (by simp [operands]) hbias
  obtain ⟨m, hm⟩ := hc.view (by simp [operands]) hmean
  obtain ⟨v, hv⟩ := hc.view (by simp [operands]) hvar
  exact ⟨x, f, b, m, v, rfl, hx, haxis, hc.buffer (by simp [operands]) hdest, hf, hb, hm, hv⟩

/-- A normalization with a channel computes, in training and outside of it. -/
theorem goes_batchNorm (hsep : (batchNorm i).Separate) (hpos : count ≠ 0) :
    (batchNorm i).Goes Γ train := by
  obtain ⟨hne, hmv, hms, hvs⟩ := ne_batchNorm hsep
  refine ⟨fun e he => ?_, fun c hc => ?_⟩
  · cases he with
    | noChannel hsrc' haxis' =>
        obtain rfl := hsrc.shape_eq hsrc'
        exact hpos (Option.some.inj (haxis.symm.trans haxis'))
  obtain ⟨x, f, b, m, v, rfl, hbound⟩ :=
    hc.exists_bound_batchNorm hdest hsrc haxis hscale hbias hmean hvar
  have hsame {d : Context α} (hd : (batchNorm i).Ready Γ d) (h : (batchNorm i).SameInputs c d) :
      i.Bound d count x f b m v := h.bound_batchNorm hd hdest hbound
  -- in training the running statistics are outputs as well
  cases train with
  | false =>
      exact ⟨[(i.dest, (i.normalized x f b m v).tensor)], by simp [outputs], fun d hd hreads =>
        i.forward_eq (hsame hd hreads) hpos (hne _ (by simp)) (hne _ (by simp))
          (hne _ (by simp)) (hne _ (by simp)) (hne _ (by simp)), fun _ _ => trivial⟩
  | true =>
      obtain ⟨μ, hμ⟩ := i.defined_localMean (x.shape.elemCount / count) haxis
      obtain ⟨ν, hν⟩ := i.defined_localVariance (x.shape.elemCount / count) haxis μ
      exact ⟨[(i.mean, (i.blended μ m).tensor), (i.var, (i.blended ν v).tensor),
        (i.dest, (i.normalized x f b (i.blended μ m) (i.blended ν v)).tensor)], by simp [outputs],
        fun d hd hreads => i.forward_train_eq (hsame hd hreads) hpos hμ hν (hne _ (by simp))
          (hne _ (by simp)) (hne _ (by simp)) (hne _ (by simp)) (hne _ (by simp)) hmv hms hvs,
        fun _ _ => trivial⟩

/-- A normalization without channels stops before it writes. -/
theorem halts_batchNorm (hnone : count = 0) :
    (batchNorm i).Halts Γ train .zeroBatchNormChannels := by
  intro d hd
  obtain ⟨x, f, b, m, v, -, hbound⟩ :=
    hd.exists_bound_batchNorm hdest hsrc haxis hscale hbias hmean hvar
  exact ⟨d, BatchNorm.forward_stops hbound hnone train, fun _ _ => rfl⟩

theorem batchNorm_computes_or_stops (hsep : (batchNorm i).Separate) :
    (batchNorm i).Goes Γ train ∨
      ∃ e, (batchNorm i).Stops Γ e ∧ (batchNorm i).Halts Γ train e := by
  by_cases hnone : count = 0
  · exact .inr ⟨_, .noChannel hsrc (hnone ▸ haxis),
      halts_batchNorm hdest hsrc haxis hscale hbias hmean hvar hnone⟩
  · exact .inl (goes_batchNorm hdest hsrc haxis hscale hbias hmean hvar hsep hnone)

end BatchNorm

/-- **A well typed instruction computes or stops.**  On every context that is
ready it computes, or on every such context it stops for one and the same
reason. -/
theorem Typed.computes_or_stops {i : Instruction α} (ht : i.Typed Γ) (hsep : i.Separate)
    (hlife : i.isLifecycle = false) (train : Bool) :
    i.Goes Γ train ∨ ∃ e, i.Stops Γ e ∧ i.Halts Γ train e := by
  cases ht with
  | copy dest src => exact .inl ⟨nofun, fun c => computes_copy hsep dest src⟩
  | reshape dest src size => exact .inl ⟨nofun, fun c => computes_reshape hsep dest src size⟩
  | activation dest src => exact .inl ⟨nofun, fun c => computes_activation hsep dest src⟩
  | convolution dest src filter bias fits =>
      exact .inl ⟨nofun, fun c => computes_convolution hsep dest src filter bias fits⟩
  | maxPool kind dest src named saved fits =>
      exact maxPool_computes_or_stops kind named hsep dest src saved fits
  | avgPool kind dest src fits =>
      refine .inl ⟨fun e he => ?_, fun c => computes_avgPool kind hsep dest src fits⟩
      cases he with
      | emptyWindow hmax => cases kind.symm.trans hmax
  | fullyConnected dest src filter bias fits =>
      exact .inl ⟨nofun, fun c => computes_fullyConnected hsep dest src filter bias fits⟩
  | softmax dest src saved => exact softmax_computes_or_stops dest src saved hsep
  | regression dest src => exact .inl ⟨nofun, fun c => computes_regression hsep dest src⟩
  | transpose dest src shuffle dims =>
      exact .inl ⟨nofun, fun c => computes_transpose hsep dest src shuffle dims⟩
  | concat dest srcs agrees extent =>
      exact .inl ⟨nofun, fun c => computes_concat hsep dest srcs agrees extent⟩
  | batchNorm dest src axis scale bias mean var =>
      exact batchNorm_computes_or_stops dest src axis scale bias mean var hsep
  | localResponse dest src scale channels =>
      exact .inl ⟨nofun, fun c => computes_localResponse hsep dest src scale channels⟩
  | arithmetic dest lhs rhs => exact .inl ⟨nofun, fun c => computes_arithmetic hsep dest lhs rhs⟩
  | alloc declared => cases hlife
  | dealloc => cases hlife

end Rules

end Instruction

end TensorProgram
