/-
TensorProgram/Proofs/Program/Backward.lean

Running a well typed instruction backward.  The way back looks again at some of
the operands.  If these are bound and running forward does not stop, it makes
deposits that depend on nothing but the operands and their gradients
(`Instruction.Typed.contributes`).  So on every context whose bindings
fit it does not fault (`Instruction.Typed.faultless_backward`), whatever is bound.
-/
import TensorProgram.Proofs.Program.Forward
import TensorProgram.Proofs.Program.Presence

namespace TensorProgram

variable {α : Type}

open Run (reports_check_or)

namespace Instruction

/-- The way back looks at operands, and at none of a lifecycle instruction. -/
theorem bound_revisited (i : Instruction α) {c : Context α} (h : i.isLifecycle = false →
    ∀ id ∈ i.operands.map Prod.fst, (c.weights[id]?).isSome) :
    ∀ id ∈ i.revisited, (c.weights[id]?).isSome := by
  have hops (hlife : i.isLifecycle = false) (hsub : i.revisited ⊆ i.operands.map Prod.fst) :
      ∀ id ∈ i.revisited, (c.weights[id]?).isSome := fun id hid => h hlife id (hsub hid)
  cases i with
  | pool q =>
      refine hops rfl ?_
      rcases hkind : q.kind with - | - <;> rcases hcoords : q.coords with - | coords <;>
        simp [revisited, operands, hkind, hcoords]
  | concat q => exact hops rfl (by simp [revisited, operands, Function.comp_def])
  | alloc id => simp [revisited]
  | dealloc id => simp [revisited]
  | _ => exact hops rfl (by simp [revisited, operands])

/-- The context binds every operand that the way back looks at, and what it
binds fits the declarations. -/
structure Revisits (Γ : Signature) (i : Instruction α) (c : Context α) : Prop where
  /-- The declarations. -/
  declared : ∀ id : ValueId, c.declared[id]? = Γ id
  /-- Bindings fit. -/
  typed : c.Typed
  /-- Operands are bound. -/
  bound : ∀ id ∈ i.revisited, (c.weights[id]?).isSome

/-- Two contexts agree on the operands of an instruction and on their
gradients. -/
structure SameOperands (i : Instruction α) (c d : Context α) : Prop where
  /-- The operands. -/
  weights : ∀ id ∈ i.operands.map Prod.fst, d.weights[id]? = c.weights[id]?
  /-- Their gradients. -/
  grads : ∀ id ∈ i.operands.map Prod.fst, d.grads[id]? = c.grads[id]?

theorem SameOperands.refl (i : Instruction α) (c : Context α) : i.SameOperands c c :=
  ⟨fun _ _ => rfl, fun _ _ => rfl⟩

variable [Scalar α]

/-- Running backward makes these deposits, on every context that agrees with `c`
on the operands and their gradients. -/
structure Contributes (Γ : Signature) (config : Config α) (i : Instruction α) (c : Context α)
    (combine : α → α → α) (ds : List (Deposit α)) : Prop where
  /-- Deposits are made to operands. -/
  operands : ∀ d ∈ ds, d.1 ∈ i.operands.map Prod.fst
  /-- Running backward makes the deposits. -/
  run : ∀ d, i.Revisits Γ d → i.SameOperands c d →
    i.backward config d = .ok () (d.deposits combine ds)

section Revisits

variable {Γ : Signature} {i : Instruction α} {c d : Context α} {id : ValueId} {s : Shape}

omit [Scalar α] in
theorem Revisits.buffer (h : i.Revisits Γ c) (hid : id ∈ i.revisited) (hs : Γ.Floats id s) :
    ∃ data : Vector α s.elemCount, c.weights[id]? = some ⟨s, .float data⟩ := by
  obtain ⟨t, ht⟩ := Option.isSome_iff_exists.mp (h.bound id hid)
  obtain ⟨data, rfl⟩ := Tensor.eq_float (h.typed.weight ((h.declared id).trans hs) ht)
  exact ⟨data, ht⟩

omit [Scalar α] in
theorem Revisits.view (h : i.Revisits Γ c) (hid : id ∈ i.revisited) (hs : Γ.Floats id s) :
    ∃ v : View α, c.weights[id]? = some v.tensor ∧ v.shape = s := by
  obtain ⟨data, hdata⟩ := h.buffer hid hs
  exact ⟨⟨s, data⟩, hdata, rfl⟩

omit [Scalar α] in
theorem Revisits.indices (h : i.Revisits Γ c) (hid : id ∈ i.revisited) (hs : Γ.Indices id s) :
    ∃ v : View Nat, c.weights[id]? = some v.indexTensor ∧ v.shape = s := by
  obtain ⟨t, ht⟩ := Option.isSome_iff_exists.mp (h.bound id hid)
  obtain ⟨data, rfl⟩ := Tensor.eq_index (h.typed.weight ((h.declared id).trans hs) ht)
  exact ⟨⟨s, data⟩, ht, rfl⟩

theorem Revisits.hasGrad (h : i.Revisits Γ c) (hs : Γ.Floats id s) : c.HasGrad id s :=
  h.typed.hasGrad ((h.declared id).trans hs)

/-- The gradient of an operand, or the zeros for a missing one. -/
theorem Revisits.grad (h : i.Revisits Γ c) (hs : Γ.Floats id s) :
    ∃ out : View α, c.gradOrZeros id = .ok out.tensor ∧ out.shape = s := by
  obtain ⟨data, hdata⟩ := h.hasGrad hs
  exact ⟨⟨s, data⟩, hdata, rfl⟩

omit [Scalar α] in
theorem SameOperands.weight (h : i.SameOperands c d) (hid : id ∈ i.operands.map Prod.fst)
    {t : Tensor α} (ht : c.weights[id]? = some t) : d.weights[id]? = some t :=
  (h.weights id hid).trans ht

theorem SameOperands.gradOrZeros (h : i.SameOperands c d) (hc : i.Revisits Γ c)
    (hd : i.Revisits Γ d) (hid : id ∈ i.operands.map Prod.fst) {g : Tensor α}
    (hg : c.gradOrZeros id = .ok g) : d.gradOrZeros id = .ok g := by
  have hdecl : d.declared = c.declared :=
    Std.ExtTreeMap.ext_getElem? fun j => (hd.declared j).trans (hc.declared j).symm
  rw [Context.gradOrZeros_congr (by rw [hdecl]) (h.weights id hid) (h.grads id hid), hg]

end Revisits

section Rules

variable {Γ : Signature} {config : Config α} {c : Context α}

/-- The contributions of a moved buffer, after a check that succeeds. -/
theorem contributes_moveBack {i : Instruction α} {u : Unary} {s t : Shape}
    (hops : i.operands = [(u.dest, .write), (u.src, .read)]) (hne : u.src ≠ u.dest)
    (hdest : Γ.Floats u.dest t) (hsrc : Γ.Floats u.src s) (hsize : t.elemCount = s.elemCount)
    (hrun : ∀ d, i.Revisits Γ d → i.backward config d = u.moveBack d) (hc : i.Revisits Γ c) :
    ∃ combine ds, i.Contributes Γ config c combine ds := by
  obtain ⟨out, hout, rfl⟩ := hc.grad hdest
  refine ⟨accumulate, [(u.dest, []), (u.src, pointwise s.elemCount out.entry)], ?_,
    fun d hd hsame => ?_⟩
  · rw [hops]
    simp
  · rw [hrun d hd]
    exact u.deposits_moveBack hne (hd.hasGrad hsrc) hsize
      (hsame.gradOrZeros hc hd (by simp [hops]) hout)

theorem contributes_copy {i : Unary} {s : Shape} (hsep : (copy i : Instruction α).Separate)
    (hdest : Γ.Floats i.dest s) (hsrc : Γ.Floats i.src s) (hc : (copy i).Revisits Γ c) :
    ∃ combine ds, (copy i).Contributes Γ config c combine ds := by
  have hne : i.dest ≠ i.src := hsep.ne (l := []) rfl (by decide) (by simp)
  refine contributes_moveBack rfl hne.symm hdest hsrc rfl (fun d hd => ?_) hc
  obtain ⟨x, hx⟩ := hd.buffer (by simp [revisited]) hsrc
  obtain ⟨y, hy⟩ := hd.buffer (by simp [revisited]) hdest
  exact Run.bind_of_ok (i.requireAlike_ok _ hx hy rfl)

theorem contributes_reshape {i : Unary} {s t : Shape} (hsep : (reshape i : Instruction α).Separate)
    (hdest : Γ.Floats i.dest t) (hsrc : Γ.Floats i.src s) (hsize : s.elemCount = t.elemCount)
    (hc : (reshape i).Revisits Γ c) :
    ∃ combine ds, (reshape i).Contributes Γ config c combine ds := by
  have hne : i.dest ≠ i.src := hsep.ne (l := []) rfl (by decide) (by simp)
  refine contributes_moveBack rfl hne.symm hdest hsrc hsize.symm (fun d hd => ?_) hc
  obtain ⟨x, hx⟩ := hd.buffer (by simp [revisited]) hsrc
  obtain ⟨y, hy⟩ := hd.buffer (by simp [revisited]) hdest
  exact Run.bind_of_ok (i.requireEquinumerous_ok hx hy hsize.symm)

theorem contributes_activation {f : Activation} {i : Unary} {s : Shape}
    (hsep : (activation f i : Instruction α).Separate) (hdest : Γ.Floats i.dest s)
    (hsrc : Γ.Floats i.src s) (hc : (activation f i).Revisits Γ c) :
    ∃ combine ds, (activation f i).Contributes Γ config c combine ds := by
  have hne : i.dest ≠ i.src := hsep.ne (l := []) rfl (by decide) (by simp)
  obtain ⟨x, hx, hxs⟩ := hc.view (by simp [revisited]) hsrc
  obtain ⟨y, hy, hys⟩ := hc.view (by simp [revisited]) hdest
  obtain ⟨out, hout, houts⟩ := hc.grad hdest
  refine ⟨accumulate, [(i.dest, []),
    (i.src, pointwise s.elemCount fun k => f.slope (y.entry k) (out.entry k))],
    by simp [operands], fun d hd hsame => ?_⟩
  exact f.backward_eq i (hsame.weight (by simp [operands]) hx)
    (hsame.weight (by simp [operands]) hy) hne.symm (hd.hasGrad hsrc) hxs hys
    (hsame.gradOrZeros hc hd (by simp [operands]) hout) houts

theorem contributes_convolution {i : Convolution} {e : ImageDims} {s u v w : Shape}
    (hsep : (convolution i : Instruction α).Separate) (hdest : Γ.Floats i.dest u)
    (hsrc : Γ.Floats i.src s) (hfilter : Γ.Floats i.filter v) (hbias : Γ.Floats i.bias w)
    (hfits : Convolution.Fits i.window e s u v w) (hc : (convolution i).Revisits Γ c) :
    ∃ combine ds, (convolution i).Contributes Γ config c combine ds := by
  have hne : ∀ id ∈ [i.src, i.filter, i.bias], i.dest ≠ id :=
    fun id hid => hsep.ne (l := []) rfl (by decide) (by simpa using hid)
  obtain ⟨x, hx, rfl⟩ := hc.view (by simp [revisited]) hsrc
  obtain ⟨f, hf, rfl⟩ := hc.view (by simp [revisited]) hfilter
  obtain ⟨b, hb, rfl⟩ := hc.view (by simp [revisited]) hbias
  obtain ⟨out, hout, rfl⟩ := hc.grad hdest
  refine ⟨accumulate, [(i.dest, []), (i.filter, i.filterTerms config.filterGradSource e x out),
    (i.src, i.inputTerms e f out), (i.bias, i.biasTerms e out)], by simp [operands],
    fun d hd hsame => ?_⟩
  obtain ⟨y, hy⟩ := hd.buffer (by simp [revisited]) hdest
  exact i.backward_eq (hsame.weight (by simp [operands]) hx) (hsame.weight (by simp [operands]) hf)
    (hsame.weight (by simp [operands]) hb) hy hfits config.filterGradSource
    (hne _ (by simp)).symm (hne _ (by simp)).symm (hne _ (by simp)).symm (hd.hasGrad hsrc)
    (hd.hasGrad hfilter) (hd.hasGrad hbias) (hsame.gradOrZeros hc hd (by simp [operands]) hout) rfl

theorem contributes_avgPool {i : Pool} {e : ImageDims} {s u : Shape} (hkind : i.kind = .avg)
    (hsep : (pool i : Instruction α).Separate) (hdest : Γ.Floats i.dest u)
    (hsrc : Γ.Floats i.src s) (hfits : Pool.Fits e s u) (hc : (pool i).Revisits Γ c) :
    ∃ combine ds, (pool i).Contributes Γ config c combine ds := by
  have hne : i.dest ≠ i.src := hsep.ne (l := []) rfl (by decide) (by simp)
  have hrevisited : (pool i : Instruction α).revisited = [i.dest, i.src] := by
    simp only [revisited, hkind]
  obtain ⟨x, hx, rfl⟩ := hc.view (by simp [hrevisited]) hsrc
  obtain ⟨out, hout, rfl⟩ := hc.grad hdest
  refine ⟨accumulate, [(i.dest, []), (i.src, i.shares e out)], by simp [operands],
    fun d hd hsame => ?_⟩
  obtain ⟨y, hy⟩ := hd.buffer (by simp [hrevisited]) hdest
  rw [backward, Pool.backward, hkind]
  exact i.backwardAvg_eq (hsame.weight (by simp [operands]) hx) hy hne.symm (hd.hasGrad hsrc) hfits
    (hsame.gradOrZeros hc hd (by simp [operands]) hout) rfl

theorem contributes_maxPool {i : Pool} {e : ImageDims} {s u : Shape} {coords : ValueId}
    (hkind : i.kind = .max) (hsep : (pool i : Instruction α).Separate)
    (hdest : Γ.Floats i.dest u) (hsrc : Γ.Floats i.src s) (hnamed : i.coords = some coords)
    (hfits : Pool.Fits e s u) (hc : (pool i).Revisits Γ c) (hsaved : (pool i).Saved Γ c) :
    ∃ combine ds, (pool i).Contributes Γ config c combine ds := by
  have hne : i.dest ≠ i.src := hsep.ne (l := []) rfl (by decide) (by simp)
  have hrevisited : (pool i : Instruction α).revisited = [i.dest, i.src, coords] := by
    simp only [revisited, hkind, hnamed, Option.toList_some]
  obtain ⟨saved, hbound, hshape, hinside⟩ := hsaved e s u coords hkind hsrc hdest hfits hnamed
  obtain ⟨x, hx, rfl⟩ := hc.view (by simp [hrevisited]) hsrc
  obtain ⟨out, hout, rfl⟩ := hc.grad hdest
  refine ⟨accumulate, [(i.dest, []), (i.src, i.routed e saved out)], by simp [operands],
    fun d hd hsame => ?_⟩
  obtain ⟨y, hy⟩ := hd.buffer (by simp [hrevisited]) hdest
  rw [backward, Pool.backward, hkind]
  exact i.backwardMax_eq (hsame.weight (by simp [operands]) hx) hy hnamed
    (hsame.weight (by simp [operands, hnamed]) hbound) hshape hfits hne.symm (hd.hasGrad hsrc) hinside
    (hsame.gradOrZeros hc hd (by simp [operands]) hout) rfl

theorem contributes_fullyConnected {i : FullyConnected} {e : FullyConnected.Dims} {s u v w : Shape}
    (hsep : (fullyConnected i : Instruction α).Separate) (hdest : Γ.Floats i.dest u)
    (hsrc : Γ.Floats i.src s) (hfilter : Γ.Floats i.filter v) (hbias : Γ.Floats i.bias w)
    (hfits : FullyConnected.Fits e s u v w) (hc : (fullyConnected i).Revisits Γ c) :
    ∃ combine ds, (fullyConnected i).Contributes Γ config c combine ds := by
  have hne : ∀ id ∈ [i.src, i.filter, i.bias], i.dest ≠ id :=
    fun id hid => hsep.ne (l := []) rfl (by decide) (by simpa using hid)
  obtain ⟨x, hx, rfl⟩ := hc.view (by simp [revisited]) hsrc
  obtain ⟨f, hf, rfl⟩ := hc.view (by simp [revisited]) hfilter
  obtain ⟨b, hb, rfl⟩ := hc.view (by simp [revisited]) hbias
  obtain ⟨out, hout, rfl⟩ := hc.grad hdest
  refine ⟨accumulate, [(i.dest, []), (i.src, FullyConnected.inputTerms e f out),
    (i.filter, FullyConnected.filterTerms e x out), (i.bias, FullyConnected.biasTerms e out)],
    by simp [operands], fun d hd hsame => ?_⟩
  obtain ⟨y, hy⟩ := hd.buffer (by simp [revisited]) hdest
  exact i.backward_eq (hsame.weight (by simp [operands]) hx) (hsame.weight (by simp [operands]) hf)
    (hsame.weight (by simp [operands]) hb) hy hfits (hne _ (by simp)).symm (hne _ (by simp)).symm
    (hne _ (by simp)).symm (hd.hasGrad hsrc) (hd.hasGrad hfilter) (hd.hasGrad hbias)
    (hsame.gradOrZeros hc hd (by simp [operands]) hout) rfl

theorem contributes_softmax {i : Softmax} {rows columns : Nat} (hpos : columns ≠ 0)
    (hdest : Γ.Floats i.dest ⟨[rows, columns]⟩) (hsrc : Γ.Floats i.src ⟨[rows, columns]⟩)
    (hsaved : Γ.Floats i.saved ⟨[rows, columns]⟩) (hselected : Γ.Indices i.selected ⟨[rows, 1]⟩)
    (hc : (softmax i).Revisits Γ c) :
    ∃ combine ds, (softmax i).Contributes Γ config c combine ds := by
  obtain ⟨x, hx, hxs⟩ := hc.view (by simp [revisited]) hsrc
  obtain ⟨p, hp, hps⟩ := hc.view (by simp [revisited]) hsaved
  obtain ⟨l, hl, hls⟩ := hc.indices (by simp [revisited]) hselected
  refine ⟨accumulate, [(i.src, Softmax.terms rows columns p l)], by simp [operands],
    fun d hd hsame => ?_⟩
  obtain ⟨y, hy⟩ := hd.buffer (by simp [revisited]) hdest
  have hp' := hsame.weight (by simp [operands]) hp
  have hbound : i.Bound d x rows columns :=
    ⟨hsame.weight (by simp [operands]) hx, hxs, ⟨_, hy, rfl⟩, ⟨_, hp', hps⟩⟩
  exact Softmax.backward_eq hbound hpos hp' hps (hsame.weight (by simp [operands]) hl) hls
    (hxs ▸ hd.hasGrad hsrc)

theorem contributes_regression {i : Regression} {rows columns : Nat}
    (hsrc : Γ.Floats i.src ⟨[rows, columns]⟩) (hexpected : Γ.Floats i.expected ⟨[rows, columns]⟩)
    (hc : (regression i).Revisits Γ c) :
    ∃ combine ds, (regression i).Contributes Γ config c combine ds := by
  obtain ⟨x, hx, hxs⟩ := hc.view (by simp [revisited]) hsrc
  obtain ⟨y, hy, hys⟩ := hc.view (by simp [revisited]) hexpected
  refine ⟨accumulate, [(i.src, Regression.terms rows columns x y)], by simp [operands],
    fun d hd hsame => ?_⟩
  exact i.backward_eq (hsame.weight (by simp [operands]) hx)
    (hsame.weight (by simp [operands]) hy) hxs hys (hxs ▸ hd.hasGrad hsrc)

theorem contributes_transpose {i : Transpose} {s u : Shape}
    (hsep : (transpose i : Instruction α).Separate) (hdest : Γ.Floats i.dest u)
    (hsrc : Γ.Floats i.src s) (hshuffle : IsPermutation i.shuffle s.rank)
    (hdims : u.dims = permuted i.shuffle s.dims) (hc : (transpose i).Revisits Γ c) :
    ∃ combine ds, (transpose i).Contributes Γ config c combine ds := by
  have hne : i.dest ≠ i.src := hsep.ne (l := []) rfl (by decide) (by simp)
  obtain ⟨out, hout, rfl⟩ := hc.grad hdest
  refine ⟨config.gradientPolicy.combine, [(i.dest, []),
    (i.src, coordinatewise s.dims fun c => out.elem (permuted i.shuffle c))], by simp [operands],
    fun d hd hsame => ?_⟩
  exact i.backward_eq config.gradientPolicy hne.symm (hd.hasGrad hsrc)
    (hsame.gradOrZeros hc hd (by simp [operands]) hout) hshuffle hdims

theorem contributes_concat {i : Concat} {u : Shape} {shape : ValueId → Shape}
    (hsep : (concat i : Instruction α).Separate) (hdest : Γ.Floats i.dest u)
    (hsrcs : ∀ id ∈ i.srcs, Γ.Floats id (shape id))
    (hagrees : ∀ id ∈ i.srcs, (shape id).agreesExcept u i.dim = true)
    (hextent : u.dims[i.dim]? = some ((i.srcs.map fun id => (shape id).dims.getD i.dim 0)).sum)
    (hc : (concat i).Revisits Γ c) :
    ∃ combine ds, (concat i).Contributes Γ config c combine ds := by
  have hne : ∀ id ∈ i.srcs, i.dest ≠ id := fun id hid =>
    hsep.ne (l := []) rfl (by decide) (by simpa using hid)
  obtain ⟨V, hV⟩ := Context.exists_views fun id hid => hc.view (by simp [revisited, hid]) (hsrcs id hid)
  have hcover : i.Covers u V := Concat.covers_of_views (fun id hid => (hV id hid).2) hagrees hextent
  obtain ⟨out, hout, rfl⟩ := hc.grad hdest
  refine ⟨config.gradientPolicy.combine, (i.dest, []) :: (i.lay V).map (fun p =>
    (p.1, coordinatewise (V p.1).shape.dims fun c => out.elem (shift i.dim p.2 c))), ?_,
    fun d hd hsame => ?_⟩
  · -- the deposits are made to operands
    intro e he
    rcases List.mem_cons.mp he with rfl | he
    · simp [operands]
    · obtain ⟨p, hp, rfl⟩ := List.mem_map.mp he
      have hmem := (Concat.le_of_mem_layFrom hp).1
      simp [operands, hmem]
  · -- a context with the same operands receives the same deposits
    obtain ⟨y, hy⟩ := hd.buffer (by simp [revisited]) hdest
    refine i.backward_eq config.gradientPolicy (fun id hid => ?_) hy rfl
      (fun id hid => (hne id hid).symm) (fun id hid => ?_) hcover
      (hsame.gradOrZeros hc hd (by simp [operands]) hout) rfl
    · exact hsame.weight (by simp [operands, hid]) (hV id hid).1
    · rw [(hV id hid).2]
      exact hd.hasGrad (hsrcs id hid)

theorem contributes_batchNorm {i : BatchNorm α} {s : Shape} {count : Nat} (hpos : count ≠ 0)
    (hsep : (batchNorm i).Separate) (hdest : Γ.Floats i.dest s) (hsrc : Γ.Floats i.src s)
    (haxis : s.dims[i.axis]? = some count) (hscale : Γ.Floats i.scale ⟨[count]⟩)
    (hbias : Γ.Floats i.bias ⟨[count]⟩) (hmean : Γ.Floats i.mean ⟨[count]⟩)
    (hvar : Γ.Floats i.var ⟨[count]⟩) (hc : (batchNorm i).Revisits Γ c) :
    ∃ combine ds, (batchNorm i).Contributes Γ config c combine ds := by
  have hne : ∀ id ∈ [i.src, i.scale, i.bias, i.mean, i.var], i.dest ≠ id :=
    fun id hid => hsep.ne (l := []) rfl (by decide) (by simpa using hid)
  obtain ⟨x, hx, rfl⟩ := hc.view (by simp [revisited]) hsrc
  obtain ⟨f, hf, hfs⟩ := hc.view (by simp [revisited]) hscale
  obtain ⟨b, hb, hbs⟩ := hc.view (by simp [revisited]) hbias
  obtain ⟨m, hm, hms⟩ := hc.view (by simp [revisited]) hmean
  obtain ⟨v, hv, hvs⟩ := hc.view (by simp [revisited]) hvar
  obtain ⟨out, hout, houts⟩ := hc.grad hdest
  obtain ⟨sums, hsums⟩ := i.defined_sums haxis hms houts
  refine ⟨accumulate, [(i.dest, []),
    (i.src, i.inputTerms (BatchNorm.channelsOf count x.shape) sums x f m v out),
    (i.bias, i.channelTerms x b.shape out.raw),
    (i.scale, i.channelTerms x f.shape (i.scaleTerm x m v out))], by simp [operands],
    fun d hd hsame => ?_⟩
  -- a context that agrees on the operands binds the same views
  have hbound : i.Bound d count x f b m v := by
    refine ⟨?_, haxis, hd.buffer (by simp [revisited]) hdest, ⟨?_, hfs⟩, ⟨?_, hbs⟩, ⟨?_, hms⟩,
      ⟨?_, hvs⟩⟩
    · exact hsame.weight (by simp [operands]) hx
    · exact hsame.weight (by simp [operands]) hf
    · exact hsame.weight (by simp [operands]) hb
    · exact hsame.weight (by simp [operands]) hm
    · exact hsame.weight (by simp [operands]) hv
  exact i.backward_eq hbound houts hpos hsums (hne _ (by simp)).symm (hne _ (by simp)).symm
    (hne _ (by simp)).symm (hd.hasGrad hsrc) (hbs ▸ hd.hasGrad hbias) (hfs ▸ hd.hasGrad hscale)
    (hsame.gradOrZeros hc hd (by simp [operands]) hout)

theorem contributes_localResponse {i : LocalResponse α} {e : NHWC} (hsep : (localResponse i).Separate)
    (hdest : Γ.Floats i.dest e.toShape) (hsrc : Γ.Floats i.src e.toShape)
    (hscale : Γ.Floats i.scale e.toShape) (hpos : e.c ≠ 0) (hc : (localResponse i).Revisits Γ c) :
    ∃ combine ds, (localResponse i).Contributes Γ config c combine ds := by
  have hne : ∀ id ∈ [i.src, i.scale], i.dest ≠ id :=
    fun id hid => hsep.ne (l := []) rfl (by decide) (by simpa using hid)
  obtain ⟨x, hx, hxs⟩ := hc.view (by simp [revisited]) hsrc
  obtain ⟨y, hy, hys⟩ := hc.view (by simp [revisited]) hdest
  obtain ⟨v, hv, hvs⟩ := hc.view (by simp [revisited]) hscale
  obtain ⟨out, hout, houts⟩ := hc.grad hdest
  refine ⟨config.gradientPolicy.combine, [(i.dest, []), (i.src, i.inputTerms e x y v out)],
    by simp [operands], fun d hd hsame => ?_⟩
  exact i.backward_eq config.gradientPolicy (hsame.weight (by simp [operands]) hx)
    (hsame.weight (by simp [operands]) hy) (hsame.weight (by simp [operands]) hv) hxs hys hvs hpos
    (hne _ (by simp)).symm (hxs ▸ hd.hasGrad hsrc)
    (hsame.gradOrZeros hc hd (by simp [operands]) hout) houts

theorem contributes_arithmetic {i : Arithmetic} {s : Shape}
    (hsep : (arithmetic i : Instruction α).Separate) (hdest : Γ.Floats i.dest s)
    (hlhs : Γ.Floats i.lhs s) (hrhs : Γ.Floats i.rhs s) (hc : (arithmetic i).Revisits Γ c) :
    ∃ combine ds, (arithmetic i).Contributes Γ config c combine ds := by
  have hne : ∀ id ∈ [i.lhs, i.rhs], i.dest ≠ id :=
    fun id hid => hsep.ne (l := []) rfl (by decide) (by simpa using hid)
  obtain ⟨x, hx, hxs⟩ := hc.view (by simp [revisited]) hlhs
  obtain ⟨y, hy, hys⟩ := hc.view (by simp [revisited]) hrhs
  obtain ⟨z, hz, hzs⟩ := hc.view (by simp [revisited]) hdest
  obtain ⟨out, hout, houts⟩ := hc.grad hdest
  refine ⟨config.gradientPolicy.combine, [(i.dest, []), (i.lhs, i.contribution y out s.elemCount),
    (i.rhs, i.contribution x out s.elemCount)], by simp [operands], fun d hd hsame => ?_⟩
  exact i.backward_eq config.gradientPolicy (hsame.weight (by simp [operands]) hx)
    (hsame.weight (by simp [operands]) hy) (hsame.weight (by simp [operands]) hz)
    (hne _ (by simp)).symm (hne _ (by simp)).symm (hd.hasGrad hlhs) (hd.hasGrad hrhs) hxs hys hzs
    (hsame.gradOrZeros hc hd (by simp [operands]) hout) houts

/-- Beginning and ending a life contributes nothing. -/
theorem contributes_lifecycle {i : Instruction α} (hlife : i.isLifecycle = true) :
    ∃ combine ds, i.Contributes Γ config c combine ds := by
  refine ⟨accumulate, [], by simp, fun d _ _ => ?_⟩
  cases i with
  | alloc id => rfl
  | dealloc id => rfl
  | _ => cases hlife

/-- **A well typed instruction contributes.**  If running forward does not stop,
the way back makes deposits that depend on the operands and their gradients
alone. -/
theorem Typed.contributes {i : Instruction α} (ht : i.Typed Γ) (hsep : i.Separate)
    (hgo : ∀ e, ¬ i.Stops Γ e) (hc : i.Revisits Γ c) (hsaved : i.Saved Γ c) :
    ∃ combine ds, i.Contributes Γ config c combine ds := by
  cases ht with
  | copy dest src => exact contributes_copy hsep dest src hc
  | reshape dest src size => exact contributes_reshape hsep dest src size hc
  | activation dest src => exact contributes_activation hsep dest src hc
  | convolution dest src filter bias fits =>
      exact contributes_convolution hsep dest src filter bias fits hc
  | maxPool kind dest src named saved fits =>
      exact contributes_maxPool kind hsep dest src named fits hc hsaved
  | avgPool kind dest src fits => exact contributes_avgPool kind hsep dest src fits hc
  | fullyConnected dest src filter bias fits =>
      exact contributes_fullyConnected hsep dest src filter bias fits hc
  | softmax dest src saved selected =>
      refine contributes_softmax (fun hzero => ?_) dest src saved selected hc
      subst hzero
      exact hgo _ (.emptyRow src)
  | regression dest src expected => exact contributes_regression src expected hc
  | transpose dest src shuffle dims => exact contributes_transpose hsep dest src shuffle dims hc
  | concat dest srcs agrees extent => exact contributes_concat hsep dest srcs agrees extent hc
  | batchNorm dest src axis scale bias mean var =>
      refine contributes_batchNorm (fun hzero => ?_) hsep dest src axis scale bias mean var hc
      subst hzero
      exact hgo _ (.noChannel src axis)
  | localResponse dest src scale channels =>
      exact contributes_localResponse hsep dest src scale channels hc
  | arithmetic dest lhs rhs => exact contributes_arithmetic hsep dest lhs rhs hc
  | alloc declared => exact contributes_lifecycle rfl
  | dealloc => exact contributes_lifecycle rfl

/-! ### Faults -/

/-- Apart from a max pool, what stops on the way forward reports on the way
back. -/
theorem Stops.reports {i : Instruction α} {e : Error} (h : i.Stops Γ e)
    (hmax : ∀ p : Pool, i = pool p → p.kind ≠ .max) (hc : i.Revisits Γ c) :
    (i.backward config).Reports c := by
  cases h with
  | emptyWindow kind => exact absurd kind (hmax _ rfl)
  | @emptyRow i rows src =>
      -- the way back begins with the check that the way forward failed
      refine (reports_check_or (P := False) fun ⟨rows, columns⟩ hd => ?_).resolve_right id
      obtain ⟨hpos, hs, -⟩ := Softmax.shapes_of_dims hd
      obtain ⟨data, hdata⟩ := hc.buffer (by simp [revisited]) src
      rw [Context.shapeOf_eq hdata] at hs
      cases hs
      exact absurd rfl hpos
  | @noChannel i s src axis =>
      refine (reports_check_or (P := False) fun d hd => ?_).resolve_right id
      obtain ⟨t, count, -, hpos, hcount, ht, -⟩ := BatchNorm.shapes_of_channels hd
      obtain ⟨data, hdata⟩ := hc.buffer (by simp [revisited]) src
      rw [Context.shapeOf_eq hdata] at ht
      obtain rfl := Except.ok.inj ht
      exact absurd (Option.some.inj (axis.symm.trans hcount)).symm hpos

/-- The way back of a max pool does not fault, whatever it saved. -/
theorem faultless_backward_maxPool {i : Pool} {e : ImageDims} {s u : Shape} {coords : ValueId}
    (hkind : i.kind = .max) (hsep : (pool i : Instruction α).Separate)
    (hdest : Γ.Floats i.dest u) (hsrc : Γ.Floats i.src s) (hnamed : i.coords = some coords)
    (hsaved : Γ.Indices coords (Pool.pairs e.output)) (hfits : Pool.Fits e s u)
    (hc : (pool i).Revisits Γ c) : ((pool i).backward config).Faultless c := by
  have hne : i.dest ≠ i.src := hsep.ne (l := []) rfl (by decide) (by simp)
  have hrevisited : (pool i : Instruction α).revisited = [i.dest, i.src, coords] := by
    simp only [revisited, hkind, hnamed, Option.toList_some]
  obtain ⟨x, hx, rfl⟩ := hc.view (by simp [hrevisited]) hsrc
  obtain ⟨y, hy⟩ := hc.buffer (by simp [hrevisited]) hdest
  obtain ⟨saved, hbound, hshape⟩ := hc.indices (by simp [hrevisited]) hsaved
  obtain ⟨out, hout, rfl⟩ := hc.grad hdest
  rw [backward, Pool.backward, hkind]
  exact i.faultless_backwardMax hx hy hnamed hbound hshape hfits hne.symm (hc.hasGrad hsrc) hout rfl

/-- **No fault on the way back.**  On every context whose bindings fit, a well
typed instruction succeeds or reports an error. -/
theorem Typed.faultless_backward {i : Instruction α} (ht : i.Typed Γ) (hsep : i.Separate)
    (hdecl : ∀ id : ValueId, c.declared[id]? = Γ id) (htyped : c.Typed) :
    (i.backward config).Faultless c := by
  rcases i.reports_or_bound config c with hreports | hbound
  · exact hreports.faultless
  have hc : i.Revisits Γ c := ⟨hdecl, htyped, hbound⟩
  -- the saved coordinates of a max pool may lie outside, so it is treated apart
  by_cases hmax : ∃ p : Pool, i = pool p ∧ p.kind = .max
  · obtain ⟨p, rfl, hkind⟩ := hmax
    cases ht with
    | maxPool kind dest src named saved fits =>
        exact faultless_backward_maxPool kind hsep dest src named saved fits hc
    | avgPool kind dest src fits => cases hkind.symm.trans kind
  -- where the way forward stops the way back reports; elsewhere it contributes
  by_cases hgo : ∃ e, i.Stops Γ e
  · obtain ⟨e, he⟩ := hgo
    exact (he.reports (fun p hp hkind => hmax ⟨p, hp, hkind⟩) hc).faultless
  · have hsaved : i.Saved Γ c := by
      cases i with
      | pool p => exact fun _ _ _ _ hkind => absurd ⟨p, rfl, hkind⟩ hmax
      | _ => trivial
    obtain ⟨combine, ds, hds⟩ : ∃ combine ds, i.Contributes Γ config c combine ds :=
      ht.contributes hsep (not_exists.mp hgo) hc hsaved
    exact Run.faultless_of_ok (hds.run c hc (.refl i c))

end Rules

end Instruction

end TensorProgram
