/-
TensorProgram/Proofs/Kernel/Safety.lean

No kernel faults on its own.  Nothing is assumed of the program that an
instruction belongs to: its operands may be missing, of any kind and shape, or
coincide, and its attributes are arbitrary.  The entry check of a kernel compares
all shapes by which its loops address buffers, and an operand that cannot be
read is reported.

* Forward this holds on every context, as long as what comes to life can be
  allocated.
* Backward it holds on contexts whose gradients mirror the weights, and the way
  back keeps them so, whether it succeeds or stops half-way.  A gradient of
  another shape than its weight would be addressed by the extents of the weight.

Main statement: `Instruction.never_faults`.
-/
import TensorProgram.Proofs.Context.Mirror
import TensorProgram.Proofs.Kernel.Atomicity

namespace TensorProgram

variable {α : Type} [Scalar α] {c c₀ : Context α}

open Context (Mirrors shape_eq shapeOf_setWeight weights_of_floats weights_of_floats_without
  weights_of_floats_without_both faultless_updateWeight reports_updateWeightPair_or
  lands_ensureGrad lands_updateGrad)
open Run (Lands faultless_of_ok faultless_get faultless_check lands_get
  lands_check lands_after lands_forM reports_get_or reports_check_or)
open Tensor (lands_onFloats reports_onFloatPair_or reports_onFloatsAndIndices_or)

/-! ### Forward -/

/-- A max pool succeeds or stops at an empty window. -/
theorem Pool.faultless_forwardMax (i : Pool) :
    (i.forwardMax : Run (Context α) Unit).Faultless c := by
  rcases i.forwardMax_cases (c := c) with h | ⟨_, _, _, _, _, _, _, _, _, ⟨-, hrun⟩ | ⟨_, _, hstop⟩⟩
  · exact h.faultless
  · exact faultless_of_ok hrun
  · exact Run.faultless_of_error hstop

/-- A concatenation copies its blocks, or stops at an operand that cannot be
read. -/
theorem Concat.faultless_forward (i : Concat) :
    (i.forward : Run (Context α) Unit).Faultless c := by
  refine faultless_get (faultless_check fun blocks hblocks => ?_)
  obtain ⟨dest, V, hdest, hsrcs, hcover, rfl⟩ := covers_of_blocks hblocks
  refine faultless_updateWeight fun t ht => (lands_onFloats fun r old hold => ?_).faultless
  subst hold
  obtain rfl : r = dest := shape_eq hdest ht
  rw [Run.forM_map]
  -- an operand may turn out missing at any visit; one that is found fits its block
  refine Run.faultless_forM (fun p hp data => faultless_check fun block hblock => ?_) old
  obtain ⟨hmem, hle⟩ := le_of_mem_layFrom hp
  have hshape : block.shape = (V p.1).shape :=
    shape_eq (hsrcs _ hmem) (weights_of_floats_without hblock).2
  have hdims : block.shape.dims = r.dims.set i.dim (block.shape.dims.getD i.dim 0) := by
    rw [hshape]
    exact Shape.dims_of_agreesExcept (hcover.agrees _ hmem)
  refine (View.performs_insertInto hdims hcover.extent ?_).faultless data
  rw [Nat.zero_add] at hle
  rw [hshape]
  exact hle

namespace BatchNorm

variable (i : BatchNorm α)

omit [Scalar α] in
/-- The entry check looks only at shapes. -/
theorem channels_of_shapeOf {c' : Context α} (h : ∀ id, c'.shapeOf id = c.shapeOf id) :
    i.channels c' = i.channels c := by
  simp only [channels, h]

/-- Updating the running statistics reports, or input and statistics are scalar
values, and these take their share of the current ones. -/
theorem updateStatistics_cases (samples : Nat) {s : Shape} {count : Nat}
    (haxis : s.dims[i.axis]? = some count) (hs : c.shapeOf i.src = .ok s)
    (hm : c.shapeOf i.mean = .ok ⟨[count]⟩) (hv : c.shapeOf i.var = .ok ⟨[count]⟩) :
    (i.updateStatistics ⟨count, samples⟩).Reports c ∨
      ∃ (mean var : View α) (m v : Vector α count),
        c.weights[i.mean]? = some mean.tensor ∧ mean.shape = ⟨[count]⟩ ∧
        c.weights[i.var]? = some var.tensor ∧ var.shape = ⟨[count]⟩ ∧
        i.updateStatistics ⟨count, samples⟩ c = .ok () ((c.setWeight i.mean
          (i.blended m mean).tensor).setWeight i.var (i.blended v var).tensor) := by
  refine reports_get_or (reports_check_or fun src hsrc => ?_)
  have hsrc := weights_of_floats hsrc
  obtain rfl : src.shape = s := shape_eq hs hsrc
  obtain ⟨m, hmean⟩ := i.defined_localMean samples haxis
  obtain ⟨v, hvar⟩ := i.defined_localVariance samples haxis m
  rw [hmean, Run.liftM_ok, pure_bind, hvar, Run.liftM_ok, pure_bind]
  refine reports_updateWeightPair_or fun t u hne ht hu =>
    reports_onFloatPair_or fun r x r' y hx hy => ?_
  subst hx hy
  have hr : r = ⟨[count]⟩ := shape_eq hm ht
  have hr' : r' = ⟨[count]⟩ := shape_eq hv hu
  have ht : c.weights[i.mean]? = some (View.mk r x).tensor := ht
  have hu : c.weights[i.var]? = some (View.mk r' y).tensor := hu
  exact ⟨⟨r, x⟩, ⟨r', y⟩, m, v, ht, hr, hu, hr',
    i.updateStatistics_eq hsrc ht hr hu hr' hmean hvar hne⟩

/-- Statistics that took their share have the shapes they had. -/
theorem shapeOf_blended {count : Nat} {mean var : View α} (m v : Vector α count)
    (hmean : c.weights[i.mean]? = some mean.tensor) (hvar : c.weights[i.var]? = some var.tensor)
    (id : ValueId) : ((c.setWeight i.mean (i.blended m mean).tensor).setWeight i.var
      (i.blended v var).tensor).shapeOf id = c.shapeOf id := by
  have hkeep {old : View α} (new : Vector α count) :
      (i.blended new old).tensor.shape = old.tensor.shape := rfl
  have hfirst := shapeOf_setWeight (Context.shapeOf_eq hmean) (hkeep m)
  have hsecond := shapeOf_setWeight ((hfirst i.var).trans (Context.shapeOf_eq hvar)) (hkeep v)
  rw [hsecond, hfirst]

/-- In training the running statistics change before the output is written; the
shapes stay. -/
theorem faultless_forward (train : Bool) : (i.forward train).Faultless c := by
  refine faultless_get (faultless_check fun ch hch => ?_)
  cases train with
  | false => exact (i.atomic_normalize hch).faultless
  | true =>
      obtain ⟨s, count, rfl, -, haxis, hs, -, -, -, hm, hv⟩ := shapes_of_channels hch
      rcases i.updateStatistics_cases (s.elemCount / count) haxis hs hm hv with
        hreports | ⟨mean, var, m, v, hmean, -, hvar, -, hok⟩
      · exact hreports.bind.faultless
      · have hnormalize := (i.atomic_normalize ((i.channels_of_shapeOf
          (i.shapeOf_blended m v hmean hvar)).trans hch)).faultless
        refine Run.Faultless.bind (faultless_of_ok hok) fun _ c' h' => ?_
        obtain ⟨-, rfl⟩ := EStateM.Result.ok.inj (hok.symm.trans h')
        exact hnormalize

end BatchNorm

namespace Instruction

/-- Forward no instruction faults that can allocate what it brings to life. -/
theorem faultless_forward (i : Instruction α) (train : Bool) (hfits : i.Affords c) :
    (i.forward train).Faultless c := by
  by_cases hatomic : i.mayStopHalfway train = false
  · exact (i.atomic_forward train hatomic hfits).faultless
  · cases i with
    | pool i =>
        have hkind : i.kind = .max := by simpa [mayStopHalfway] using hatomic
        simp only [forward, Pool.forward, hkind]
        exact i.faultless_forwardMax
    | concat i => exact i.faultless_forward
    | batchNorm i => exact i.faultless_forward train
    | _ => exact absurd rfl hatomic

end Instruction

/-! ### Backward: elementwise instructions -/

namespace Unary

variable (i : Unary)

/-- The gradient of an output of as many elements moves back. -/
theorem lands_moveBack {s t : Shape} (hsrc : c₀.shapeOf i.src = .ok s)
    (hdest : c₀.shapeOf i.dest = .ok t) (hsize : t.elemCount = s.elemCount)
    (hc : Mirrors c₀ c) : i.moveBack.Lands (Mirrors c₀) c := by
  refine (lands_ensureGrad hc i.dest).bind fun _ c₁ h₁ => lands_updateGrad h₁ fun c₂ g h₂ hg =>
    lands_check rfl fun out hout => lands_onFloats fun r data hdata => ?_
  obtain rfl : g.shape = s := hg s hsrc
  obtain rfl : out.shape = t := h₂.shape_gradFloats hdest hout
  subst hdata
  exact (View.performs_addInto hsize).faultless data

theorem lands_backwardCopy (hc : c.Mirrored) : i.backwardCopy.Lands (Mirrors c) c := by
  rcases i.requireAlike_cases (c := c) "copy" with h | ⟨hok, s, hsrc, hdest⟩
  · exact h.bind.lands hc.mirrors
  · exact lands_after hok (i.lands_moveBack hsrc hdest rfl hc.mirrors)

theorem lands_backwardReshape (hc : c.Mirrored) : i.backwardReshape.Lands (Mirrors c) c := by
  rcases i.requireEquinumerous_cases (c := c) with h | ⟨hok, s, t, hsrc, hdest, hsize⟩
  · exact h.bind.lands hc.mirrors
  · exact lands_after hok (i.lands_moveBack hsrc hdest hsize hc.mirrors)

end Unary

theorem Activation.lands_backward (f : Activation) (i : Unary) (hc : c.Mirrored) :
    (f.backward i).Lands (Mirrors c) c := by
  rcases i.requireAlike_cases (c := c) "activation" with h | ⟨hok, s, hsrc, hdest⟩
  · exact h.bind.lands hc.mirrors
  refine lands_after hok ((lands_ensureGrad hc.mirrors i.dest).bind fun _ c₁ h₁ =>
    lands_updateGrad h₁ fun c₂ g h₂ hg => lands_check rfl fun dest hd =>
      lands_check rfl fun out hout => lands_onFloats fun r data hdata => ?_)
  obtain rfl : g.shape = s := hg s hsrc
  subst hdata
  exact (f.performs_slopes (h₂.shape_floats hdest hd) (h₂.shape_gradFloats hdest hout)).faultless
    data

namespace Arithmetic

variable (i : Arithmetic)

/-- One operand's contribution. -/
theorem lands_backwardInto (policy : GradientPolicy) {target other : ValueId} {s : Shape}
    (hdest : c₀.shapeOf i.dest = .ok s) (htarget : c₀.shapeOf target = .ok s)
    (hother : c₀.shapeOf other = .ok s) (hc : Mirrors c₀ c) :
    (i.backwardInto policy target other).Lands (Mirrors c₀) c := by
  refine lands_updateGrad hc fun c₂ g h₂ hg => lands_check rfl fun out hout =>
    lands_check rfl fun o ho => lands_onFloats fun r data hdata => ?_
  obtain rfl : g.shape = s := hg s htarget
  subst hdata
  exact (i.performs_contribution policy (h₂.shape_floats hother ho)
    (h₂.shape_gradFloats hdest hout)).faultless data

theorem lands_backward (policy : GradientPolicy) (hc : c.Mirrored) :
    (i.backward policy).Lands (Mirrors c) c := by
  rcases i.requireAlike_cases (c := c) with h | ⟨hok, s, hdest, hlhs, hrhs⟩
  · exact h.bind.lands hc.mirrors
  exact lands_after hok ((lands_ensureGrad hc.mirrors i.dest).bind fun _ c₁ h₁ =>
    (i.lands_backwardInto policy hdest hlhs hrhs h₁).bind fun _ c₂ h₂ =>
      i.lands_backwardInto policy hdest hrhs hlhs h₂)

end Arithmetic

/-! ### Backward: rearrangements -/

/-- Storing reports, or combines what was written with the gradient. -/
theorem GradientPolicy.faultless_store (policy : GradientPolicy)
    {f : (s : Shape) → Run (Vector α s.elemCount) Unit} {s : Shape} {v : List Nat → α}
    (h : (∃ e, f s = Run.report e) ∨ Run.Performs overwrite (f s) (coordinatewise s.dims v))
    (data : Vector α s.elemCount) : (policy.store f s).Faultless data := by
  rcases h with ⟨e, he⟩ | h
  · exact (Run.reports_of_eq (policy.store_report he) data).faultless
  · exact (policy.performs_store h).faultless data

/-- A transposition looks no shape up before it addresses the gradients. -/
theorem Transpose.lands_backward (i : Transpose) (policy : GradientPolicy) (hc : c.Mirrored) :
    (i.backward policy).Lands (Mirrors c) c := by
  refine lands_check hc.mirrors fun inverse _ => (lands_ensureGrad hc.mirrors i.dest).bind
    fun _ c₁ h₁ => lands_updateGrad h₁ fun c₂ g _ _ => lands_check rfl fun out _ =>
      lands_onFloats fun r data _ => ?_
  refine policy.faultless_store
    (v := fun c => out.elem (permuted (inverseShuffle inverse) c)) ?_ data
  refine (out.transposeInto_cases inverse r).imp_right fun ⟨hσ, hr⟩ => ?_
  exact View.performs_transposeInto hσ hr

theorem Concat.lands_backward (i : Concat) (policy : GradientPolicy) (hc : c.Mirrored) :
    (i.backward policy).Lands (Mirrors c) c := by
  refine lands_get (lands_check hc.mirrors fun blocks hblocks => ?_)
  obtain ⟨dest, V, hdest, hsrcs, hcover, rfl⟩ := covers_of_blocks hblocks
  rw [Run.forM_map]
  refine (lands_ensureGrad hc.mirrors i.dest).bind fun _ c₁ h₁ =>
    lands_forM (fun p hp c₂ h₂ => lands_updateGrad h₂ fun c₃ g h₃ hg =>
      lands_check rfl fun out hout => lands_onFloats fun r data hdata => ?_) h₁
  obtain ⟨hmem, hle⟩ := le_of_mem_layFrom hp
  have hg : g.shape = (V p.1).shape := hg _ (hsrcs _ hmem)
  obtain rfl : out.shape = dest := h₃.shape_gradFloats hdest hout
  subst hdata
  -- a mirrored gradient has the shape of its operand, so the block is inside the output
  have hdims : r.dims = out.shape.dims.set i.dim (r.dims.getD i.dim 0) := by
    rw [show r = (V p.1).shape from hg]
    exact Shape.dims_of_agreesExcept (hcover.agrees _ hmem)
  refine policy.faultless_store (v := fun c => out.elem (shift i.dim p.2 c)) (.inr ?_) data
  refine View.performs_extractInto hdims hcover.extent ?_
  rw [Nat.zero_add] at hle
  rw [show r = (V p.1).shape from hg]
  exact hle

/-! ### Backward: images and rows -/

namespace Convolution

variable (i : Convolution)

theorem lands_backward (source : FilterGradSource) (hc : c.Mirrored) :
    (i.backward source).Lands (Mirrors c) c := by
  refine lands_get (lands_check hc.mirrors fun d hd => ?_)
  obtain ⟨s, t, u, v, hs, ht, hu, hv, hfits⟩ := fits_of_dims hd
  refine (lands_ensureGrad hc.mirrors i.dest).bind fun _ c₁ h₁ =>
    lands_get (lands_check h₁ fun _ _ => lands_check h₁ fun _ _ => ?_)
  refine Lands.bind (lands_updateGrad h₁ fun c₂ g h₂ hg => ?_) fun _ c₂ h₂ =>
    Lands.bind (lands_updateGrad h₂ fun c₃ g h₃ hg => ?_) fun _ c₃ h₃ =>
      lands_updateGrad h₃ fun c₄ g h₄ hg => ?_
  · -- every gradient that is updated has the shape of its value, whatever came before
    refine lands_check rfl fun src hsrc => lands_check rfl fun out hout =>
      lands_onFloats fun r data hdata => ?_
    obtain rfl : g.shape = u := hg u hu
    obtain rfl : src.shape = s := h₂.shape_floats hs hsrc
    subst hdata
    exact (i.performs_filterTerms (h₂.shape_gradFloats ht hout) hfits source).faultless data
  · refine lands_check rfl fun filter hfilter => lands_check rfl fun out hout =>
      lands_onFloats fun r data hdata => ?_
    obtain rfl : g.shape = s := hg s hs
    obtain rfl : filter.shape = u := h₃.shape_floats hu hfilter
    subst hdata
    exact (i.performs_inputTerms (h₃.shape_gradFloats ht hout) hfits).faultless data
  · refine lands_check rfl fun out hout => lands_onFloats fun r data hdata => ?_
    obtain rfl : g.shape = v := hg v hv
    subst hdata
    exact (i.performs_biasTerms (h₄.shape_gradFloats ht hout) hfits).faultless data

end Convolution

namespace Pool

variable (i : Pool)

theorem lands_backwardMax (hc : c.Mirrored) : i.backwardMax.Lands (Mirrors c) c := by
  refine lands_get (lands_check hc.mirrors fun d hd => lands_get (lands_check hc.mirrors
    fun coords hcoords => ?_))
  obtain ⟨s, t, hs, ht, hfits⟩ := fits_of_dims hd
  obtain ⟨-, hpairs⟩ := shapeOf_of_savedIn hcoords
  refine (lands_ensureGrad hc.mirrors i.dest).bind fun _ c₁ h₁ =>
    lands_updateGrad h₁ fun c₂ g h₂ hg => lands_check rfl fun out hout =>
      lands_check rfl fun saved hsaved => lands_onFloats fun r data hdata => ?_
  obtain rfl : g.shape = s := hg s hs
  subst hdata
  exact i.faultless_routed (h₂.shape_indices hpairs hsaved) hfits (h₂.shape_gradFloats ht hout) data

theorem lands_backwardAvg (hc : c.Mirrored) : i.backwardAvg.Lands (Mirrors c) c := by
  refine lands_get (lands_check hc.mirrors fun d hd => ?_)
  obtain ⟨s, t, hs, ht, hfits⟩ := fits_of_dims hd
  refine (lands_ensureGrad hc.mirrors i.dest).bind fun _ c₁ h₁ =>
    lands_updateGrad h₁ fun c₂ g h₂ hg => lands_check rfl fun out hout =>
      lands_onFloats fun r data hdata => ?_
  obtain rfl : g.shape = s := hg s hs
  subst hdata
  exact (i.performs_shares hfits (h₂.shape_gradFloats ht hout)).faultless data

end Pool

theorem FullyConnected.lands_backward (i : FullyConnected) (hc : c.Mirrored) :
    i.backward.Lands (Mirrors c) c := by
  refine lands_get (lands_check hc.mirrors fun d hd => ?_)
  obtain ⟨s, t, u, v, hs, ht, hu, hv, hfits⟩ := fits_of_dims hd
  refine (lands_ensureGrad hc.mirrors i.dest).bind fun _ c₁ h₁ =>
    Lands.bind (lands_updateGrad h₁ fun c₂ g h₂ hg => ?_) fun _ c₂ h₂ =>
      Lands.bind (lands_updateGrad h₂ fun c₃ g h₃ hg => ?_) fun _ c₃ h₃ =>
        lands_updateGrad h₃ fun c₄ g h₄ hg => ?_
  · refine lands_check rfl fun src hsrc => lands_check rfl fun filter hfilter =>
      lands_check rfl fun out hout => lands_onFloats fun r data hdata => ?_
    obtain rfl : g.shape = s := hg s hs
    obtain rfl : filter.shape = u := h₂.shape_floats hu hfilter
    have hsrc : src.shape = g.shape := h₂.shape_floats hs hsrc
    subst hdata
    rw [hsrc]
    exact (performs_inputTerms (h₂.shape_gradFloats ht hout) hfits).faultless data
  · refine lands_check rfl fun src hsrc => lands_check rfl fun out hout =>
      lands_onFloats fun r data hdata => ?_
    obtain rfl : g.shape = u := hg u hu
    obtain rfl : src.shape = s := h₃.shape_floats hs hsrc
    subst hdata
    exact (performs_filterTerms (h₃.shape_gradFloats ht hout) hfits).faultless data
  · refine lands_check rfl fun out hout => lands_onFloats fun r data hdata => ?_
    obtain rfl : g.shape = v := hg v hv
    subst hdata
    exact (performs_biasTerms (h₄.shape_gradFloats ht hout) hfits).faultless data

/-! ### Backward: losses -/

theorem Softmax.lands_backward (i : Softmax) (hc : c.Mirrored) :
    i.backward.Lands (Mirrors c) c := by
  refine lands_get (lands_check hc.mirrors fun ⟨rows, columns⟩ hd => lands_get
    (lands_check hc.mirrors fun labels hlabels => lands_check hc.mirrors fun _ hsame => ?_))
  obtain ⟨-, hs, -, hsaved⟩ := shapes_of_dims hd
  rw [eq_of_requireSameShape hsame] at hlabels
  refine lands_updateGrad hc.mirrors fun c₂ g h₂ hg => lands_check rfl fun saved hv =>
    lands_check rfl fun selected hl => lands_onFloats fun r data hdata => ?_
  have hg : g.shape = ⟨[rows, columns]⟩ := hg _ hs
  subst hdata
  exact (performs_terms hg (h₂.shape_floats hsaved hv) (h₂.shape_indices hlabels hl)).faultless data

theorem Regression.lands_backward (i : Regression) (hc : c.Mirrored) :
    i.backward.Lands (Mirrors c) c := by
  refine lands_get (lands_check hc.mirrors fun s hs => lands_check hc.mirrors fun _ hrank =>
    lands_check hc.mirrors fun t ht => lands_check hc.mirrors fun _ hsame => ?_)
  obtain ⟨rows, columns, rfl⟩ := exists_matrix_of_requireRank hrank
  rw [eq_of_requireSameShape hsame] at ht
  refine lands_updateGrad hc.mirrors fun c₂ g h₂ hg => lands_check rfl fun src hsrc =>
    lands_check rfl fun expected he => lands_onFloats fun r data hdata => ?_
  have hg : g.shape = ⟨[rows, columns]⟩ := hg _ hs
  subst hdata
  exact (performs_terms hg (h₂.shape_floats hs hsrc) (h₂.shape_floats ht he)).faultless data

/-! ### Backward: normalizations -/

namespace BatchNorm

variable (i : BatchNorm α)

section Stages

variable {s : Shape} {count : Nat} (haxis : s.dims[i.axis]? = some count)
  (hs : c₀.shapeOf i.src = .ok s) (ht : c₀.shapeOf i.dest = .ok s)
  (hf : c₀.shapeOf i.scale = .ok ⟨[count]⟩) (hb : c₀.shapeOf i.bias = .ok ⟨[count]⟩)
  (hm : c₀.shapeOf i.mean = .ok ⟨[count]⟩) (hv : c₀.shapeOf i.var = .ok ⟨[count]⟩)
  (hc : Mirrors c₀ c)

include haxis hs ht hf hm hv hc in
theorem lands_backwardInput {samples : Nat} (sums : Sums α count) :
    (i.backwardInput ⟨count, samples⟩ sums).Lands (Mirrors c₀) c := by
  refine lands_updateGrad hc fun c₂ g h₂ hg => lands_check rfl fun src hsrc =>
    lands_check rfl fun scale hscale => lands_check rfl fun mean hmean =>
      lands_check rfl fun var hvar => lands_check rfl fun out hout => lands_onFloats
        fun r data hdata => ?_
  obtain rfl : src.shape = s := h₂.shape_floats hs hsrc
  have hg : g.shape = src.shape := hg _ hs
  subst hdata
  exact (i.performs_inputTerms samples sums haxis hg (h₂.shape_floats hf hscale)
    (h₂.shape_floats hm hmean) (h₂.shape_floats hv hvar) (h₂.shape_gradFloats ht hout)).faultless
    data

include haxis hs ht hb hc in
theorem lands_backwardBias : i.backwardBias.Lands (Mirrors c₀) c := by
  refine lands_updateGrad hc fun c₂ g h₂ hg => lands_check rfl fun src hsrc =>
    lands_check rfl fun out hout => lands_onFloats fun r data hdata => ?_
  obtain rfl : src.shape = s := h₂.shape_floats hs hsrc
  have hg : g.shape = ⟨[count]⟩ := hg _ hb
  have hout : out.shape = src.shape := h₂.shape_gradFloats ht hout
  subst hdata
  exact (i.performs_channelTerms haxis hg fun k hk => defined_raw (hout ▸ hk)).faultless data

include haxis hs ht hf hm hv hc in
theorem lands_backwardScale : i.backwardScale.Lands (Mirrors c₀) c := by
  refine lands_updateGrad hc fun c₂ g h₂ hg => lands_check rfl fun src hsrc =>
    lands_check rfl fun mean hmean => lands_check rfl fun var hvar =>
      lands_check rfl fun out hout => lands_onFloats fun r data hdata => ?_
  obtain rfl : src.shape = s := h₂.shape_floats hs hsrc
  have hg : g.shape = ⟨[count]⟩ := hg _ hf
  have hout : out.shape = src.shape := h₂.shape_gradFloats ht hout
  subst hdata
  exact (i.performs_channelTerms haxis hg fun k hk => i.defined_scaleTerm haxis
    (h₂.shape_floats hm hmean) (h₂.shape_floats hv hvar) hout hk).faultless data

end Stages

theorem lands_backward (hc : c.Mirrored) :
    i.backward.Lands (Mirrors c) c := by
  refine lands_get (lands_check hc.mirrors fun ch hch => ?_)
  obtain ⟨s, count, rfl, -, haxis, hs, ht, hf, hb, hm, hv⟩ := shapes_of_channels hch
  refine (lands_ensureGrad hc.mirrors i.dest).bind fun _ c₁ h₁ => lands_get
    (lands_check h₁ fun src hsrc => lands_check h₁ fun mean hmean => lands_check h₁
      fun out hout => ?_)
  obtain rfl : src.shape = s := h₁.shape_floats hs hsrc
  have hmean := h₁.shape_floats hm hmean
  have hout := h₁.shape_gradFloats ht hout
  obtain ⟨sums, hsums⟩ := i.defined_sums haxis hmean hout
  have hcompute : (liftM (i.sums count src mean out) : Run (Context α) _) c₁ = .ok sums c₁ := by
    rw [hsums]
    rfl
  refine lands_after hcompute ?_
  exact (i.lands_backwardInput haxis hs ht hf hm hv h₁ sums).bind fun _ c₂ h₂ =>
    (i.lands_backwardBias haxis hs ht hb h₂).bind fun _ c₃ h₃ =>
      i.lands_backwardScale haxis hs ht hf hm hv h₃

end BatchNorm

theorem LocalResponse.lands_backward (i : LocalResponse α) (policy : GradientPolicy)
    (hc : c.Mirrored) : (i.backward policy).Lands (Mirrors c) c := by
  refine lands_get (lands_check hc.mirrors fun d hd => ?_)
  obtain ⟨-, hs, ht, hu⟩ := shapes_of_dims hd
  refine (lands_ensureGrad hc.mirrors i.dest).bind fun _ c₁ h₁ =>
    lands_updateGrad h₁ fun c₂ g h₂ hg => lands_check rfl fun src hsrc =>
      lands_check rfl fun dest hdest => lands_check rfl fun out hout =>
        lands_check rfl fun scale hscale => lands_onFloats fun r data hdata => ?_
  have hg : g.shape = d.toShape := hg _ hs
  subst hdata
  exact (i.performs_inputTerms policy hg (h₂.shape_floats hs hsrc) (h₂.shape_floats ht hdest)
    (h₂.shape_floats hu hscale) (h₂.shape_gradFloats ht hout)).faultless data

/-! ### Every instruction -/

namespace Instruction

variable (i : Instruction α)

/-- On a mirrored context, running backward does not fault and leaves the
gradients mirrored. -/
theorem lands_backward (config : Config α) (hc : c.Mirrored) :
    (i.backward config).Lands (Mirrors c) c := by
  cases i with
  | copy i => exact i.lands_backwardCopy hc
  | reshape i => exact i.lands_backwardReshape hc
  | activation f i => exact f.lands_backward i hc
  | convolution i => exact i.lands_backward config.filterGradSource hc
  | pool i =>
      rcases hkind : i.kind with - | -
      · simp only [backward, Pool.backward, hkind]
        exact i.lands_backwardMax hc
      · simp only [backward, Pool.backward, hkind]
        exact i.lands_backwardAvg hc
  | fullyConnected i => exact i.lands_backward hc
  | softmax i => exact i.lands_backward hc
  | regression i => exact i.lands_backward hc
  | transpose i => exact i.lands_backward config.gradientPolicy hc
  | concat i => exact i.lands_backward config.gradientPolicy hc
  | batchNorm i => exact i.lands_backward hc
  | localResponse i => exact i.lands_backward config.gradientPolicy hc
  | arithmetic i => exact i.lands_backward config.gradientPolicy hc
  | alloc dest => exact Run.lands_pure () hc.mirrors
  | dealloc src => exact Run.lands_pure () hc.mirrors

theorem mirrored_pairedVector : pairedVector.Mirrored := by
  intro id t g ht hg
  rw [pairedVector, Context.grads_setGrad] at hg
  split at hg
  · rename_i hid
    rw [pairedVector, Context.setGrad, Context.weights_setWeight, if_pos hid] at ht
    obtain rfl := Option.some.inj hg
    obtain rfl := Option.some.inj ht
    rfl
  · cases hg

/-- Three elements whose gradient has two are addressed beyond its end. -/
def shortGradient : Context Float32 :=
  ((({} : Context Float32).setWeight 0 (.full 1 ⟨[3]⟩)).setWeight 1 (.full 1 ⟨[3]⟩)).setGrad 1
    (.full 1 ⟨[2]⟩)

example : ∃ c', (.activation .relu ⟨1, 0⟩ : Instruction Float32).backward .default shortGradient
    = .error .fault c' := ⟨_, rfl⟩

end Instruction

end TensorProgram
