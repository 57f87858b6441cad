/-
TensorProgram/Proofs/Kernel/BatchNorm.lean

What a normalization by running statistics computes.  The output is normalized
element by element (`BatchNorm.forward_eq`); in training the running statistics
are blended with the mean and variance of the input first
(`BatchNorm.forward_train_eq`).  Without a channel both directions stop before
they write anything.  The way back makes three deposits, to input, bias and
scale (`BatchNorm.backward_eq`).
-/
import TensorProgram.Kernel.BatchNorm
import TensorProgram.Proofs.Kernel.Elementwise

namespace TensorProgram.BatchNorm

variable {α : Type} [Scalar α]

open Context (shapeOf_eq floats_eq floats_of_weights_eq floats_withoutWeight gradFloats_eq
  weights_setWeight_of_ne updateWeight_fills updateWeightPair_of_ok Deposits deposits_updateGrad)
open Run (Performs performs_scatter_inside performs_scatter_of_defined liftM_check_ok)
open Shape (flat)

/-! ### Shapes -/

/-- The operands are bound to tensors with this many channels along the axis. -/
structure Bound (i : BatchNorm α) (c : Context α) (count : Nat)
    (src scale bias mean var : View α) : Prop where
  /-- The input. -/
  input : c.weights[i.src]? = some src.tensor
  /-- The channels of the input. -/
  axis : src.shape.dims[i.axis]? = some count
  /-- The output has the shape of the input. -/
  output : ∃ old : Vector α src.shape.elemCount,
    c.weights[i.dest]? = some ⟨src.shape, .float old⟩
  /-- One factor for every channel. -/
  factors : c.weights[i.scale]? = some scale.tensor ∧ scale.shape = ⟨[count]⟩
  /-- One summand for every channel. -/
  summands : c.weights[i.bias]? = some bias.tensor ∧ bias.shape = ⟨[count]⟩
  /-- One running mean for every channel. -/
  means : c.weights[i.mean]? = some mean.tensor ∧ mean.shape = ⟨[count]⟩
  /-- One running variance for every channel. -/
  variances : c.weights[i.var]? = some var.tensor ∧ var.shape = ⟨[count]⟩

variable (i : BatchNorm α) {c : Context α} {count : Nat} {src scale bias mean var out : View α}

/-- The channels of an input of this shape. -/
def channelsOf (count : Nat) (s : Shape) : Channels := ⟨count, s.elemCount / count⟩

variable {i}

omit [Scalar α] in
theorem Bound.channels_eq (h : i.Bound c count src scale bias mean var) :
    i.channels c = if count = 0 then .error .zeroBatchNormChannels
      else .ok (channelsOf count src.shape) := by
  obtain ⟨old, hdest⟩ := h.output
  have hinput : src.tensor.shape = src.shape := rfl
  have hdim : src.shape.dim i.axis = .ok count := by rw [Shape.dim, h.axis]
  have hscale : scale.tensor.shape = ⟨[count]⟩ := h.factors.2
  have hbias : bias.tensor.shape = ⟨[count]⟩ := h.summands.2
  have hmean : mean.tensor.shape = ⟨[count]⟩ := h.means.2
  have hvar : var.tensor.shape = ⟨[count]⟩ := h.variances.2
  rw [channels, shapeOf_eq h.input, shapeOf_eq hdest, shapeOf_eq h.factors.1,
    shapeOf_eq h.summands.1, shapeOf_eq h.means.1, shapeOf_eq h.variances.1, hscale, hbias, hmean,
    hvar, hinput]
  simp only [Except.ok_bind, requireSameShape_self, hdim]
  by_cases hzero : count = 0
  · rw [if_pos hzero, if_pos hzero]
    rfl
  · rw [if_neg hzero, if_neg hzero]
    rfl

/-- Without a channel a normalization stops before it writes. -/
theorem forward_stops (h : i.Bound c count src scale bias mean var) (hzero : count = 0)
    (train : Bool) : i.forward train c = .error (.error .zeroBatchNormChannels) c := by
  rw [forward, Run.get_bind_apply, h.channels_eq, if_pos hzero]
  rfl

/-! ### Channels of elements -/

variable (i)

/-- The parameters of an element are those of its channel. -/
theorem ofChannel_eq {parameter : View α} (hp : parameter.shape = ⟨[count]⟩) {ch : Nat}
    (hch : ch < count) {k : Nat} (hk : i.channel src k = .ok ch) :
    i.ofChannel src parameter k = .ok (parameter.elem [ch]) := by
  rw [ofChannel, hk, Except.ok_bind]
  refine parameter.get_eq ?_ ?_
  · rw [hp]
    exact ⟨hch, Shape.inside_nil _⟩
  · rw [hp]
    rfl

section Elements

variable (haxis : src.shape.dims[i.axis]? = some count) {k : Nat} (hk : k < src.shape.elemCount)

include haxis hk

omit [Scalar α] in
/-- Every element belongs to a channel. -/
theorem exists_channel : ∃ ch, ch < count ∧ i.channel src k = .ok ch :=
  Shape.coordinate_eq_ok haxis hk

omit [Scalar α] in
/-- The channel of an element has a position among the channels. -/
theorem channel_position {s : Shape} (hs : s = ⟨[count]⟩) :
    ∃ p, (do s.position [← i.channel src k] : Outcome Nat) = .ok p ∧ p < s.elemCount := by
  obtain ⟨ch, hch, hok⟩ := i.exists_channel haxis hk
  have hin : Shape.Inside s.dims [ch] := by
    subst hs
    exact ⟨hch, Shape.inside_nil _⟩
  refine ⟨flat s.dims [ch], ?_, Shape.flat_lt hin (by subst hs; rfl)⟩
  rw [hok, Except.ok_bind]
  exact Shape.position_eq hin

/-- Every parameter has an element for the channel of an element. -/
theorem defined_ofChannel {parameter : View α} (hp : parameter.shape = ⟨[count]⟩) :
    (i.ofChannel src parameter k).Defined := by
  obtain ⟨ch, hch, hok⟩ := i.exists_channel haxis hk
  exact ⟨_, i.ofChannel_eq hp hch hok⟩

end Elements

theorem defined_raw {v : View α} {k : Nat} (hk : k < v.shape.elemCount) : (v.raw k).Defined :=
  ⟨_, v.raw_eq hk⟩

/-- The sums over channels are defined if their terms are. -/
theorem defined_channelSums (haxis : src.shape.dims[i.axis]? = some count) {term : Nat → Outcome α}
    (hterm : ∀ k < src.shape.elemCount, (term k).Defined) :
    (i.channelSums count src term).Defined := by
  have hscatter : Performs accumulate (scatter accumulate (List.range src.size) (i.channel src) term :
      Run (Vector α count) Unit) _ :=
    performs_scatter_of_defined (fun k hk => hterm k (List.mem_range.mp hk)) fun k hk => by
      obtain ⟨ch, hlt, hok⟩ := i.exists_channel haxis (List.mem_range.mp hk)
      exact ⟨ch, hok, hlt⟩
  exact ⟨_, by rw [channelSums, written, hscatter.run]⟩

/-- The current means are defined. -/
theorem defined_localMean (samples : Nat) (haxis : src.shape.dims[i.axis]? = some count) :
    (i.localMean ⟨count, samples⟩ src).Defined := by
  unfold localMean
  exact (i.defined_channelSums haxis fun k hk => defined_raw hk).bind
    fun _ _ => Outcome.defined_ok _

/-- The current variances are defined. -/
theorem defined_localVariance (samples : Nat) (haxis : src.shape.dims[i.axis]? = some count)
    (m : Vector α count) : (i.localVariance ⟨count, samples⟩ src m).Defined := by
  unfold localVariance
  refine (i.defined_channelSums haxis fun k hk => ?_).bind fun _ _ => Outcome.defined_ok _
  obtain ⟨ch, hlt, hok⟩ := i.exists_channel haxis hk
  rw [hok, Except.ok_bind, src.raw_eq hk, Except.ok_bind]
  dsimp only
  rw [Vector.getElem?_eq_getElem hlt]
  exact Outcome.defined_ok _

/-! ### Forward -/

/-- The output by these running statistics. -/
def normalized (src scale bias mean var : View α) : View α :=
  ⟨src.shape, filled _ (pointwise src.shape.elemCount fun k =>
    (i.value src scale bias mean var k).orZero)⟩

/-- Normalizing by the bound statistics. -/
theorem normalize_eq (h : i.Bound c count src scale bias mean var) (hsrc : i.dest ≠ i.src)
    (hscale : i.dest ≠ i.scale) (hbias : i.dest ≠ i.bias) (hmean : i.dest ≠ i.mean)
    (hvar : i.dest ≠ i.var) :
    i.normalize c = .ok () (c.setWeight i.dest
      (i.normalized src scale bias mean var).tensor) := by
  obtain ⟨old, hdest⟩ := h.output
  apply updateWeight_fills hdest
  · rw [floats_withoutWeight hsrc h.input, floats_withoutWeight hscale h.factors.1,
      floats_withoutWeight hbias h.summands.1, floats_withoutWeight hmean h.means.1,
      floats_withoutWeight hvar h.variances.1]
    simp only [liftM_check_ok, pure_bind]
    rfl
  · refine fills_pointwise fun k hk => Outcome.Defined.eq_orZero ?_
    have hparameter {p : View α} (hp : p.shape = ⟨[count]⟩) : (i.ofChannel src p k).Defined :=
      i.defined_ofChannel h.axis hk hp
    exact (hparameter h.variances.2).bind fun _ _ => (defined_raw hk).bind fun _ _ =>
      (hparameter h.means.2).bind fun _ _ => (hparameter h.factors.2).bind fun _ _ =>
        (hparameter h.summands.2).bind fun _ _ => Outcome.defined_ok _

/-- The output outside training. -/
theorem forward_eq (h : i.Bound c count src scale bias mean var) (hpos : count ≠ 0)
    (hsrc : i.dest ≠ i.src) (hscale : i.dest ≠ i.scale) (hbias : i.dest ≠ i.bias)
    (hmean : i.dest ≠ i.mean) (hvar : i.dest ≠ i.var) :
    i.forward false c = .ok () (c.setWeight i.dest
      (i.normalized src scale bias mean var).tensor) := by
  rw [forward, Run.get_bind_apply, h.channels_eq, if_neg hpos, liftM_check_ok, pure_bind]
  exact i.normalize_eq h hsrc hscale hbias hmean hvar

/-- A running statistic after the current one took its share. -/
def blended (current : Vector α count) (old : View α) : View α :=
  ⟨old.shape, applyWrites i.blend
    ((List.finRange count).map fun ch => (flat [count] [ch.val], current.get ch)) old.data⟩

theorem performs_blendInto {s : Shape} (hs : s = ⟨[count]⟩) (current : Vector α count) :
    Performs i.blend (i.blendInto current s)
      ((List.finRange count).map fun ch => (flat [count] [ch.val], current.get ch)) :=
  performs_scatter_inside hs (fun _ _ => rfl) (fun ch _ => ⟨ch.isLt, Shape.inside_nil _⟩)
    fun _ _ => rfl

/-- Blending the running statistics with these means and variances. -/
theorem updateStatistics_eq (hsrc : c.weights[i.src]? = some src.tensor)
    (hmean : c.weights[i.mean]? = some mean.tensor) (hmeans : mean.shape = ⟨[count]⟩)
    (hvar : c.weights[i.var]? = some var.tensor) (hvars : var.shape = ⟨[count]⟩) {samples : Nat}
    {m v : Vector α count} (hm : i.localMean ⟨count, samples⟩ src = .ok m)
    (hv : i.localVariance ⟨count, samples⟩ src m = .ok v) (hne : i.mean ≠ i.var) :
    i.updateStatistics ⟨count, samples⟩ c = .ok () ((c.setWeight i.mean (i.blended m mean).tensor
      ).setWeight i.var (i.blended v var).tensor) := by
  rw [updateStatistics, Run.get_bind_apply, floats_eq hsrc, liftM_check_ok, pure_bind, hm,
    Run.liftM_ok, pure_bind, hv, Run.liftM_ok, pure_bind]
  apply updateWeightPair_of_ok hne hmean hvar
  apply Tensor.onFloatPair_of_ok
  have hblend := (i.performs_blendInto hmeans m).run mean.data
  have hblend' := (i.performs_blendInto hvars v).run var.data
  have hfst : Run.onFst (i.blendInto m mean.shape) (mean.data, var.data)
      = .ok () ((i.blended m mean).data, var.data) := by
    rw [Run.onFst, hblend]
    rfl
  have hsnd : Run.onSnd (i.blendInto v var.shape) ((i.blended m mean).data, var.data)
      = .ok () ((i.blended m mean).data, (i.blended v var).data) := by
    rw [Run.onSnd, hblend']
    rfl
  exact (Run.bind_of_ok hfst).trans hsnd

omit [Scalar α] in
/-- New running statistics leave all other weights as they are. -/
theorem weights_statistics {t u : Tensor α} {id : ValueId} (hmean : i.mean ≠ id)
    (hvar : i.var ≠ id) :
    ((c.setWeight i.mean t).setWeight i.var u).weights[id]? = c.weights[id]? := by
  rw [weights_setWeight_of_ne hvar, weights_setWeight_of_ne hmean]

/-- The running statistics and the output in training: the statistics take
their share first. -/
theorem forward_train_eq (h : i.Bound c count src scale bias mean var) (hpos : count ≠ 0)
    {m v : Vector α count} (hm : i.localMean (channelsOf count src.shape) src = .ok m)
    (hv : i.localVariance (channelsOf count src.shape) src m = .ok v) (hsrc : i.dest ≠ i.src)
    (hscale : i.dest ≠ i.scale) (hbias : i.dest ≠ i.bias) (hmean : i.dest ≠ i.mean)
    (hvar : i.dest ≠ i.var) (hmv : i.mean ≠ i.var) (hms : i.mean ∉ [i.src, i.scale, i.bias])
    (hvs : i.var ∉ [i.src, i.scale, i.bias]) :
    i.forward true c = .ok () (((c.setWeight i.mean (i.blended m mean).tensor).setWeight i.var
      (i.blended v var).tensor).setWeight i.dest
        (i.normalized src scale bias (i.blended m mean) (i.blended v var)).tensor) := by
  rw [forward, Run.get_bind_apply, h.channels_eq, if_neg hpos, liftM_check_ok, pure_bind]
  refine (Run.bind_of_ok (i.updateStatistics_eq h.input h.means.1 h.means.2 h.variances.1
    h.variances.2 hm hv hmv)).trans ?_
  refine i.normalize_eq (?_ : i.Bound _ count _ _ _ _ _) hsrc hscale hbias hmean hvar
  simp only [List.mem_cons, List.not_mem_nil, or_false, not_or] at hms hvs
  refine ⟨?_, h.axis, ?_, ⟨?_, h.factors.2⟩, ⟨?_, h.summands.2⟩, ⟨?_, h.means.2⟩,
    ⟨Context.weights_setWeight_self, h.variances.2⟩⟩
  · rw [i.weights_statistics hms.1 hvs.1, h.input]
  · rw [i.weights_statistics hmean.symm hvar.symm]
    exact h.output
  · rw [i.weights_statistics hms.2.1 hvs.2.1, h.factors.1]
  · rw [i.weights_statistics hms.2.2 hvs.2.2, h.summands.1]
  · rw [weights_setWeight_of_ne hmv.symm, Context.weights_setWeight_self]

/-! ### Backward -/

/-- The contributions to the input gradient. -/
def inputTerms (ch : Channels) (sums : Sums α ch.count) (src scale mean var out : View α) :
    List (Nat × α) :=
  pointwise src.shape.elemCount fun k => (i.slope ch sums src scale mean var out k).orZero

/-- Contributions that every element makes at its channel. -/
def channelTerms (src : View α) (s : Shape) (term : Nat → Outcome α) : List (Nat × α) :=
  (List.range src.size).map fun k =>
    ((do s.position [← i.channel src k] : Outcome Nat).orZero, (term k).orZero)

/-- What an element contributes to the scale of its channel. -/
def scaleTerm (src mean var out : View α) (k : Nat) : Outcome α := do
  let r := i.inverseDeviation (← i.ofChannel src var k)
  return ((← src.raw k) - (← i.ofChannel src mean k)) * r * (← out.raw k)

/-- Adding a defined term of every element at its channel. -/
theorem performs_channelTerms (haxis : src.shape.dims[i.axis]? = some count) {s : Shape}
    (hs : s = ⟨[count]⟩) {term : Nat → Outcome α}
    (hterm : ∀ k < src.shape.elemCount, (term k).Defined) :
    Performs accumulate (scatter accumulate (List.range src.size)
      (fun k => do s.position [← i.channel src k]) term : Run (Vector α s.elemCount) Unit)
      (i.channelTerms src s term) :=
  performs_scatter_of_defined (fun k hk => hterm k (List.mem_range.mp hk))
    fun _ hk => i.channel_position haxis (List.mem_range.mp hk) hs

/-- Adding the contribution of every element to its input gradient. -/
theorem performs_inputTerms {s : Shape} (samples : Nat) (sums : Sums α count)
    (haxis : src.shape.dims[i.axis]? = some count) (hs : s = src.shape)
    (hscale : scale.shape = ⟨[count]⟩) (hmean : mean.shape = ⟨[count]⟩)
    (hvar : var.shape = ⟨[count]⟩) (hout : out.shape = src.shape) :
    Performs accumulate (scatter accumulate (List.range src.size) atPosition
        (i.slope ⟨count, samples⟩ sums src scale mean var out) : Run (Vector α s.elemCount) Unit)
      (i.inputTerms ⟨count, samples⟩ sums src scale mean var out) := by
  subst hs
  refine performs_pointwise (fun k hk => Outcome.Defined.eq_orZero ?_) (Nat.le_refl _)
  have hparameter {p : View α} (hp : p.shape = ⟨[count]⟩) : (i.ofChannel src p k).Defined :=
    i.defined_ofChannel haxis hk hp
  obtain ⟨ch, hlt, hok⟩ := i.exists_channel haxis hk
  rw [slope, hok, Except.ok_bind]
  refine (hparameter hvar).bind fun _ _ => (defined_raw (hout ▸ hk)).bind fun _ _ =>
    (defined_raw hk).bind fun _ _ => (hparameter hmean).bind fun _ _ =>
      (hparameter hscale).bind fun _ _ => ?_
  rw [Vector.getElem?_eq_getElem hlt, Vector.getElem?_eq_getElem hlt]
  exact Outcome.defined_ok _

/-- Every element has a contribution to the scale of its channel. -/
theorem defined_scaleTerm (haxis : src.shape.dims[i.axis]? = some count)
    (hmean : mean.shape = ⟨[count]⟩) (hvar : var.shape = ⟨[count]⟩) (hout : out.shape = src.shape)
    {k : Nat} (hk : k < src.shape.elemCount) : (i.scaleTerm src mean var out k).Defined :=
  (i.defined_ofChannel haxis hk hvar).bind fun _ _ => (defined_raw hk).bind fun _ _ =>
    (i.defined_ofChannel haxis hk hmean).bind fun _ _ => (defined_raw (hout ▸ hk)).bind
      fun _ _ => Outcome.defined_ok _

/-- The sums over channels that the way back needs are defined. -/
theorem defined_sums (haxis : src.shape.dims[i.axis]? = some count)
    (hmean : mean.shape = ⟨[count]⟩) (hout : out.shape = src.shape) :
    (i.sums count src mean out).Defined := by
  unfold sums
  refine (i.defined_channelSums haxis fun k hk => ?_).bind fun _ _ =>
    (i.defined_channelSums haxis fun k hk => defined_raw (hout ▸ hk)).bind fun _ _ =>
      Outcome.defined_ok _
  exact (defined_raw (hout ▸ hk)).bind fun _ _ => (defined_raw hk).bind fun _ _ =>
    (i.defined_ofChannel haxis hk hmean).bind fun _ _ => Outcome.defined_ok _

section Backward

variable (h : i.Bound c count src scale bias mean var) (houts : out.shape = src.shape)

include h houts

theorem deposits_backwardInput (samples : Nat) (sums : Sums α count) (hne : i.src ≠ i.dest)
    (hgrad : c.HasGrad i.src src.shape) :
    Deposits c i.dest out accumulate (i.backwardInput ⟨count, samples⟩ sums)
      [(i.src, i.inputTerms ⟨count, samples⟩ sums src scale mean var out)] := by
  apply deposits_updateGrad hne hgrad
  · intro c' hweights hgrads
    rw [floats_of_weights_eq hweights h.input, floats_of_weights_eq hweights h.factors.1,
      floats_of_weights_eq hweights h.means.1, floats_of_weights_eq hweights h.variances.1,
      gradFloats_eq hgrads]
    simp only [liftM_check_ok, pure_bind]
    rfl
  · exact i.performs_inputTerms samples sums h.axis rfl h.factors.2 h.means.2 h.variances.2 houts

theorem deposits_backwardBias (hne : i.bias ≠ i.dest) (hgrad : c.HasGrad i.bias bias.shape) :
    Deposits c i.dest out accumulate i.backwardBias
      [(i.bias, i.channelTerms src bias.shape out.raw)] := by
  apply deposits_updateGrad hne hgrad
  · intro c' hweights hgrads
    rw [floats_of_weights_eq hweights h.input, gradFloats_eq hgrads]
    simp only [liftM_check_ok, pure_bind]
    rfl
  · exact i.performs_channelTerms h.axis h.summands.2 fun k hk => defined_raw (houts ▸ hk)

theorem deposits_backwardScale (hne : i.scale ≠ i.dest) (hgrad : c.HasGrad i.scale scale.shape) :
    Deposits c i.dest out accumulate i.backwardScale
      [(i.scale, i.channelTerms src scale.shape (i.scaleTerm src mean var out))] := by
  apply deposits_updateGrad hne hgrad
  · intro c' hweights hgrads
    rw [floats_of_weights_eq hweights h.input, floats_of_weights_eq hweights h.means.1,
      floats_of_weights_eq hweights h.variances.1, gradFloats_eq hgrads]
    simp only [liftM_check_ok, pure_bind]
    rfl
  · exact i.performs_channelTerms h.axis h.factors.2 fun k hk =>
      i.defined_scaleTerm h.axis h.means.2 h.variances.2 houts hk

/-- The contributions of a normalization, to input, bias and scale in this
order. -/
theorem backward_eq (hpos : count ≠ 0) {sums : Sums α count}
    (hsums : i.sums count src mean out = .ok sums) (hs : i.src ≠ i.dest) (hb : i.bias ≠ i.dest)
    (hf : i.scale ≠ i.dest) (hgs : c.HasGrad i.src src.shape)
    (hgb : c.HasGrad i.bias bias.shape) (hgf : c.HasGrad i.scale scale.shape)
    (hout : c.gradOrZeros i.dest = .ok out.tensor) :
    i.backward c = .ok () (c.deposits accumulate [(i.dest, []),
      (i.src, i.inputTerms (channelsOf count src.shape) sums src scale mean var out),
      (i.bias, i.channelTerms src bias.shape out.raw),
      (i.scale, i.channelTerms src scale.shape (i.scaleTerm src mean var out))]) := by
  rw [backward, Run.get_bind_apply, h.channels_eq, if_neg hpos, liftM_check_ok, pure_bind]
  apply Deposits.backward hout
  have hstages := (i.deposits_backwardInput h houts (src.shape.elemCount / count) sums
    hs hgs).bind ((i.deposits_backwardBias h houts hb hgb).bind
      (i.deposits_backwardScale h houts hf hgf))
  refine ⟨hstages.ne, fun c' hserves => ?_⟩
  rw [Run.get_bind_apply, floats_eq (hserves.weight h.input), floats_eq (hserves.weight h.means.1),
    gradFloats_eq hserves.grad]
  have hsums' : i.sums (channelsOf count src.shape).count src mean out = .ok sums := hsums
  simp only [liftM_check_ok, pure_bind]
  rw [hsums']
  exact hstages.run c' hserves

end Backward

end TensorProgram.BatchNorm
