/-
TensorProgram/Proofs/Kernel/ChannelBalance.lean

The way back of a normalization by running statistics, channel by channel.  With
`N` the number of elements of a channel, `dy` the gradient of an output, `x - μ` the
distance of an input from the running mean and `r` one over the root of the running
variance, an element of the input gradient gains

  `1/N * scale * r * (N dy - Σ dy - (x - μ) / (v + ε) * Σ dy (x - μ))`.

The first two terms cancel over a channel, because what the kernel takes for `N`,
the number of elements over that of channels, is the number of elements that it
visits there.  What the channel gains altogether is therefore proportional to
`Σ (x - μ)`, which vanishes where `μ` is the mean of the channel.

A way back that succeeds has found its operands (`exists_bound_of_backward`), and
its deposits are read at one coordinate (`total_inputTerms`, `total_channelTerms`).
Main statement: `BatchNorm.backward_balances`.
-/
import TensorProgram.Proofs.Kernel.ChannelStatistics
import TensorProgram.Proofs.Kernel.Gathering

namespace TensorProgram

open Context (weights_setWeight_of_ne weights_setWeight_self writesTo_cons writesTo_nil)
open Run (exists_of_bind_ok exists_of_check_ok exists_of_compute_ok get_bind_apply)
open Shape (flat)

/-- Of one contribution for every position, that of the position counts. -/
theorem total_pointwise {K : Type} [ExactScalar K] {n k : Nat} (f : Nat → K) (hk : k < n) :
    total (pointwise n f) k = f k := by
  rw [total, pointwise, List.map_map, Function.comp_def, sum_map_range, Finset.sum_ite_eq',
    if_pos (Finset.mem_range.mpr hk)]

namespace BatchNorm

/-! ### Operands -/

section Operands

variable {α : Type} [Scalar α] {i : BatchNorm α} {c c' : Context α}

omit [Scalar α] in
/-- The weights that take a gradient are distinct, and so is the output. -/
theorem ne_of_nodup_backward (hids : [i.dest, i.src, i.scale, i.bias, i.mean, i.var].Nodup) :
    i.dest ≠ i.src ∧ i.dest ≠ i.scale ∧ i.dest ≠ i.bias ∧ i.src ≠ i.scale ∧ i.src ≠ i.bias ∧
      i.scale ≠ i.bias := by
  simp only [List.nodup_cons, List.mem_cons, List.not_mem_nil, or_false, not_or] at hids
  tauto

/-- A way back that succeeds has found its operands: five weights of scalars, and the
gradient of the output, or the zeros it starts from. -/
theorem exists_bound_of_backward (hids : [i.dest, i.src, i.scale, i.bias, i.mean, i.var].Nodup)
    (hc : c.Mirrored) (hrun : i.backward c = .ok () c') :
    ∃ (count : Nat) (src scale bias mean var out : View α), count ≠ 0 ∧
      i.Bound c count src scale bias mean var ∧ c.gradOrZeros i.dest = .ok out.tensor ∧
      out.shape = src.shape := by
  obtain ⟨hds, -, hdb, -, hsb, -⟩ := ne_of_nodup_backward hids
  rw [backward, get_bind_apply] at hrun
  obtain ⟨ch, hch, hrun⟩ := exists_of_check_ok hrun
  obtain ⟨s, count, rfl, hpos, haxis, hs, ht, hf, hb, hm, hv⟩ := shapes_of_channels hch
  obtain ⟨_, c₁, hensure, hrun⟩ := exists_of_bind_ok hrun
  obtain ⟨g, hg, rfl⟩ := Context.of_ensureGrad_ok hensure
  rw [get_bind_apply] at hrun
  obtain ⟨_, -, hrun⟩ := exists_of_check_ok hrun
  obtain ⟨_, -, hrun⟩ := exists_of_check_ok hrun
  obtain ⟨out, hout, hrun⟩ := exists_of_check_ok hrun
  obtain ⟨_, -, hrun⟩ := exists_of_compute_ok hrun
  obtain ⟨_, c₂, hinput, hrun⟩ := exists_of_bind_ok hrun
  obtain ⟨_, c₃, hbias, -⟩ := exists_of_bind_ok hrun
  -- the sums read the gradient of the output
  have hout := Context.grads_of_gradFloats hout
  rw [Context.grads_setGrad_self] at hout
  obtain rfl := Option.some.inj hout
  -- the first pass reads all weights but the bias
  obtain ⟨_, gs, -, hinner, rfl⟩ := Context.of_updateGrad_ok hinput
  obtain ⟨src, hsrc, hinner⟩ := exists_of_check_ok hinner
  obtain ⟨scale, hscale, hinner⟩ := exists_of_check_ok hinner
  obtain ⟨mean, hmean, hinner⟩ := exists_of_check_ok hinner
  obtain ⟨var, hvar, -⟩ := exists_of_check_ok hinner
  -- and the second one finds a gradient of scalars for the bias
  obtain ⟨gb, _, hgb, hinner, -⟩ := Context.of_updateGrad_ok hbias
  obtain ⟨_, -, hinner⟩ := exists_of_check_ok hinner
  obtain ⟨_, -, hinner⟩ := exists_of_check_ok hinner
  obtain ⟨u, data, _, rfl, -⟩ := Tensor.of_onFloats_ok hinner
  have hkeep : ((c.setGrad i.dest out.tensor).setGrad i.src gs).gradOrZeros i.bias
      = c.gradOrZeros i.bias := by
    refine Context.gradOrZeros_congr rfl rfl ?_
    rw [Context.grads_setGrad_of_ne hsb, Context.grads_setGrad_of_ne hdb]
  have hsrc := Context.weights_of_floats hsrc
  have hscale := Context.weights_of_floats hscale
  have hmean := Context.weights_of_floats hmean
  have hvar := Context.weights_of_floats hvar
  obtain rfl : src.shape = s := Context.shape_eq hs hsrc
  obtain ⟨hout, old, hdest, hold⟩ := hc.exists_weight hg ht
  obtain ⟨-, bias, hbias, hshape⟩ :=
    hc.exists_weight (g := ⟨u, data⟩) (hkeep.symm.trans hgb) hb
  refine ⟨count, src, scale, bias, mean, var, out, hpos, ⟨hsrc, haxis, ?_,
    ⟨hscale, Context.shape_eq hf hscale⟩, ⟨hbias, hshape⟩, ⟨hmean, Context.shape_eq hm hmean⟩,
    ⟨hvar, Context.shape_eq hv hvar⟩⟩, hg, hout⟩
  obtain ⟨t, data⟩ := old
  subst hold
  exact ⟨data, hdest⟩

end Operands

/-! ### What the gradients gain -/

section Gains

variable {K : Type} [ExactScalar K] (i : BatchNorm K) {src scale bias mean var out : View K}
  {count : Nat} {c c' : Context K}

/-- The sum over the elements of a channel. -/
def channelSum (s : Shape) (ch : Nat) (f : List Nat → K) : K := ((s.slice i.axis ch).map f).sum

section Linear

variable (s : Shape) (ch : Nat) (f g : List Nat → K)

theorem channelSum_sub : i.channelSum s ch (fun coord => f coord - g coord)
    = i.channelSum s ch f - i.channelSum s ch g := by
  rw [eq_sub_iff_add_eq, channelSum, channelSum, channelSum, ← List.sum_map_add]
  simp only [sub_add_cancel]

theorem channelSum_mul_left (r : K) :
    i.channelSum s ch (fun coord => r * f coord) = r * i.channelSum s ch f :=
  List.sum_map_mul_left _ f r

theorem channelSum_const (r : K) :
    i.channelSum s ch (fun _ => r) = (s.slice i.axis ch).length * r := by
  rw [channelSum, List.map_const', List.sum_replicate, nsmul_eq_mul]

end Linear

/-- The sum over a channel of the output gradients times the distances of the inputs
from the running mean. -/
def gradTimesDistance (src mean out : View K) (ch : Nat) : K :=
  i.channelSum src.shape ch fun coord => out.elem coord * (src.elem coord - mean.elem [ch])

/-- The sums over every channel that the input gradient depends on. -/
def channelTotals (count : Nat) (src mean out : View K) : Sums K count where
  gradTimesDistance := .ofFn fun ch => i.gradTimesDistance src mean out ch.val
  grad := .ofFn fun ch => i.channelSum src.shape ch.val out.elem

/-- What the bias gradient gains at a coordinate. -/
def biasGain (src out : View K) : List Nat → K
  | [ch] => i.channelSum src.shape ch out.elem
  | _ => 0

/-- What the scale gradient gains at a coordinate. -/
def scaleGain (src mean var out : View K) : List Nat → K
  | [ch] => i.inverseDeviation (var.elem [ch]) * i.gradTimesDistance src mean out ch
  | _ => 0

/-- What the input gradient gains at a coordinate of a channel. -/
def channelGain (src scale mean var out : View K) (ch : Nat) (coord : List Nat) : K :=
  let n : K := (src.shape.slice i.axis ch).length
  1 / n * scale.elem [ch] * i.inverseDeviation (var.elem [ch])
    * (n * out.elem coord - i.channelSum src.shape ch out.elem
      - (src.elem coord - mean.elem [ch]) * (1 / (var.elem [ch] + i.epsilon))
        * i.gradTimesDistance src mean out ch)

/-- What the input gradient gains at a coordinate. -/
def inputGain (src scale mean var out : View K) (coord : List Nat) : K :=
  i.channelGain src scale mean var out (coord.getD i.axis 0) coord

/-- A buffer of the shape of another has an element wherever the other does. -/
theorem raw_of_mem_of_shape (hout : out.shape = src.shape) {coord : List Nat}
    (hcoord : coord ∈ src.shape.coordinates) :
    out.raw (flat src.shape.dims coord) = .ok (out.elem coord) := by
  rw [← hout] at hcoord ⊢
  exact out.raw_of_mem hcoord

omit [ExactScalar K] in
theorem getD_of_mem_slice {ch : Nat} {coord : List Nat} {s : Shape}
    (hcoord : coord ∈ s.slice i.axis ch) : coord.getD i.axis 0 = ch := by
  rw [List.getD_eq_getElem?_getD, (Shape.mem_slice.mp hcoord).2, Option.getD_some]

section Sums

variable (haxis : src.shape.dims[i.axis]? = some count)

include haxis

/-- A gradient with an element for every channel gains there the sum over the
channel. -/
theorem total_channelTerms {term : Nat → Outcome K} {f : List Nat → K}
    (hterm : ∀ coord ∈ src.shape.coordinates, term (flat src.shape.dims coord) = .ok (f coord))
    (ch : Nat) : total (i.channelTerms src ⟨[count]⟩ term) (flat [count] [ch])
      = i.channelSum src.shape ch f := by
  have hwalk : List.range src.size = src.shape.coordinates.map (flat src.shape.dims) :=
    (Shape.map_flat_coordinatesIn src.shape.dims).symm
  have hterms : i.channelTerms src ⟨[count]⟩ term
      = src.shape.coordinates.map fun coord => (coord.getD i.axis 0, f coord) := by
    rw [channelTerms, hwalk, List.map_map]
    refine List.map_congr_left fun coord hcoord => ?_
    obtain ⟨x, hlt, hx, hok⟩ := i.exists_channel_flat haxis hcoord
    have hin : Shape.Inside [count] [x] := ⟨hlt, Shape.inside_nil _⟩
    rw [Function.comp_apply, hok, hterm coord hcoord, Except.ok_bind, Shape.position_eq hin,
      List.getD_eq_getElem?_getD, hx]
    simp
  have hflat : flat [count] [ch] = ch := by simp
  rw [hterms, hflat, i.total_channels haxis, channelSum]

/-- The sums that the kernel prepares are those over the channels. -/
theorem sums_eq (hmean : mean.shape = ⟨[count]⟩) (hout : out.shape = src.shape) :
    i.sums count src mean out = .ok (i.channelTotals count src mean out) := by
  -- an element contributes its distance from the running mean of its own channel
  obtain ⟨products, hproducts, hproducts'⟩ : ∃ sums, i.channelSums count src (fun k => do
        return (← out.raw k) * ((← src.raw k) - (← i.ofChannel src mean k))) = .ok sums ∧
      ∀ ch (hch : ch < count), sums[ch] = i.channelSum src.shape ch fun coord =>
        out.elem coord * (src.elem coord - mean.elem [coord.getD i.axis 0]) := by
    refine i.channelSums_eq haxis fun coord hcoord => ?_
    obtain ⟨x, hlt, hx, hok⟩ := i.exists_channel_flat haxis hcoord
    rw [raw_of_mem_of_shape hout hcoord, src.raw_of_mem hcoord, i.ofChannel_eq hmean hlt hok,
      List.getD_eq_getElem?_getD, hx]
    rfl
  obtain ⟨grads, hgrads, hgrads'⟩ :=
    i.channelSums_eq haxis fun coord hcoord => raw_of_mem_of_shape hout hcoord
  have hproducts' : products = .ofFn fun ch => i.gradTimesDistance src mean out ch.val := by
    refine Vector.ext fun ch hch => ?_
    rw [hproducts' ch hch, Vector.getElem_ofFn]
    refine congrArg List.sum (List.map_congr_left fun coord hcoord => ?_)
    rw [i.getD_of_mem_slice hcoord]
  have hgrads' : grads = .ofFn fun ch => i.channelSum src.shape ch.val out.elem := by
    refine Vector.ext fun ch hch => ?_
    rw [hgrads' ch hch, Vector.getElem_ofFn, channelSum]
  rw [sums, hproducts, Except.ok_bind, hgrads, Except.ok_bind, hproducts', hgrads']
  rfl

end Sums

/-- What an element contributes to the input gradient, by the sums of its channel. -/
theorem slope_eq (h : i.Bound c count src scale bias mean var) (hout : out.shape = src.shape)
    {coord : List Nat} (hcoord : coord ∈ src.shape.coordinates) :
    i.slope ⟨count, src.shape.elemCount / count⟩ (i.channelTotals count src mean out) src scale
        mean var out (flat src.shape.dims coord)
      = .ok (i.inputGain src scale mean var out coord) := by
  obtain ⟨ch, hch, hx, hok⟩ := i.exists_channel_flat h.axis hcoord
  have hsamples : (Scalar.ofNat (src.shape.elemCount / count) : K)
      = ((src.shape.slice i.axis ch).length : K) := by
    rw [ExactScalar.ofNat_eq, Shape.length_slice h.axis hch]
  -- the two sums of the channel, as the kernel looks them up
  have hgrad : (i.channelTotals count src mean out).grad[ch]?
      = some (i.channelSum src.shape ch out.elem) := by
    rw [Vector.getElem?_eq_getElem hch, channelTotals, Vector.getElem_ofFn]
  have hproduct : (i.channelTotals count src mean out).gradTimesDistance[ch]?
      = some (i.gradTimesDistance src mean out ch) := by
    rw [Vector.getElem?_eq_getElem hch, channelTotals, Vector.getElem_ofFn]
  have hchannel : coord.getD i.axis 0 = ch := by rw [List.getD_eq_getElem?_getD, hx]; rfl
  rw [inputGain, hchannel]
  simp only [slope, hok, i.ofChannel_eq h.factors.2 hch hok, i.ofChannel_eq h.means.2 hch hok,
    i.ofChannel_eq h.variances.2 hch hok, src.raw_of_mem hcoord, raw_of_mem_of_shape hout hcoord,
    Except.ok_bind, hgrad, hproduct, hsamples]
  rfl

/-- Every element of the input gradient gains what its element contributes. -/
theorem total_inputTerms (h : i.Bound c count src scale bias mean var)
    (hout : out.shape = src.shape) {coord : List Nat} (hcoord : coord ∈ src.shape.coordinates) :
    total (i.inputTerms ⟨count, src.shape.elemCount / count⟩ (i.channelTotals count src mean out)
        src scale mean var out) (flat src.shape.dims coord)
      = i.inputGain src scale mean var out coord := by
  have hlt : flat src.shape.dims coord < src.shape.elemCount :=
    Shape.flat_lt (Shape.mem_coordinatesIn.mp hcoord).2 (Shape.mem_coordinatesIn.mp hcoord).1
  rw [inputTerms, total_pointwise _ hlt, i.slope_eq h hout hcoord, Outcome.orZero_ok]

/-- The scale of a channel gains the products of the output gradients with the
normalized distances. -/
theorem total_scaleTerms (h : i.Bound c count src scale bias mean var)
    (hout : out.shape = src.shape) (ch : Nat) :
    total (i.channelTerms src ⟨[count]⟩ (i.scaleTerm src mean var out)) (flat [count] [ch])
      = i.scaleGain src mean var out [ch] := by
  have hterm : ∀ coord ∈ src.shape.coordinates,
      i.scaleTerm src mean var out (flat src.shape.dims coord)
        = .ok (i.inverseDeviation (var.elem [coord.getD i.axis 0])
            * (out.elem coord * (src.elem coord - mean.elem [coord.getD i.axis 0]))) := by
    intro coord hcoord
    obtain ⟨x, hlt, hx, hok⟩ := i.exists_channel_flat h.axis hcoord
    rw [scaleTerm, i.ofChannel_eq h.variances.2 hlt hok, i.ofChannel_eq h.means.2 hlt hok,
      src.raw_of_mem hcoord, raw_of_mem_of_shape hout hcoord, List.getD_eq_getElem?_getD, hx]
    refine congrArg Except.ok ?_
    dsimp only [Option.getD_some]
    ring
  rw [i.total_channelTerms h.axis hterm, scaleGain, gradTimesDistance, ← channelSum_mul_left]
  refine congrArg List.sum (List.map_congr_left fun coord hcoord => ?_)
  rw [i.getD_of_mem_slice hcoord]

/-! ### What a channel gains altogether -/

/-- The number of elements times the gradient of an output cancels, over a channel,
against the sum of these gradients. -/
theorem channelSum_inputGain (ch : Nat) :
    i.channelSum src.shape ch (i.inputGain src scale mean var out)
      = -(1 / ((src.shape.slice i.axis ch).length : K) * scale.elem [ch]
          * i.inverseDeviation (var.elem [ch]) * (1 / (var.elem [ch] + i.epsilon))
          * i.gradTimesDistance src mean out ch
          * i.channelSum src.shape ch fun coord => src.elem coord - mean.elem [ch]) := by
  set n : K := ((src.shape.slice i.axis ch).length : K)
  have hgain : i.channelSum src.shape ch (i.inputGain src scale mean var out)
      = i.channelSum src.shape ch fun coord => 1 / n * scale.elem [ch]
          * i.inverseDeviation (var.elem [ch])
          * (n * out.elem coord - i.channelSum src.shape ch out.elem
            - 1 / (var.elem [ch] + i.epsilon) * i.gradTimesDistance src mean out ch
              * (src.elem coord - mean.elem [ch])) := by
    refine congrArg List.sum (List.map_congr_left fun coord hcoord => ?_)
    rw [inputGain, i.getD_of_mem_slice hcoord, channelGain]
    ring
  rw [hgain, channelSum_mul_left, channelSum_sub, channelSum_sub, channelSum_mul_left,
    channelSum_mul_left, channelSum_const]
  ring

/-- A channel gains nothing altogether if its running mean is its mean. -/
theorem channelSum_inputGain_of_mean {ch : Nat} (hmean : mean.elem [ch] = i.channelMean src ch) :
    i.channelSum src.shape ch (i.inputGain src scale mean var out) = 0 := by
  rw [channelSum_inputGain, channelSum_sub, channelSum_const, hmean, channelMean, average,
    channelSum]
  by_cases hn : ((src.shape.slice i.axis ch).length : K) = 0
  · rw [hn]
    ring
  · rw [mul_div_cancel₀ _ hn]
    ring

/-- Training that leaves no share to the old statistics leaves the means of the
channels. -/
theorem mean_of_forward_train (hids : [i.dest, i.src, i.scale, i.bias, i.mean, i.var].Nodup)
    {c₀ c₁ : Context K} (hmomentum : i.momentum = 1) (hrun : i.forward true c₀ = .ok () c₁)
    (hweights : c.weights = c₁.weights) (h : i.Bound c count src scale bias mean var) {ch : Nat}
    (hch : ch < count) : mean.elem [ch] = i.channelMean src ch := by
  obtain ⟨count₀, src₀, scale₀, bias₀, mean₀, var₀, hpos, h₀⟩ := exists_bound_of_forward hids hrun
  obtain ⟨⟨hds, hdf, hdb, hdm, hdv⟩, hmv, hms, hvs⟩ := ne_of_nodup hids
  obtain ⟨m, hm, hmeans⟩ := i.localMean_eq h₀.axis
  obtain ⟨v, hv, -⟩ := i.localVariance_eq h₀.axis hmeans
  rw [i.forward_train_eq h₀ hpos hm hv hds hdf hdb hdm hdv hmv hms hvs] at hrun
  obtain ⟨-, rfl⟩ := EStateM.Result.ok.inj hrun
  simp only [List.mem_cons, List.not_mem_nil, or_false, not_or] at hms hvs
  -- the input is still the one that was averaged, and the mean is the average
  have hsrc := h.input
  have hmean := h.means.1
  rw [hweights, weights_setWeight_of_ne hds, i.weights_statistics hms.1 hvs.1, h₀.input] at hsrc
  rw [hweights, weights_setWeight_of_ne hdm, weights_setWeight_of_ne hmv.symm,
    weights_setWeight_self] at hmean
  obtain rfl := View.tensor_inj (Option.some.inj hsrc)
  obtain rfl := View.tensor_inj (Option.some.inj hmean)
  obtain rfl : count₀ = count := Option.some.inj (h₀.axis.symm.trans h.axis)
  rw [i.elem_blended h₀.means.2 m hch, hmeans ch hch, hmomentum]
  ring

end Gains

/-! ### The kernel -/

section Kernel

variable {K : Type} [ExactScalar K] (i : BatchNorm K)

/-- What a way back of a normalization adds to the gradients, channel by channel. -/
structure Balances (c c' : Context K) (count : Nat) (src scale mean var out : View K) : Prop where
  /-- The bias gradient. -/
  biasGrad : c.Gains c' i.bias ⟨[count]⟩ (i.biasGain src out)
  /-- The scale gradient. -/
  scaleGrad : c.Gains c' i.scale ⟨[count]⟩ (i.scaleGain src mean var out)
  /-- The input gradient. -/
  inputGrad : c.Gains c' i.src src.shape (i.inputGain src scale mean var out)
  /-- What the input gradient gains over a channel. -/
  total : ∀ ch < count, i.channelSum src.shape ch (i.inputGain src scale mean var out)
    = -(1 / ((src.shape.slice i.axis ch).length : K) * scale.elem [ch]
        * i.inverseDeviation (var.elem [ch]) * (1 / (var.elem [ch] + i.epsilon))
        * i.gradTimesDistance src mean out ch
        * i.channelSum src.shape ch fun coord => src.elem coord - mean.elem [ch])
  /-- It gains nothing over a channel whose running mean is its mean. -/
  centred : ∀ ch < count, mean.elem [ch] = i.channelMean src ch →
    i.channelSum src.shape ch (i.inputGain src scale mean var out) = 0
  /-- So it is for every channel after training with the whole share. -/
  trained : ∀ c₀ c₁, i.momentum = 1 → i.forward true c₀ = .ok () c₁ → c.weights = c₁.weights →
    ∀ ch < count, mean.elem [ch] = i.channelMean src ch

/-- **The way back of a normalization balances over channels.**  After a way back
that succeeds, computed exactly, the bias of a channel has gained the sum of the
output gradients, the scale the sum of their products with the normalized distances
from the running mean, and the inputs amounts that add up to a multiple of the sum
of the distances; to zero, if the running mean is the mean of the channel. -/
theorem backward_balances {c c' : Context K}
    (hids : [i.dest, i.src, i.scale, i.bias, i.mean, i.var].Nodup) (hc : c.Mirrored)
    (hrun : i.backward c = .ok () c') :
    ∃ (count : Nat) (src scale bias mean var out : View K), count ≠ 0 ∧
      i.Bound c count src scale bias mean var ∧ c.gradOrZeros i.dest = .ok out.tensor ∧
      out.shape = src.shape ∧ i.Balances c c' count src scale mean var out := by
  obtain ⟨count, src, scale, bias, mean, var, out, hpos, h, hout, hshape⟩ :=
    exists_bound_of_backward hids hc hrun
  obtain ⟨hds, hdf, hdb, hsf, hsb, hfb⟩ := ne_of_nodup_backward hids
  have hsums := i.sums_eq h.axis h.means.2 hshape
  have hgs : c.HasGrad i.src src.shape := hc.hasGrad h.input
  have hgb : c.HasGrad i.bias bias.shape := hc.hasGrad h.summands.1
  have hgf : c.HasGrad i.scale scale.shape := hc.hasGrad h.factors.1
  rw [i.backward_eq h hshape hpos hsums hds.symm hdb.symm hdf.symm hgs hgb hgf hout] at hrun
  obtain ⟨-, rfl⟩ := EStateM.Result.ok.inj hrun
  rw [h.summands.2] at hgb ⊢
  rw [h.factors.2] at hgf ⊢
  refine ⟨count, src, scale, bias, mean, var, out, hpos, h, hout, hshape, ?_, ?_, ?_,
    fun ch _ => i.channelSum_inputGain ch, fun ch _ => i.channelSum_inputGain_of_mean,
    fun c₀ c₁ hmomentum htrain hweights ch hch =>
      i.mean_of_forward_train hids hmomentum htrain hweights h hch⟩
  · -- each gradient gains the total of the one deposit that names it
    refine Context.gains_deposits hgb (by simp) fun coord hcoord => ?_
    obtain ⟨ch, rfl⟩ := List.length_eq_one_iff.mp (Shape.mem_coordinatesIn.mp hcoord).1
    simp only [writesTo_cons, writesTo_nil, hdb, hsb, hfb, if_true, if_false, List.append_nil,
      List.nil_append]
    exact i.total_channelTerms h.axis (fun coord hmem => raw_of_mem_of_shape hshape hmem) ch
  · refine Context.gains_deposits hgf (by simp) fun coord hcoord => ?_
    obtain ⟨ch, rfl⟩ := List.length_eq_one_iff.mp (Shape.mem_coordinatesIn.mp hcoord).1
    simp only [writesTo_cons, writesTo_nil, hdf, hsf, hfb.symm, if_true, if_false, List.append_nil,
      List.nil_append]
    exact i.total_scaleTerms h hshape ch
  · refine Context.gains_deposits hgs (by simp) fun coord hcoord => ?_
    simp only [writesTo_cons, writesTo_nil, hds, hsb.symm, hsf.symm, if_true, if_false,
      List.append_nil, List.nil_append]
    exact i.total_inputTerms h hshape hcoord

/-- Rational numbers with the roots of four and nine. -/
local instance roots : ExactScalar ℚ := rationals

/-- Two columns of two elements, gradients for the outputs, and gradients that are
there already.  The running mean of the first column is its mean. -/
def unequalColumns : Context ℚ :=
  (((((((((({} : Context ℚ).setWeight 0 ⟨⟨[2, 2]⟩, .float #v[15, 16, 17, 19]⟩).setWeight 1
    ⟨⟨[2, 2]⟩, .float #v[5, 22, 1, 18]⟩).setWeight 2 ⟨⟨[2]⟩, .float #v[8, 12]⟩).setWeight 3
    ⟨⟨[2]⟩, .float #v[11, 13]⟩).setWeight 4 ⟨⟨[2]⟩, .float #v[3, 18]⟩).setWeight 5
    ⟨⟨[2]⟩, .float #v[7, 2]⟩).setGrad 0 ⟨⟨[2, 2]⟩, .float #v[7, 4, 1, 2]⟩).setGrad 1
    ⟨⟨[2, 2]⟩, .float #v[10, 20, 30, 40]⟩).setGrad 2 ⟨⟨[2]⟩, .float #v[50, 60]⟩).setGrad 3
    ⟨⟨[2]⟩, .float #v[70, 80]⟩

theorem mirrored_unequalColumns : unequalColumns.Mirrored := by
  refine .setGrad (.setGrad (.setGrad (.setGrad (fun _ _ _ _ hg => ?_) fun t ht => ?_)
    fun t ht => ?_) fun t ht => ?_) fun t ht => ?_
  · cases hg
  all_goals
    obtain rfl := Option.some.inj ht
    rfl

/-- The inputs of the first column gain nothing altogether, those of the second lose
twelve for each of the four by which they are off the running mean. -/
theorem backward_balances_unequalColumns : ∃ (c' : Context ℚ) (src scale bias : View ℚ),
    columns.backward unequalColumns = .ok () c' ∧ c'.grads[columns.src]? = some src.tensor ∧
      c'.grads[columns.scale]? = some scale.tensor ∧ c'.grads[columns.bias]? = some bias.tensor ∧
      src.elem [0, 0] + src.elem [1, 0] = 10 + 30 ∧
      src.elem [0, 1] + src.elem [1, 1] = 20 + 40 - 12 * 4 ∧
      scale.elem [0] = 50 + 12 / 3 ∧ scale.elem [1] = 60 + 16 / 2 ∧
      bias.elem [0] = 70 + (7 + 1) ∧ bias.elem [1] = 80 + (4 + 2) := by
  obtain ⟨c', hrun⟩ : ∃ c', columns.backward unequalColumns = .ok () c' := ⟨_, rfl⟩
  obtain ⟨count, src, scale, bias, mean, var, out, -, h, hout, -, hgains⟩ :=
    backward_balances columns (by decide) mirrored_unequalColumns hrun
  obtain rfl : ⟨⟨[2, 2]⟩, #v[5, 22, 1, 18]⟩ = src := Except.ok.inj (Context.floats_eq h.input)
  obtain rfl : ⟨⟨[2]⟩, #v[8, 12]⟩ = scale := Except.ok.inj (Context.floats_eq h.factors.1)
  obtain rfl : ⟨⟨[2]⟩, #v[3, 18]⟩ = mean := Except.ok.inj (Context.floats_eq h.means.1)
  obtain rfl : ⟨⟨[2]⟩, #v[7, 2]⟩ = var := Except.ok.inj (Context.floats_eq h.variances.1)
  obtain rfl : ⟨⟨[2, 2]⟩, #v[7, 4, 1, 2]⟩ = out :=
    View.tensor_inj (Except.ok.inj hout)
  obtain rfl : 2 = count := Option.some.inj h.axis
  obtain ⟨oldBias, newBias, holdBias, hnewBias, hgainBias⟩ := hgains.biasGrad
  obtain ⟨oldScale, newScale, holdScale, hnewScale, hgainScale⟩ := hgains.scaleGrad
  obtain ⟨oldSrc, newSrc, holdSrc, hnewSrc, hgainSrc⟩ := hgains.inputGrad
  obtain rfl : #v[70, 80] = oldBias :=
    Tensor.float_inj (Except.ok.inj holdBias)
  obtain rfl : #v[50, 60] = oldScale :=
    Tensor.float_inj (Except.ok.inj holdScale)
  obtain rfl : #v[10, 20, 30, 40] = oldSrc :=
    Tensor.float_inj (Except.ok.inj holdSrc)
  have htotal₀ := congrArg (10 + 30 + ·) (hgains.centred 0 (by decide) (by decide +kernel))
  have htotal₁ := congrArg (20 + 40 + ·) (hgains.total 1 (by decide))
  refine ⟨c', ⟨_, newSrc⟩, ⟨_, newScale⟩, ⟨_, newBias⟩, hrun, hnewSrc, hnewScale, hnewBias, ?_, ?_,
    ?_, ?_, ?_, ?_⟩
  · rw [hgainSrc [0, 0] (by decide), hgainSrc [1, 0] (by decide)]
    exact (by decide +kernel : _ = _).trans (htotal₀.trans (by decide +kernel))
  · rw [hgainSrc [0, 1] (by decide), hgainSrc [1, 1] (by decide)]
    exact (by decide +kernel : _ = _).trans (htotal₁.trans (by decide +kernel))
  · exact (hgainScale [0] (by decide)).trans (by decide +kernel)
  · exact (hgainScale [1] (by decide)).trans (by decide +kernel)
  · exact (hgainBias [0] (by decide)).trans (by decide +kernel)
  · exact (hgainBias [1] (by decide)).trans (by decide +kernel)

end Kernel

end BatchNorm

end TensorProgram
