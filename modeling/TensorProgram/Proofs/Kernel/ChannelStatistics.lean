/-
TensorProgram/Proofs/Kernel/ChannelStatistics.lean

A normalization by running statistics, channel by channel.  The kernel walks the
buffer of the input, finds the channel of an element from its position, adds up the
elements of all channels at once and divides by the number of elements over that of
channels.  Computed exactly, what it finds for a channel are the mean and the
variance (`BatchNorm.channelMean`, `BatchNorm.channelVariance`) of the elements
whose coordinate along the axis is the channel.

The walk over positions is one over coordinates, and what it adds at a channel is a
sum over its slice (`BatchNorm.channelSums_eq`).  From there on each step is read at
one channel: dividing (`localMean_eq`, `localVariance_eq`), blending
(`elem_blended`), normalizing (`elem_normalized`).

Main statement: `BatchNorm.forward_by_channel`, in training and outside of it.
-/
import TensorProgram.Proofs.Gradient.Additivity
import TensorProgram.Proofs.Kernel.Safety
import TensorProgram.Proofs.Tensor.Axes

namespace TensorProgram

open Context (weights_setWeight_of_ne weights_setWeight_self)
open Run (Performs performs_scatter_map exists_of_bind_ok exists_of_check_ok get_bind_apply
  of_reports_or)
open Shape (flat)

/-- Contributions that every element makes to its group add up, for a group, to the
sum over its elements. -/
theorem total_groups {ι K : Type} [ExactScalar K] {xs : List ι} {g : ι → Nat} {v : ι → K}
    {k : Nat} : total (xs.map fun x => (g x, v x)) k = ((xs.filter (g · = k)).map v).sum := by
  rw [total, List.map_map, Function.comp_def, List.sum_map_ite]
  simp

namespace BatchNorm

/-! ### Operands -/

section Operands

variable {α : Type} [Scalar α] {i : BatchNorm α} {c c' : Context α} {train : Bool}

omit [Scalar α] in
/-- No two of the six operands are the same. -/
theorem ne_of_nodup (hids : [i.dest, i.src, i.scale, i.bias, i.mean, i.var].Nodup) :
    (i.dest ≠ i.src ∧ i.dest ≠ i.scale ∧ i.dest ≠ i.bias ∧ i.dest ≠ i.mean ∧ i.dest ≠ i.var) ∧
      i.mean ≠ i.var ∧ i.mean ∉ [i.src, i.scale, i.bias] ∧ i.var ∉ [i.src, i.scale, i.bias] := by
  simp only [List.nodup_cons, List.mem_cons, List.not_mem_nil, or_false, not_or] at hids ⊢
  tauto

/-- A normalization that succeeds has found its operands: outside training it reads
them all before it writes, and in training it reads the running statistics first and
the others afterwards, where they are still the same. -/
theorem exists_bound_of_forward (hids : [i.dest, i.src, i.scale, i.bias, i.mean, i.var].Nodup)
    (hrun : i.forward train c = .ok () c') :
    ∃ (count : Nat) (src scale bias mean var : View α),
      count ≠ 0 ∧ i.Bound c count src scale bias mean var := by
  rw [forward, get_bind_apply] at hrun
  obtain ⟨ch, hch, hrun⟩ := exists_of_check_ok hrun
  obtain ⟨s, count, rfl, hpos, haxis, hs, -, -, -, hm, hv⟩ := shapes_of_channels hch
  cases train with
  | false =>
      obtain ⟨src, scale, bias, mean, var, h, -⟩ := of_reports_or (i.normalize_cases hch) hrun
      exact ⟨count, src, scale, bias, mean, var, hpos, h⟩
  | true =>
      obtain ⟨_, c₁, hstatistics, hrun⟩ := exists_of_bind_ok hrun
      obtain ⟨mean, var, m, v, hmean, hmeans, hvar, hvars, hok⟩ :=
        of_reports_or (i.updateStatistics_cases _ haxis hs hm hv) hstatistics
      obtain ⟨-, rfl⟩ := EStateM.Result.ok.inj (hok.symm.trans hstatistics)
      -- the shapes have stayed, so the entry check still holds where the output is written
      have hch₁ := (i.channels_of_shapeOf (i.shapeOf_blended m v hmean hvar)).trans hch
      obtain ⟨src, scale, bias, _, _, h, -⟩ := of_reports_or (i.normalize_cases hch₁) hrun
      obtain ⟨⟨-, -, -, hdm, hdv⟩, -, hms, hvs⟩ := ne_of_nodup hids
      simp only [List.mem_cons, List.not_mem_nil, or_false, not_or] at hms hvs
      refine ⟨count, src, scale, bias, mean, var, hpos, ?_, h.axis, ?_, ?_, ?_, ⟨hmean, hmeans⟩,
        hvar, hvars⟩
      · rw [← i.weights_statistics hms.1 hvs.1, h.input]
      · rw [← i.weights_statistics hdm.symm hdv.symm]
        exact h.output
      · rw [← i.weights_statistics hms.2.1 hvs.2.1]
        exact h.factors
      · rw [← i.weights_statistics hms.2.2 hvs.2.2]
        exact h.summands

end Operands

/-! ### Sums over a channel -/

section Channels

variable {K : Type} [ExactScalar K] (i : BatchNorm K) {src : View K} {count : Nat}

/-- The average over the elements of a channel. -/
def average (s : Shape) (ch : Nat) (f : List Nat → K) : K :=
  ((s.slice i.axis ch).map f).sum / ((s.slice i.axis ch).length : K)

/-- The mean of a channel. -/
def channelMean (src : View K) (ch : Nat) : K := i.average src.shape ch src.elem

/-- The variance of a channel: the average square of the distances from its mean. -/
def channelVariance (src : View K) (ch : Nat) : K :=
  i.average src.shape ch fun coord => (src.elem coord - i.channelMean src ch) ^ 2

variable (haxis : src.shape.dims[i.axis]? = some count)

include haxis

omit [ExactScalar K] in
/-- The channel of an element is its entry along the axis. -/
theorem exists_channel_flat {coord : List Nat} (hcoord : coord ∈ src.shape.coordinates) :
    ∃ x < count, coord[i.axis]? = some x ∧ i.channel src (flat src.shape.dims coord) = .ok x := by
  obtain ⟨x, hlt, hx⟩ := Shape.exists_entry hcoord haxis
  exact ⟨x, hlt, hx, Shape.coordinate_flat hcoord hx⟩

/-- What a walk over coordinates adds up for a channel is the sum over its slice. -/
theorem total_channels (f : List Nat → K) (ch : Nat) :
    total (src.shape.coordinates.map fun coord => (coord.getD i.axis 0, f coord)) ch
      = ((src.shape.slice i.axis ch).map f).sum := by
  -- a coordinate has an entry along the axis, so the default is never read
  have hslice : src.shape.coordinates.filter (fun coord => coord.getD i.axis 0 = ch)
      = src.shape.slice i.axis ch := by
    refine List.filter_congr fun coord hcoord => ?_
    obtain ⟨x, -, hx, -⟩ := i.exists_channel_flat haxis hcoord
    rw [List.getD_eq_getElem?_getD, hx]
    simp
  rw [total_groups, hslice]

/-- The walk over the buffer sums up the slice of every channel. -/
theorem channelSums_eq {term : Nat → Outcome K} {f : List Nat → K}
    (hterm : ∀ coord ∈ src.shape.coordinates, term (flat src.shape.dims coord) = .ok (f coord)) :
    ∃ sums, i.channelSums count src term = .ok sums ∧
      ∀ ch (hch : ch < count), sums[ch] = ((src.shape.slice i.axis ch).map f).sum := by
  -- walked by coordinate instead of position, an element shows its channel
  have hwalk : List.range src.size = src.shape.coordinates.map (flat src.shape.dims) :=
    (Shape.map_flat_coordinatesIn src.shape.dims).symm
  have hscatter : Performs accumulate (scatter accumulate (List.range src.size) (i.channel src)
      term : Run (Vector K count) Unit)
      (src.shape.coordinates.map fun coord => (coord.getD i.axis 0, f coord)) := by
    rw [hwalk]
    refine performs_scatter_map hterm (fun coord hcoord => ?_) fun coord hcoord => ?_
    · obtain ⟨x, -, hx, hok⟩ := i.exists_channel_flat haxis hcoord
      rw [hok, List.getD_eq_getElem?_getD, hx]
      rfl
    · obtain ⟨x, hlt, hx, -⟩ := i.exists_channel_flat haxis hcoord
      rw [List.getD_eq_getElem?_getD, hx]
      exact hlt
  refine ⟨_, by rw [channelSums, written, hscatter.run], fun ch hch => ?_⟩
  rw [getElem_applyWrites_accumulate _ _ hch, i.total_channels haxis, Vector.getElem_replicate]
  exact zero_add _

/-- Divided by the number of elements over that of channels, these sums are averages. -/
theorem averages_eq {term : Nat → Outcome K} {f : List Nat → K}
    (hterm : ∀ coord ∈ src.shape.coordinates, term (flat src.shape.dims coord) = .ok (f coord)) :
    ∃ a : Vector K count, (do
        let sums ← i.channelSums count src term
        return sums.map (· / Scalar.ofNat (src.shape.elemCount / count))) = .ok a ∧
      ∀ ch (hch : ch < count), a[ch] = i.average src.shape ch f := by
  obtain ⟨sums, hsums, helem⟩ := i.channelSums_eq haxis hterm
  refine ⟨_, by rw [hsums, Except.ok_bind]; rfl, fun ch hch => ?_⟩
  rw [Vector.getElem_map, helem ch hch, average, Shape.length_slice haxis hch,
    ExactScalar.ofNat_eq]

/-- The current mean of every channel. -/
theorem localMean_eq : ∃ m, i.localMean ⟨count, src.shape.elemCount / count⟩ src = .ok m ∧
    ∀ ch (hch : ch < count), m[ch] = i.channelMean src ch := by
  unfold localMean
  exact i.averages_eq haxis fun coord hcoord => src.raw_of_mem hcoord

/-- The current variance of every channel. -/
theorem localVariance_eq {m : Vector K count}
    (hm : ∀ ch (hch : ch < count), m[ch] = i.channelMean src ch) :
    ∃ v, i.localVariance ⟨count, src.shape.elemCount / count⟩ src m = .ok v ∧
      ∀ ch (hch : ch < count), v[ch] = i.channelVariance src ch := by
  -- an element contributes the square of its distance from the mean of its own channel
  obtain ⟨v, hv, helem⟩ : ∃ v, i.localVariance ⟨count, src.shape.elemCount / count⟩ src m = .ok v ∧
      ∀ ch (hch : ch < count), v[ch] = i.average src.shape ch fun coord =>
        (src.elem coord - i.channelMean src (coord.getD i.axis 0)) ^ 2 := by
    unfold localVariance
    refine i.averages_eq haxis fun coord hcoord => ?_
    obtain ⟨x, hlt, hx, hok⟩ := i.exists_channel_flat haxis hcoord
    rw [hok, Except.ok_bind, src.raw_of_mem hcoord, Except.ok_bind, List.getD_eq_getElem?_getD, hx,
      Vector.getElem?_eq_getElem hlt, hm x hlt, Option.getD_some, sq]
    rfl
  refine ⟨v, hv, fun ch hch => (helem ch hch).trans ?_⟩
  rw [channelVariance, average, average]
  congr 2
  -- within a slice the channel of every element is the same
  refine List.map_congr_left fun coord hcoord => ?_
  rw [List.getD_eq_getElem?_getD, (Shape.mem_slice.mp hcoord).2, Option.getD_some]

end Channels

/-! ### One channel of the parameters and of the output -/

section Elements

variable {K : Type} [ExactScalar K] (i : BatchNorm K) {src scale bias mean var : View K}
  {count ch : Nat}

/-- A running statistic of a channel after the current one took its share. -/
theorem elem_blended {old : View K} (hold : old.shape = ⟨[count]⟩) (current : Vector K count)
    (hch : ch < count) :
    (i.blended current old).elem [ch]
      = i.momentum * current[ch] + (1 - i.momentum) * old.elem [ch] := by
  obtain ⟨s, data⟩ := old
  subst hold
  have hpos : flat [count] [ch] < Shape.elemCount ⟨[count]⟩ :=
    Shape.flat_lt ⟨hch, Shape.inside_nil _⟩ rfl
  have hwrite : (flat [count] [ch], current[ch]) ∈
      (List.finRange count).map fun ch => (flat [count] [ch.val], current.get ch) :=
    List.mem_map.mpr ⟨⟨ch, hch⟩, List.mem_finRange _, rfl⟩
  have hnodup : (((List.finRange count).map fun ch =>
      (flat [count] [ch.val], current.get ch)).map Prod.fst).Nodup := by
    rw [List.map_map]
    refine (List.nodup_finRange count).map fun a b hab => Fin.ext ?_
    simpa using hab
  rw [View.elem, View.entry, View.elem, View.entry, blended, dif_pos hpos, dif_pos hpos]
  exact getElem_applyWrites_of_nodup i.blend hnodup data hwrite hpos

/-- An element of the output, by the statistics of its channel. -/
theorem elem_normalized (hscale : scale.shape = ⟨[count]⟩) (hbias : bias.shape = ⟨[count]⟩)
    (hmean : mean.shape = ⟨[count]⟩) (hvar : var.shape = ⟨[count]⟩) (hch : ch < count)
    {coord : List Nat} (hcoord : coord ∈ src.shape.slice i.axis ch) :
    (i.normalized src scale bias mean var).elem coord
      = (src.elem coord - mean.elem [ch]) * scale.elem [ch]
          / Scalar.sqrt (var.elem [ch] + i.epsilon) + bias.elem [ch] := by
  obtain ⟨hmem, haxis⟩ := Shape.mem_slice.mp hcoord
  have hchannel : i.channel src (flat src.shape.dims coord) = .ok ch :=
    Shape.coordinate_flat hmem haxis
  have hvalue : i.value src scale bias mean var (flat src.shape.dims coord)
      = .ok ((src.elem coord - mean.elem [ch]) * scale.elem [ch]
          * i.inverseDeviation (var.elem [ch]) + bias.elem [ch]) := by
    simp only [value, i.ofChannel_eq hscale hch hchannel, i.ofChannel_eq hbias hch hchannel,
      i.ofChannel_eq hmean hch hchannel, i.ofChannel_eq hvar hch hchannel, src.raw_of_mem hmem]
    rfl
  have hlt : flat src.shape.dims coord < src.shape.elemCount :=
    Shape.flat_lt (Shape.mem_coordinatesIn.mp hmem).2 (Shape.mem_coordinatesIn.mp hmem).1
  rw [View.elem, normalized, View.entry_pointwise _ hlt, hvalue, Outcome.orZero_ok,
    inverseDeviation, mul_one_div]

end Elements

/-! ### The kernel -/

section Kernel

variable {K : Type} [ExactScalar K] (i : BatchNorm K)

/-- What a normalization of these operands leaves, channel by channel. -/
structure Normalizes (train : Bool) (c' : Context K) (count : Nat)
    (src scale bias mean var mean' var' out : View K) : Prop where
  /-- The running means after it. -/
  means : c'.weights[i.mean]? = some mean'.tensor ∧ mean'.shape = ⟨[count]⟩
  /-- The running variances after it. -/
  variances : c'.weights[i.var]? = some var'.tensor ∧ var'.shape = ⟨[count]⟩
  /-- The output. -/
  output : c'.weights[i.dest]? = some out.tensor ∧ out.shape = src.shape
  /-- Every channel has the same number of elements. -/
  samples : ∀ ch < count, (src.shape.slice i.axis ch).length = src.shape.elemCount / count
  /-- In training the mean of the channel takes its share of the running mean. -/
  mean : ∀ ch < count, mean'.elem [ch] =
    if train then i.momentum * i.channelMean src ch + (1 - i.momentum) * mean.elem [ch]
    else mean.elem [ch]
  /-- In training the variance of the channel takes its share of the running variance. -/
  var : ∀ ch < count, var'.elem [ch] =
    if train then i.momentum * i.channelVariance src ch + (1 - i.momentum) * var.elem [ch]
    else var.elem [ch]
  /-- The elements of the channel are normalized by the new statistics. -/
  value : ∀ ch < count, ∀ coord ∈ src.shape.slice i.axis ch,
    out.elem coord = (src.elem coord - mean'.elem [ch]) * scale.elem [ch]
      / Scalar.sqrt (var'.elem [ch] + i.epsilon) + bias.elem [ch]

/-- **Normalization by the statistics of channels.**  Computed exactly, a
normalization of distinct operands that succeeds normalizes the elements of every
channel by its running statistics, which in training have first been blended with
the mean and the variance of these elements. -/
theorem forward_by_channel (train : Bool) {c c' : Context K}
    (hids : [i.dest, i.src, i.scale, i.bias, i.mean, i.var].Nodup)
    (hrun : i.forward train c = .ok () c') :
    ∃ (count : Nat) (src scale bias mean var mean' var' out : View K), count ≠ 0 ∧
      i.Bound c count src scale bias mean var ∧
      i.Normalizes train c' count src scale bias mean var mean' var' out := by
  obtain ⟨count, src, scale, bias, mean, var, hpos, h⟩ := exists_bound_of_forward hids hrun
  obtain ⟨⟨hds, hdf, hdb, hdm, hdv⟩, hmv, hms, hvs⟩ := ne_of_nodup hids
  refine ⟨count, src, scale, bias, mean, var, ?_⟩
  have hsamples : ∀ ch < count,
      (src.shape.slice i.axis ch).length = src.shape.elemCount / count :=
    fun ch hch => Shape.length_slice h.axis hch
  cases train with
  | false =>
      rw [i.forward_eq h hpos hds hdf hdb hdm hdv] at hrun
      obtain ⟨-, rfl⟩ := EStateM.Result.ok.inj hrun
      refine ⟨mean, var, _, hpos, h, ⟨?_, h.means.2⟩, ⟨?_, h.variances.2⟩,
        ⟨weights_setWeight_self, rfl⟩, hsamples, fun ch _ => rfl, fun ch _ => rfl,
        fun ch hch coord hcoord => ?_⟩
      · rw [weights_setWeight_of_ne hdm, h.means.1]
      · rw [weights_setWeight_of_ne hdv, h.variances.1]
      · exact i.elem_normalized h.factors.2 h.summands.2 h.means.2 h.variances.2 hch hcoord
  | true =>
      -- the statistics are written before the output, which is normalized by the new ones
      obtain ⟨m, hm, hmeans⟩ := i.localMean_eq h.axis
      obtain ⟨v, hv, hvars⟩ := i.localVariance_eq h.axis hmeans
      have hmean' : (i.blended m mean).shape = ⟨[count]⟩ := h.means.2
      have hvar' : (i.blended v var).shape = ⟨[count]⟩ := h.variances.2
      rw [i.forward_train_eq h hpos hm hv hds hdf hdb hdm hdv hmv hms hvs] at hrun
      obtain ⟨-, rfl⟩ := EStateM.Result.ok.inj hrun
      refine ⟨_, _, _, hpos, h, ⟨?_, hmean'⟩, ⟨?_, hvar'⟩, ⟨weights_setWeight_self, rfl⟩, hsamples,
        fun ch hch => ?_, fun ch hch => ?_, fun ch hch coord hcoord => ?_⟩
      · rw [weights_setWeight_of_ne hdm, weights_setWeight_of_ne hmv.symm, weights_setWeight_self]
      · rw [weights_setWeight_of_ne hdv, weights_setWeight_self]
      · rw [i.elem_blended h.means.2 m hch, hmeans ch hch, if_pos rfl]
      · rw [i.elem_blended h.variances.2 v hch, hvars ch hch, if_pos rfl]
      · exact i.elem_normalized h.factors.2 h.summands.2 hmean' hvar' hch hcoord

/-- Rational numbers with the roots of four and nine, and zero for what would leave
them. -/
local instance rationals : ExactScalar ℚ :=
  exactScalars (fun x => if x = 4 then 2 else if x = 9 then 3 else 0) (fun _ => 0)
    (fun _ _ => 0) fun _ _ _ => 0

/-- A normalization of columns that gives the current statistics the share of one
half. -/
def columns : BatchNorm ℚ := ⟨0, 1, 2, 3, 4, 5, 1, 2, 1 / 2⟩

/-- Two columns of two elements with their parameters. -/
def twoColumns : Context ℚ :=
  (((((({} : Context ℚ).setWeight 0 ⟨⟨[2, 2]⟩, .float #v[7, 7, 7, 7]⟩).setWeight 1
    ⟨⟨[2, 2]⟩, .float #v[1, 18, 5, 22]⟩).setWeight 2 ⟨⟨[2]⟩, .float #v[4, 3]⟩).setWeight 3
    ⟨⟨[2]⟩, .float #v[6, 7]⟩).setWeight 4 ⟨⟨[2]⟩, .float #v[1, 0]⟩).setWeight 5
    ⟨⟨[2]⟩, .float #v[0, 10]⟩

theorem bound_twoColumns : columns.Bound twoColumns 2 ⟨⟨[2, 2]⟩, #v[1, 18, 5, 22]⟩
    ⟨⟨[2]⟩, #v[4, 3]⟩ ⟨⟨[2]⟩, #v[6, 7]⟩ ⟨⟨[2]⟩, #v[1, 0]⟩ ⟨⟨[2]⟩, #v[0, 10]⟩ :=
  ⟨rfl, rfl, ⟨_, rfl⟩, ⟨rfl, rfl⟩, ⟨rfl, rfl⟩, ⟨rfl, rfl⟩, rfl, rfl⟩

/-- The columns have the means three and twenty and the variance four. -/
theorem forward_by_channel_twoColumns : ∃ (c' : Context ℚ) (mean var out : View ℚ),
    columns.forward true twoColumns = .ok () c' ∧ c'.weights[columns.mean]? = some mean.tensor ∧
      c'.weights[columns.var]? = some var.tensor ∧ c'.weights[columns.dest]? = some out.tensor ∧
      mean.elem [0] = (3 + 1) / 2 ∧ mean.elem [1] = (20 + 0) / 2 ∧
      var.elem [0] = (4 + 0) / 2 ∧ var.elem [1] = (4 + 10) / 2 ∧
      out.elem [0, 0] = (1 - 2) * 4 / 2 + 6 ∧ out.elem [1, 1] = (22 - 10) * 3 / 3 + 7 := by
  obtain ⟨c', hrun⟩ : ∃ c', columns.forward true twoColumns = .ok () c' := by
    obtain ⟨m, hm⟩ := columns.defined_localMean 2 bound_twoColumns.axis
    obtain ⟨v, hv⟩ := columns.defined_localVariance 2 bound_twoColumns.axis m
    exact ⟨_, columns.forward_train_eq bound_twoColumns (by decide) hm hv (by decide) (by decide)
      (by decide) (by decide) (by decide) (by decide) (by decide) (by decide)⟩
  obtain ⟨count, src, scale, bias, mean, var, mean', var', out, -, h, hleft⟩ :=
    forward_by_channel columns true (by decide) hrun
  -- the operands are those of the context
  have hread {id : ValueId} {v w : View ℚ} (hv : twoColumns.weights[id]? = some v.tensor)
      (hw : twoColumns.weights[id]? = some w.tensor) : v = w :=
    Except.ok.inj ((Context.floats_eq hv).symm.trans (Context.floats_eq hw))
  obtain rfl := hread bound_twoColumns.input h.input
  obtain rfl := hread bound_twoColumns.factors.1 h.factors.1
  obtain rfl := hread bound_twoColumns.summands.1 h.summands.1
  obtain rfl := hread bound_twoColumns.means.1 h.means.1
  obtain rfl := hread bound_twoColumns.variances.1 h.variances.1
  obtain rfl : 2 = count := Option.some.inj h.axis
  have hmean₀ : mean'.elem [0] = (3 + 1) / 2 :=
    (hleft.mean 0 (by decide)).trans (by decide +kernel)
  have hmean₁ : mean'.elem [1] = (20 + 0) / 2 :=
    (hleft.mean 1 (by decide)).trans (by decide +kernel)
  have hvar₀ : var'.elem [0] = (4 + 0) / 2 :=
    (hleft.var 0 (by decide)).trans (by decide +kernel)
  have hvar₁ : var'.elem [1] = (4 + 10) / 2 :=
    (hleft.var 1 (by decide)).trans (by decide +kernel)
  have hout₀ := hleft.value 0 (by decide) [0, 0] (by decide)
  have hout₃ := hleft.value 1 (by decide) [1, 1] (by decide)
  rw [hmean₀, hvar₀] at hout₀
  rw [hmean₁, hvar₁] at hout₃
  exact ⟨c', mean', var', out, hrun, hleft.means.1, hleft.variances.1, hleft.output.1, hmean₀,
    hmean₁, hvar₀, hvar₁, hout₀.trans (by decide +kernel), hout₃.trans (by decide +kernel)⟩

end Kernel

end BatchNorm

end TensorProgram
