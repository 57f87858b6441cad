/-
TensorProgram/Proofs/Kernel/ChannelWindow.lean

The sliding window of the normalization by neighbouring channels, over exact
numbers.  The running sum takes channels in at the front of the window and gives
them up at its back, so at channel `c` it should be the sum over the window
around `c`.  It is that sum less the term of channel 0 (`windowSum`): the sum
starts with channels `1 … W`, so channel 0 is never taken in, but at channel `W`
it is given up like every other.  `windowSum_succ` is one step of the slide and
`runningSums_eq` the whole of it.

A half window that is shorter than the row, or is a signed word, never makes the counts
of channels leave the words (`LocalResponse.word_eq`).  A longer one covers the row, so no
channel is given up, and its scales are at least `k` whatever is taken in again
(`LocalResponse.le_scales`).

Main statements: both directions of the kernel in closed form
(`LocalResponse.closed_form`), and how far below `k` the missing term can bring
a scale (`LocalResponse.scales_bounded`).
-/
import TensorProgram.Proofs.Scalar.Exact
import TensorProgram.Proofs.Kernel.Atomicity

namespace TensorProgram

open Finset (Icc range)

/-! ### Windows of channels -/

/-- The channels within `half` of channel `c`, of `channels` in all. -/
def channelWindow (half channels c : Nat) : Finset Nat :=
  Icc (c - half) (min (channels - 1) (c + half))

theorem channelWindow_eq_filter {half channels c : Nat} (h : 0 < channels) :
    channelWindow half channels c = (range channels).filter fun j => c ≤ j + half ∧ j ≤ c + half := by
  ext j
  simp only [channelWindow, Finset.mem_Icc, Finset.mem_filter, Finset.mem_range]
  omega

section Sums

variable {K : Type} [Field K] {half channels c : Nat} (f : Nat → K)

/-- The sum over the window around a channel, less the term of channel 0. -/
def windowSum (half channels : Nat) (f : Nat → K) (c : Nat) : K :=
  ∑ j ∈ channelWindow half channels c, f j - f 0

/-- The window starts with all its channels but channel 0. -/
theorem sum_startingChannels (h : 0 < channels) :
    ((startingChannels half channels).map f).sum = windowSum half channels f 0 := by
  have hstart : channelWindow half channels 0 = insert 0 (Icc 1 (min half (channels - 1))) := by
    ext j
    simp only [channelWindow, Finset.mem_Icc, Finset.mem_insert]
    omega
  have hlist : ∑ j ∈ Icc 1 (min half (channels - 1)), f j
      = ((startingChannels half channels).map f).sum := by
    rw [Nat.Icc_eq_range', Nat.add_sub_cancel]
    rfl
  rw [windowSum, hstart, Finset.sum_insert (by simp), hlist, add_sub_cancel_left]

/-- From one channel to the next the window gives up the channel at its back and
takes in the one at its front, as far as they exist. -/
theorem windowSum_succ (h : c < channels) :
    windowSum half channels f (c + 1) = windowSum half channels f c
      - (if half ≤ c then f (c - half) else 0)
      + (if c + half + 1 < channels then f (c + half + 1) else 0) := by
  have hpos : 0 < channels := Nat.zero_lt_of_lt h
  have hleaving : (if half ≤ c then f (c - half) else 0)
      = ∑ j ∈ range channels, if j + half = c then f j else 0 := by
    by_cases hle : half ≤ c
    · rw [if_pos hle, Finset.sum_eq_single_of_mem (c - half) (Finset.mem_range.mpr (by omega))]
      · rw [if_pos (by omega)]
      · intro j _ hne
        rw [if_neg (by omega)]
    · rw [if_neg hle, Finset.sum_eq_zero]
      intro j _
      rw [if_neg (by omega)]
  have hentering : (if c + half + 1 < channels then f (c + half + 1) else 0)
      = ∑ j ∈ range channels, if j = c + half + 1 then f j else 0 := by
    rw [Finset.sum_ite_eq' (range channels) (c + half + 1) f]
    simp only [Finset.mem_range]
  -- channel by channel: it stays in or out of the window unless it is one of the two
  have hchannel (j : Nat) : (if c + 1 ≤ j + half ∧ j ≤ c + 1 + half then f j else 0)
      = (if c ≤ j + half ∧ j ≤ c + half then f j else 0) - (if j + half = c then f j else 0)
        + (if j = c + half + 1 then f j else 0) := by
    by_cases hback : j + half = c
    · rw [if_neg (by omega), if_pos (by omega), if_pos hback, if_neg (by omega), sub_self, add_zero]
    · by_cases hfront : j = c + half + 1
      · rw [if_pos (by omega), if_neg (by omega), if_neg hback, if_pos hfront, sub_zero, zero_add]
      · rw [if_neg hback, if_neg hfront, sub_zero, add_zero]
        exact if_congr (by omega) rfl rfl
  simp only [windowSum, channelWindow_eq_filter hpos, Finset.sum_filter]
  rw [hleaving, hentering, Finset.sum_congr rfl fun j _ => hchannel j, Finset.sum_add_distrib,
    Finset.sum_sub_distrib]
  ring

end Sums

/-! ### Running sums -/

/-- A recurrence that the values of `S` satisfy runs through the values of `S`. -/
theorem runningSums_eq_map {β : Type} {next : Nat → β → β} {S : Nat → β} {count c : Nat}
    (h : ∀ j, c ≤ j → j < c + count → next j (S j) = S (j + 1)) :
    runningSums next count c (S c) = (List.range' c count).map S := by
  -- on the number of sums, with the channel of the first one left free
  induction count generalizing c with
  | zero => rfl
  | succ count ih =>
      rw [runningSums, List.range'_succ, List.map_cons, h c (Nat.le_refl c) (by omega),
        ih fun j hle hlt => h j (by omega) (by omega)]

/-- Every running sum has what the first one has and every step keeps. -/
theorem forall_runningSums {β : Type} {next : Nat → β → β} {P : β → Prop} {count c : Nat} {s : β}
    (hs : P s) (hnext : ∀ j x, j < c + count → P x → P (next j x)) :
    ∀ x ∈ runningSums next count c s, P x := by
  induction count generalizing c s with
  | zero => simp [runningSums]
  | succ count ih =>
      rw [runningSums, List.forall_mem_cons]
      exact ⟨hs, ih (hnext c s (by omega) hs) fun j x hj => hnext j x (by omega)⟩

variable {K : Type} [ExactScalar K]

/-- The slide of the window: a running sum that starts with the starting channels
and at every channel gives one term up and takes one in. -/
theorem runningSums_eq {half channels : Nat} (f : Nat → K) {next : Nat → K → K}
    (hnext : ∀ c s, c < channels → next c s = s - (if half ≤ c then f (c - half) else 0)
      + (if c + half + 1 < channels then f (c + half + 1) else 0)) :
    runningSums next channels 0 (Scalar.sum ((startingChannels half channels).map f))
      = (List.range channels).map (windowSum half channels f) := by
  rcases Nat.eq_zero_or_pos channels with rfl | hpos
  · rfl
  · rw [Scalar.sum_eq, sum_startingChannels f hpos, List.range_eq_range']
    refine runningSums_eq_map fun c _ hlt => ?_
    have hc : c < channels := by omega
    rw [hnext c _ hc, windowSum_succ f hc]

namespace LocalResponse

variable (i : LocalResponse K) {d : NHWC} {pixel : List Nat} {ch : Nat}

/-! ### Numbers of channels as words -/

omit [ExactScalar K] in
/-- The numbers of channels that the kernel counts with are words if the half window is
shorter than the row or a signed word. -/
theorem word_eq {channels count : Nat} (hW : i.halfWindow < channels ∨ i.halfWindow < 2 ^ 63)
    (hcount : count ≤ max channels i.halfWindow + i.halfWindow + 1) :
    i.word channels count = count := by
  rw [word]
  split
  · rfl
  · exact UInt64.toNat_ofNat_of_lt' (show count < 2 ^ 64 by omega)

theorem weight_eq {channels : Nat} (hW : i.halfWindow < channels ∨ i.halfWindow < 2 ^ 63) :
    i.weight channels = i.alpha / (2 * i.halfWindow + 1) := by
  rw [weight, i.word_eq hW (by omega), ExactScalar.ofNat_eq]
  push_cast
  rfl

theorem squareSums_eq (row : List K) (hW : i.halfWindow < row.length ∨ i.halfWindow < 2 ^ 63) :
    i.squareSums row = (List.range row.length).map
      (windowSum i.halfWindow row.length fun j => row.getD j 0 ^ 2) := by
  -- where there is no channel, what is squared is zero
  have hsquare (p : Prop) [Decidable p] (x : K) :
      (if p then x else 0) * (if p then x else 0) = if p then x * x else 0 := by
    split
    · rfl
    · rw [mul_zero]
  simp only [pow_two]
  refine runningSums_eq (fun j => row.getD j 0 * row.getD j 0) fun c s hc => ?_
  dsimp only
  rw [i.word_eq hW (by omega), hsquare, hsquare]

theorem termSums_eq (terms : List K) (hW : i.halfWindow < terms.length ∨ i.halfWindow < 2 ^ 63) :
    i.termSums terms = (List.range terms.length).map
      (windowSum i.halfWindow terms.length fun j => terms.getD j 0) := by
  refine runningSums_eq (fun j => terms.getD j 0) fun c s hc => ?_
  simp only [i.word_eq hW (show c + i.halfWindow + 1 ≤ _ by omega)]
  split <;> split <;> simp

/-! ### One channel of one pixel -/

/-- The scale of a channel, in closed form. -/
def scaleAt (d : NHWC) (src : View K) (pixel : List Nat) (ch : Nat) : K :=
  i.k + i.alpha / (2 * i.halfWindow + 1) *
    (∑ j ∈ channelWindow i.halfWindow d.c ch, src.elem (pixel ++ [j]) ^ 2
      - src.elem (pixel ++ [0]) ^ 2)

theorem getD_channels (v : View K) (pixel : List Nat) {j : Nat} (hj : j < d.c) :
    (channels d v pixel).getD j 0 = v.elem (pixel ++ [j]) := by
  rw [channels, List.getD_eq_getElem _ _ (by simpa using hj), List.getElem_map, List.getElem_range]

/-- Window sums only look at the channels there are. -/
theorem windowSum_congr {f g : Nat → K} (hpos : 0 < d.c) (h : ∀ j < d.c, f j = g j) (c : Nat) :
    windowSum i.halfWindow d.c f c = windowSum i.halfWindow d.c g c := by
  rw [windowSum, windowSum, h 0 hpos, channelWindow_eq_filter hpos]
  congr 1
  refine Finset.sum_congr rfl fun j hj => h j ?_
  exact Finset.mem_range.mp (Finset.mem_filter.mp hj).1

theorem getD_scales (hW : i.halfWindow < d.c ∨ i.halfWindow < 2 ^ 63) (src : View K)
    (hch : ch < d.c) : (i.scales (channels d src pixel)).getD ch 0 = i.scaleAt d src pixel ch := by
  have hlen : (channels d src pixel).length = d.c := by simp
  have hsum := i.windowSum_congr (Nat.zero_lt_of_lt hch)
    (fun j hj => congrArg (· ^ 2) (getD_channels src pixel hj)) ch
  rw [scales, i.squareSums_eq _ (by rwa [hlen]), hlen, List.map_map,
    List.getD_eq_getElem _ _ (by simpa using hch), List.getElem_map, List.getElem_range,
    Function.comp_apply, hsum, i.weight_eq hW]
  rfl

theorem getD_normalized (src : View K) (hch : ch < d.c) :
    (i.normalized (channels d src pixel)).getD ch 0
      = src.elem (pixel ++ [ch]) *
        Scalar.pow ((i.scales (channels d src pixel)).getD ch 0) (-i.beta) := by
  have hsrc : ch < (channels d src pixel).length := by simpa using hch
  have hscale : ch < (i.scales (channels d src pixel)).length := by simpa [length_scales] using hch
  rw [normalized, List.getD_eq_getElem _ _ (by rw [List.length_zipWith]; omega),
    List.getElem_zipWith, ← List.getD_eq_getElem _ 0 hsrc, ← List.getD_eq_getElem _ 0 hscale,
    getD_channels src pixel hch]

/-- The contribution of a channel to its input gradient, in closed form. -/
def slopeAt (d : NHWC) (src dest scale out : View K) (pixel : List Nat) (ch : Nat) : K :=
  let term (j : Nat) : K :=
    out.elem (pixel ++ [j]) * dest.elem (pixel ++ [j]) / scale.elem (pixel ++ [j])
  out.elem (pixel ++ [ch]) * Scalar.pow (scale.elem (pixel ++ [ch])) (-i.beta)
    - 2 * (i.alpha / (2 * i.halfWindow + 1)) * i.beta * src.elem (pixel ++ [ch]) *
      (∑ j ∈ channelWindow i.halfWindow d.c ch, term j - term 0)

theorem getD_slopes (hW : i.halfWindow < d.c ∨ i.halfWindow < 2 ^ 63)
    (src dest scale out : View K) (hch : ch < d.c) :
    (i.slopes (channels d src pixel) (channels d dest pixel) (channels d scale pixel)
      (channels d out pixel)).getD ch 0 = i.slopeAt d src dest scale out pixel ch := by
  have hterm (j : Nat) (hj : j < d.c) :
      (List.zipWith (· * ·) (channels d out pixel)
        (List.zipWith (· / ·) (channels d dest pixel) (channels d scale pixel))).getD j 0
      = out.elem (pixel ++ [j]) * dest.elem (pixel ++ [j]) / scale.elem (pixel ++ [j]) := by
    rw [List.getD_eq_getElem _ _ (by simpa using hj), List.getElem_zipWith, List.getElem_zipWith]
    simp only [channels, List.getElem_map, List.getElem_range]
    rw [mul_div_assoc]
  have hsum := i.windowSum_congr (Nat.zero_lt_of_lt hch) hterm ch
  have hlen : (List.zipWith (· * ·) (channels d out pixel)
      (List.zipWith (· / ·) (channels d dest pixel) (channels d scale pixel))).length = d.c := by
    simp
  have hsrc : (channels d src pixel).length = d.c := by simp
  rw [slopes, i.termSums_eq _ (by rwa [hlen]), hlen, hsrc,
    List.getD_eq_getElem _ _ (by simpa using hch), List.getElem_zipWith]
  simp only [List.getElem_zip, channels, List.getElem_map, List.getElem_range] at hsum ⊢
  rw [slope, hsum, i.weight_eq hW, ExactScalar.ofNat_eq, Nat.cast_ofNat]
  rfl

/-! ### Both directions -/

/-- Input, output and scales of a batch of images with a channel, the gradient of
the output and that of the input, both present or still missing. -/
structure Operands (c : Context K) (d : NHWC) (src dest scale out old : View K) : Prop where
  channels_ne : d.c ≠ 0
  src_ne : i.src ≠ i.dest
  src : c.weights[i.src]? = some src.tensor ∧ src.shape = d.toShape
  dest : c.weights[i.dest]? = some dest.tensor ∧ dest.shape = d.toShape
  scale : c.weights[i.scale]? = some scale.tensor ∧ scale.shape = d.toShape
  out : c.gradOrZeros i.dest = .ok out.tensor ∧ out.shape = d.toShape
  old : c.gradOrZeros i.src = .ok old.tensor ∧ old.shape = d.toShape

variable {i}

/-- What a successful run leaves: the scales and the outputs of every pixel. -/
theorem of_forward_ok {c c' : Context K} (h : i.forward c = .ok () c') :
    ∃ (d : NHWC) (src dest scale : View K), d.c ≠ 0 ∧ i.src ≠ i.dest ∧
      (c.weights[i.src]? = some src.tensor ∧ src.shape = d.toShape) ∧
      (c'.weights[i.dest]? = some dest.tensor ∧ dest.shape = d.toShape) ∧
      (c'.weights[i.scale]? = some scale.tensor ∧ scale.shape = d.toShape) ∧
      ∀ pixel ∈ pixels d, ∀ ch < d.c,
        scale.elem (pixel ++ [ch]) = (i.scales (channels d src pixel)).getD ch 0 ∧
        dest.elem (pixel ++ [ch]) = src.elem (pixel ++ [ch]) *
          Scalar.pow (scale.elem (pixel ++ [ch])) (-i.beta) := by
  obtain ⟨d, src, hpos, hsrc, hsrcs, hne, hds, hrun⟩ := Run.of_reports_or i.forward_cases h
  rw [hrun] at h
  obtain ⟨-, rfl⟩ := EStateM.Result.ok.inj h
  have hdest : ∀ pixel ∈ pixels d, (i.normalized (channels d src pixel)).length = d.c :=
    fun _ _ => by simp [length_normalized]
  have hscale : ∀ pixel ∈ pixels d, (i.scales (channels d src pixel)).length = d.c :=
    fun _ _ => by simp [length_scales]
  refine ⟨d, src, ⟨d.toShape, filled _ (i.outputWrites d src)⟩,
    ⟨d.toShape, filled _ (i.scaleWrites d src)⟩, hpos, hne.symm, ⟨hsrc, hsrcs⟩, ⟨?_, rfl⟩,
    ⟨Context.weights_setWeight_self, rfl⟩, fun pixel hp ch hch => ?_⟩
  · -- the scales are put back after the output
    rw [Context.weights_setWeight_of_ne hds.symm, Context.weights_setWeight_self]
    rfl
  · -- the output reads the scales it has just computed
    have hs : (View.mk d.toShape (filled _ (i.scaleWrites d src))).elem (pixel ++ [ch])
        = (i.scales (channels d src pixel)).getD ch 0 :=
      elem_applyWrites_rowWrites overwrite hscale _ hp hch
    refine ⟨hs, ?_⟩
    rw [hs]
    exact (elem_applyWrites_rowWrites overwrite hdest _ hp hch).trans (i.getD_normalized src hch)

/-- What the way back leaves in the input gradient, in closed form. -/
theorem Operands.backward {c : Context K} {src dest scale out old : View K}
    (h : i.Operands c d src dest scale out old)
    (hW : i.halfWindow < d.c ∨ i.halfWindow < 2 ^ 63) (policy : GradientPolicy) :
    ∃ (c' : Context K) (new : View K), i.backward policy c = .ok () c' ∧
      c'.grads[i.src]? = some new.tensor ∧ new.shape = d.toShape ∧
      ∀ pixel ∈ pixels d, ∀ ch < d.c, new.elem (pixel ++ [ch]) =
        policy.combine (old.elem (pixel ++ [ch])) (i.slopeAt d src dest scale out pixel ch) := by
  obtain ⟨hpos, hne, ⟨hsrc, hsrcs⟩, ⟨hdest, hdests⟩, ⟨hscale, hscales⟩, ⟨hout, houts⟩,
    ⟨hold, holds⟩⟩ := h
  obtain ⟨s, data⟩ := old
  obtain rfl : s = d.toShape := holds
  have hgrad : c.HasGrad i.src src.shape := by
    rw [hsrcs]
    exact ⟨data, hold⟩
  have hrun := i.backward_eq policy hsrc hdest hscale hsrcs hdests hscales hpos hne hgrad hout houts
  -- taking the output gradient out first leaves that of the input as it was
  have hkept : (c.deposit policy.combine (i.dest, [])).gradOrZeros i.src
      = .ok ⟨d.toShape, .float data⟩ :=
    (Context.gradOrZeros_deposit_of_ne hne.symm).trans hold
  have hlen : ∀ pixel ∈ pixels d, (i.slopes (channels d src pixel) (channels d dest pixel)
      (channels d scale pixel) (channels d out pixel)).length = d.c := fun _ _ =>
    i.length_slopes (by simp) (by simp) (by simp) (by simp)
  refine ⟨_, ⟨d.toShape, applyWrites policy.combine (i.inputTerms d src dest scale out) data⟩, hrun,
    Context.grads_deposit_self _ hkept, rfl, fun pixel hp ch hch => ?_⟩
  rw [← i.getD_slopes hW src dest scale out hch]
  exact elem_applyWrites_rowWrites policy.combine hlen data hp hch

/-- **Both directions in closed form.**  For a half window that is a signed word, the
scale of a channel is `k` and the weighted squares of its window less that of channel 0,
and the output is the input by a power of it.  The way back writes or adds, by policy,
the slope that sums the terms of the same window less that of channel 0. -/
theorem closed_form (i : LocalResponse K) (hW : i.halfWindow < 2 ^ 63) :
    (∀ c c', i.forward c = .ok () c' → ∃ (d : NHWC) (src dest scale : View K),
      d.c ≠ 0 ∧ i.src ≠ i.dest ∧
      (c.weights[i.src]? = some src.tensor ∧ src.shape = d.toShape) ∧
      (c'.weights[i.dest]? = some dest.tensor ∧ dest.shape = d.toShape) ∧
      (c'.weights[i.scale]? = some scale.tensor ∧ scale.shape = d.toShape) ∧
      ∀ n h w ch : Nat, n < d.n → h < d.h → w < d.w → ch < d.c →
        scale.elem [n, h, w, ch] = i.k + i.alpha / (2 * i.halfWindow + 1) *
          (∑ j ∈ Icc (ch - i.halfWindow) (min (d.c - 1) (ch + i.halfWindow)),
            src.elem [n, h, w, j] ^ 2 - src.elem [n, h, w, 0] ^ 2) ∧
        dest.elem [n, h, w, ch] = src.elem [n, h, w, ch] *
          Scalar.pow (scale.elem [n, h, w, ch]) (-i.beta)) ∧
    ∀ (policy : GradientPolicy) (c : Context K) (d : NHWC) (src dest scale out old : View K),
      i.Operands c d src dest scale out old → ∃ (c' : Context K) (new : View K),
        i.backward policy c = .ok () c' ∧
        c'.grads[i.src]? = some new.tensor ∧ new.shape = d.toShape ∧
        ∀ n h w ch : Nat, n < d.n → h < d.h → w < d.w → ch < d.c →
          let term (j : Nat) : K :=
            out.elem [n, h, w, j] * dest.elem [n, h, w, j] / scale.elem [n, h, w, j]
          new.elem [n, h, w, ch] = policy.combine (old.elem [n, h, w, ch])
            (out.elem [n, h, w, ch] * Scalar.pow (scale.elem [n, h, w, ch]) (-i.beta)
              - 2 * (i.alpha / (2 * i.halfWindow + 1)) * i.beta * src.elem [n, h, w, ch] *
                (∑ j ∈ Icc (ch - i.halfWindow) (min (d.c - 1) (ch + i.halfWindow)), term j
                  - term 0)) := by
  constructor
  · intro c c' hrun
    obtain ⟨d, src, dest, scale, hpos, hne, hsrc, hdest, hscale, hform⟩ := of_forward_ok hrun
    refine ⟨d, src, dest, scale, hpos, hne, hsrc, hdest, hscale, fun n h w ch hn hh hw hch => ?_⟩
    have hpixel := hform [n, h, w] (mem_pixels.mpr ⟨n, h, w, hn, hh, hw, rfl⟩) ch hch
    exact ⟨hpixel.1.trans (i.getD_scales (.inr hW) src hch), hpixel.2⟩
  · intro policy c d src dest scale out old hop
    obtain ⟨c', new, hrun, hnew, hshape, hform⟩ := hop.backward (.inr hW) policy
    exact ⟨c', new, hrun, hnew, hshape, fun n h w ch hn hh hw hch =>
      hform [n, h, w] (mem_pixels.mpr ⟨n, h, w, hn, hh, hw, rfl⟩) ch hch⟩

/-- Rational numbers with a product in place of the power. -/
local instance rationals : ExactScalar ℚ :=
  exactScalars (fun _ => 0) (fun _ => 0) (fun x y => x * y) fun _ _ _ => 0

/-- A normalization whose window reaches `half` channels on either side. -/
def normalization (half : Nat) : LocalResponse ℚ := ⟨1, 0, 2, half, 3, 1, 2⟩

/-- A pixel of two channels, its output and its scales, and the gradients of both
ends. -/
def twoChannels (first second : ℚ) : Context ℚ :=
  ((((({} : Context ℚ).setWeight 0 ⟨⟨[1, 1, 1, 2]⟩, .float #v[first, second]⟩).setWeight 1
    ⟨⟨[1, 1, 1, 2]⟩, .float #v[3, 4]⟩).setWeight 2 ⟨⟨[1, 1, 1, 2]⟩, .float #v[1, 2]⟩).setGrad 0
    ⟨⟨[1, 1, 1, 2]⟩, .float #v[5, 6]⟩).setGrad 1 ⟨⟨[1, 1, 1, 2]⟩, .float #v[1, 1]⟩

theorem input_twoChannels {first second : ℚ} {d : NHWC} {src : View ℚ}
    (hsrc : (twoChannels first second).weights[(0 : ValueId)]? = some src.tensor)
    (hsrcs : src.shape = d.toShape) :
    src = ⟨⟨[1, 1, 1, 2]⟩, #v[first, second]⟩ ∧ d = ⟨1, 1, 1, 2⟩ := by
  obtain rfl : ⟨⟨[1, 1, 1, 2]⟩, #v[first, second]⟩ = src :=
    Except.ok.inj (Context.floats_eq hsrc)
  obtain ⟨n, h, w, k⟩ := d
  obtain ⟨rfl, rfl, rfl, rfl⟩ : 1 = n ∧ 1 = h ∧ 1 = w ∧ 2 = k := by
    simpa [NHWC.toShape] using congrArg Shape.dims hsrcs
  exact ⟨rfl, rfl⟩

theorem closed_form_twoChannels :
    (∃ (c' : Context ℚ) (dest scale : View ℚ),
      (normalization 1).forward (twoChannels 1 2) = .ok () c' ∧
      c'.weights[(1 : ValueId)]? = some dest.tensor ∧
      c'.weights[(2 : ValueId)]? = some scale.tensor ∧
      scale.elem [0, 0, 0, 1] = 6 ∧ dest.elem [0, 0, 0, 1] = -12) ∧
    ∃ (c' : Context ℚ) (new : View ℚ),
      (normalization 1).backward .accumulate (twoChannels 1 2) = .ok () c' ∧
      c'.grads[(0 : ValueId)]? = some new.tensor ∧
      new.elem [0, 0, 0, 0] = 0 ∧ new.elem [0, 0, 0, 1] = -4 := by
  obtain ⟨hforward, hbackward⟩ := closed_form (normalization 1) (by decide)
  constructor
  · obtain ⟨c', hrun⟩ : ∃ c', (normalization 1).forward (twoChannels 1 2) = .ok () c' := ⟨_, rfl⟩
    obtain ⟨d, src, dest, scale, -, -, ⟨hsrc, hsrcs⟩, ⟨hdest, -⟩, ⟨hscale, -⟩, hform⟩ :=
      hforward _ _ hrun
    obtain ⟨rfl, rfl⟩ := input_twoChannels hsrc hsrcs
    obtain ⟨hs, hd⟩ := hform 0 0 0 1 (by decide) (by decide) (by decide) (by decide)
    have hsix : scale.elem [0, 0, 0, 1] = 6 := hs.trans (by decide +kernel)
    rw [hsix] at hd
    exact ⟨c', dest, scale, hrun, hdest, hscale, hsix, hd.trans (by decide +kernel)⟩
  · have hop : (normalization 1).Operands (twoChannels 1 2) ⟨1, 1, 1, 2⟩
        ⟨⟨[1, 1, 1, 2]⟩, #v[1, 2]⟩ ⟨⟨[1, 1, 1, 2]⟩, #v[3, 4]⟩ ⟨⟨[1, 1, 1, 2]⟩, #v[1, 2]⟩
        ⟨⟨[1, 1, 1, 2]⟩, #v[1, 1]⟩ ⟨⟨[1, 1, 1, 2]⟩, #v[5, 6]⟩ :=
      ⟨by decide, by decide, ⟨rfl, rfl⟩, ⟨rfl, rfl⟩, ⟨rfl, rfl⟩, ⟨rfl, rfl⟩, ⟨rfl, rfl⟩⟩
    obtain ⟨c', new, hrun, hnew, -, hform⟩ := hbackward .accumulate _ _ _ _ _ _ _ hop
    have hfirst := hform 0 0 0 0 (by decide) (by decide) (by decide) (by decide)
    have hsecond := hform 0 0 0 1 (by decide) (by decide) (by decide) (by decide)
    exact ⟨c', new, hrun, hnew, hfirst.trans (by decide +kernel),
      hsecond.trans (by decide +kernel)⟩

/-- A half window that is no signed word weighs the squares by one, and a gradient that
is older than the input it belongs to is a fault. -/
theorem wrapped_scale_twoChannels :
    (∃ (c' : Context ℚ) (scale : View ℚ),
      (normalization (2 ^ 63)).forward (twoChannels 1 2) = .ok () c' ∧
      c'.weights[(2 : ValueId)]? = some scale.tensor ∧ scale.elem [0, 0, 0, 1] = 14 ∧
      (normalization (2 ^ 63)).scaleAt ⟨1, 1, 1, 2⟩ ⟨⟨[1, 1, 1, 2]⟩, #v[1, 2]⟩ [0, 0, 0] 1 ≠ 14) ∧
    ∃ c', (normalization 1).backward .accumulate ((twoChannels 1 2).setGrad 0
      ⟨⟨[1, 1, 1, 1]⟩, .float #v[5]⟩) = .error .fault c' := by
  refine ⟨?_, _, rfl⟩
  obtain ⟨c', hrun⟩ : ∃ c', (normalization (2 ^ 63)).forward (twoChannels 1 2) = .ok () c' :=
    ⟨_, rfl⟩
  obtain ⟨d, src, dest, scale, -, -, ⟨hsrc, hsrcs⟩, -, ⟨hscale, -⟩, hform⟩ := of_forward_ok hrun
  obtain ⟨rfl, rfl⟩ := input_twoChannels hsrc hsrcs
  have hpixel : [0, 0, 0] ∈ pixels ⟨1, 1, 1, 2⟩ := by decide
  exact ⟨c', scale, hrun, hscale, (hform _ hpixel 1 (by decide)).1.trans (by decide +kernel),
    by decide +kernel⟩

/-! ### How small a scale can be -/

section Ordered

variable [LinearOrder K] [IsStrictOrderedRing K]

/-- Without channel 0 the sum of squares lacks at most its square. -/
theorem neg_le_windowSum {f : Nat → K} (hf : ∀ j, 0 ≤ f j) (half channels c : Nat) :
    -f 0 ≤ windowSum half channels f c := by
  rw [windowSum, neg_le_sub_iff_le_add, le_add_iff_nonneg_left]
  exact Finset.sum_nonneg fun j _ => hf j

theorem weight_nonneg (halpha : 0 ≤ i.alpha) : 0 ≤ i.alpha / (2 * i.halfWindow + 1) := by
  positivity

/-- A window that covers the row gives no channel up, so its sums are sums of squares. -/
theorem squareSums_nonneg (row : List K) (hwide : row.length ≤ i.halfWindow) :
    ∀ s ∈ i.squareSums row, 0 ≤ s := by
  refine forall_runningSums ?_ fun c s hc hs => ?_
  · rw [Scalar.sum_eq]
    exact List.sum_nonneg fun x hx => by
      obtain ⟨j, -, rfl⟩ := List.mem_map.mp hx
      exact mul_self_nonneg _
  · dsimp only
    rw [if_neg (show ¬ i.halfWindow ≤ c by omega), mul_zero, sub_zero]
    exact add_nonneg hs (mul_self_nonneg _)

/-- The scales of a row that the window covers are at least `k`. -/
theorem le_scales (halpha : 0 ≤ i.alpha) {row : List K} (hwide : row.length ≤ i.halfWindow)
    (hch : ch < row.length) : i.k ≤ (i.scales row).getD ch 0 := by
  have hlen : ch < (i.squareSums row).length := by simpa [squareSums] using hch
  have hsum := i.squareSums_nonneg row hwide _ (List.getElem_mem hlen)
  have hweight : 0 ≤ i.weight row.length := by
    rw [weight, ExactScalar.ofNat_eq]
    positivity
  rw [scales, List.getD_eq_getElem _ _ (by simpa using hlen), List.getElem_map]
  exact le_add_of_nonneg_right (mul_nonneg hweight hsum)

section Scale

variable (halpha : 0 ≤ i.alpha) (d : NHWC) (src : View K) (pixel : List Nat)

include halpha

/-- A scale is at least `k` if and only if the squares do not count or those of the
window make up for that of channel 0. -/
theorem le_scaleAt_iff (ch : Nat) : i.k ≤ i.scaleAt d src pixel ch ↔ i.alpha = 0 ∨
    src.elem (pixel ++ [0]) ^ 2
      ≤ ∑ j ∈ channelWindow i.halfWindow d.c ch, src.elem (pixel ++ [j]) ^ 2 := by
  have hweight := weight_nonneg halpha
  -- the weight can only vanish with `alpha`
  have hdenominator : (2 * (i.halfWindow : K) + 1) ≠ 0 := by positivity
  rw [scaleAt, le_add_iff_nonneg_right]
  constructor
  · intro hterm
    rcases hweight.eq_or_lt with hzero | hpos
    · exact .inl ((div_eq_zero_iff.mp hzero.symm).resolve_right hdenominator)
    · exact .inr (sub_nonneg.mp (nonneg_of_mul_nonneg_right hterm hpos))
  · rintro (hzero | hsum)
    · rw [hzero, zero_div, zero_mul]
    · exact mul_nonneg hweight (sub_nonneg.mpr hsum)

/-- As long as channel 0 is in the window, its square is one of the window's. -/
theorem le_scaleAt {ch : Nat} (hle : ch ≤ i.halfWindow) : i.k ≤ i.scaleAt d src pixel ch := by
  have hmem : 0 ∈ channelWindow i.halfWindow d.c ch := by
    simp [channelWindow, Finset.mem_Icc, hle]
  exact (le_scaleAt_iff halpha d src pixel ch).mpr (.inr
    (Finset.single_le_sum (fun j _ => sq_nonneg (src.elem (pixel ++ [j]))) hmem))

/-- A scale is never smaller than `k` by more than the weighted square of
channel 0. -/
theorem sub_le_scaleAt (ch : Nat) :
    i.k - i.alpha / (2 * i.halfWindow + 1) * src.elem (pixel ++ [0]) ^ 2
      ≤ i.scaleAt d src pixel ch := by
  have hsum := neg_le_windowSum (fun j => sq_nonneg (src.elem (pixel ++ [j]))) i.halfWindow d.c ch
  have hterm := mul_le_mul_of_nonneg_left hsum (weight_nonneg halpha)
  rw [mul_neg] at hterm
  rw [sub_eq_add_neg]
  exact (add_le_add_iff_left i.k).mpr hterm

end Scale

/-- **How small a scale can be.**  As far as the window reaches channel 0, a scale
is at least `k`.  Beyond, where the square of channel 0 was given up without ever
having been taken in, it is so exactly if the squares do not count or those of
the window make up for that one, and it is never smaller than `k` by more than
the weighted square of channel 0. -/
theorem scales_bounded {i : LocalResponse K} (hk : 0 < i.k) (halpha : 0 ≤ i.alpha)
    {c c' : Context K} (hrun : i.forward c = .ok () c') :
    ∃ (d : NHWC) (src scale : View K), c.weights[i.src]? = some src.tensor ∧
      src.shape = d.toShape ∧ c'.weights[i.scale]? = some scale.tensor ∧ scale.shape = d.toShape ∧
      ∀ n h w ch : Nat, n < d.n → h < d.h → w < d.w → ch < d.c →
        (ch ≤ i.halfWindow → i.k ≤ scale.elem [n, h, w, ch] ∧ 0 < scale.elem [n, h, w, ch]) ∧
        (i.k ≤ scale.elem [n, h, w, ch] ↔ i.alpha = 0 ∨ src.elem [n, h, w, 0] ^ 2 ≤
          ∑ j ∈ Icc (ch - i.halfWindow) (min (d.c - 1) (ch + i.halfWindow)),
            src.elem [n, h, w, j] ^ 2) ∧
        i.k - i.alpha / (2 * i.halfWindow + 1) * src.elem [n, h, w, 0] ^ 2
          ≤ scale.elem [n, h, w, ch] := by
  obtain ⟨d, src, dest, scale, -, -, ⟨hsrc, hsrcs⟩, -, ⟨hscale, hscales⟩, hform⟩ :=
    of_forward_ok hrun
  refine ⟨d, src, scale, hsrc, hsrcs, hscale, hscales, fun n h w ch hn hh hw hch => ?_⟩
  obtain ⟨hform, -⟩ := hform [n, h, w] (mem_pixels.mpr ⟨n, h, w, hn, hh, hw, rfl⟩) ch hch
  rcases Nat.lt_or_ge i.halfWindow d.c with hlt | hwide
  case inr =>
    -- the window covers the row, and with it channel 0
    have hge : i.k ≤ scale.elem [n, h, w, ch] :=
      (i.le_scales halpha (by simpa using hwide) (by simpa using hch)).trans_eq hform.symm
    have hsquare : src.elem [n, h, w, 0] ^ 2 ≤
        ∑ j ∈ Icc (ch - i.halfWindow) (min (d.c - 1) (ch + i.halfWindow)),
          src.elem [n, h, w, j] ^ 2 :=
      Finset.single_le_sum (fun j _ => sq_nonneg (src.elem [n, h, w, j]))
        (Finset.mem_Icc.mpr ⟨by omega, Nat.zero_le _⟩)
    have hterm := mul_nonneg (weight_nonneg halpha) (sq_nonneg (src.elem [n, h, w, 0]))
    exact ⟨fun _ => ⟨hge, hk.trans_le hge⟩, iff_of_true hge (.inr hsquare),
      (sub_le_self _ hterm).trans hge⟩
  replace hform := hform.trans (i.getD_scales (.inl hlt) src hch)
  have hnear (hle : ch ≤ i.halfWindow) := le_scaleAt halpha d src [n, h, w] hle
  have hexactly := le_scaleAt_iff halpha d src [n, h, w] ch
  have hbelow := sub_le_scaleAt halpha d src [n, h, w] ch
  rw [← hform] at hexactly hbelow
  refine ⟨fun hle => ?_, hexactly, hbelow⟩
  have hge : i.k ≤ scale.elem [n, h, w, ch] := (hnear hle).trans_eq hform.symm
  exact ⟨hge, hk.trans_le hge⟩

end Ordered

theorem scales_bounded_twoChannels : 0 < (normalization 1).k ∧ 0 ≤ (normalization 1).alpha ∧
    ∃ (c' : Context ℚ) (scale : View ℚ),
      (normalization 1).forward (twoChannels 1 2) = .ok () c' ∧
      c'.weights[(2 : ValueId)]? = some scale.tensor ∧ 0 < scale.elem [0, 0, 0, 1] := by
  have hk : 0 < (normalization 1).k := by decide +kernel
  have halpha : 0 ≤ (normalization 1).alpha := by decide +kernel
  obtain ⟨c', hrun⟩ : ∃ c', (normalization 1).forward (twoChannels 1 2) = .ok () c' := ⟨_, rfl⟩
  obtain ⟨d, src, scale, hsrc, hsrcs, hscale, -, hbounds⟩ := scales_bounded hk halpha hrun
  obtain ⟨rfl, rfl⟩ := input_twoChannels hsrc hsrcs
  obtain ⟨hnear, -⟩ := hbounds 0 0 0 1 (by decide) (by decide) (by decide) (by decide)
  exact ⟨hk, halpha, c', scale, hrun, hscale, (hnear (by decide)).2⟩

/-- A window of one channel forgets channel 0 before channel 1: the scale there is
below `k`, and below zero. -/
theorem scale_below_k_twoChannels : 0 < (normalization 0).k ∧ 0 ≤ (normalization 0).alpha ∧
    ∃ (c' : Context ℚ) (scale : View ℚ),
      (normalization 0).forward (twoChannels 1 0) = .ok () c' ∧
      c'.weights[(normalization 0).scale]? = some scale.tensor ∧
      scale.elem [0, 0, 0, 1] < (normalization 0).k ∧ scale.elem [0, 0, 0, 1] = -1 := by
  obtain ⟨c', hrun⟩ : ∃ c', (normalization 0).forward (twoChannels 1 0) = .ok () c' := ⟨_, rfl⟩
  obtain ⟨d, src, dest, scale, -, -, ⟨hsrc, hsrcs⟩, -, ⟨hscale, -⟩, hform⟩ := of_forward_ok hrun
  obtain ⟨rfl, rfl⟩ := input_twoChannels hsrc hsrcs
  have hpixel : [0, 0, 0] ∈ pixels ⟨1, 1, 1, 2⟩ := by decide
  have hvalue : scale.elem [0, 0, 0, 1] = -1 :=
    (hform _ hpixel 1 (by decide)).1.trans (by decide +kernel)
  refine ⟨by decide +kernel, by decide +kernel, c', scale, hrun, hscale, ?_, hvalue⟩
  rw [hvalue]
  decide +kernel

end LocalResponse

end TensorProgram
