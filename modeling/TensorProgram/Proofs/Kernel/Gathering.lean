/-
TensorProgram/Proofs/Kernel/Gathering.lean

The way back of a convolution, gathered.  The kernel scatters: it visits the
outputs and adds to the gradients tap by tap, so one element of a gradient
receives contributions from many visits.  Computed exactly, the order of these is
of no account, and what an element gains is a sum over the outputs that reach it.

The entry of the input under entry `f` of the window at output position `a` is
`Window.under`; it may lie in the padding.  The element of the filter gradient at
`[z, fx, fy, ch]` gathers over the outputs whose window has the input under
`(fx, fy)`, and the element of the input gradient at `[n, x, y, ch]` over all ways
in which an output has `(x, y)` under an entry of its window.  The windows have to stay
in the signed words for that (`Convolution.backward_wrappedPadding`).

The coordinates of a walk meet the positions of a buffer once
(`total_map_flat`), so of all contributions those with the coordinate of the
element are left.  Main statement: `Convolution.gradients_gather`.
-/
import TensorProgram.Proofs.Gradient.Additivity
import TensorProgram.Proofs.Kernel.Operands
import TensorProgram.Proofs.Kernel.Padding

namespace TensorProgram

open Context (writesTo_nil writesTo_cons)
open Shape (coordinatesIn flat)

variable {K : Type} [ExactScalar K]

/-! ### Totals of walks -/

section Totals

variable {ι : Type} {k : Nat}

theorem total_flatMap (xs : List ι) (ws : ι → List (Nat × K)) :
    total (xs.flatMap ws) k = (xs.map fun x => total (ws x) k).sum :=
  sum_map_flatMap xs ws _

/-- Of a walk over coordinates, those of the element count. -/
theorem total_map_flat {dims coord : List Nat} {xs : List ι} {p : ι → List Nat} {v : ι → K}
    (hp : ∀ x ∈ xs, p x ∈ coordinatesIn dims) (hcoord : coord ∈ coordinatesIn dims) :
    total (xs.map fun x => (flat dims (p x), v x)) (flat dims coord)
      = (xs.map fun x => if p x = coord then v x else 0).sum := by
  rw [total, List.map_map]
  refine congrArg List.sum (List.map_congr_left fun x hx => if_congr ?_ rfl rfl)
  exact ⟨Shape.flat_injOn (hp x hx) hcoord, congrArg (flat dims)⟩

end Totals

/-- From one context to the other, the gradient of a value, which starts from
zeros if it is missing, gains `δ` at every coordinate. -/
def Context.Gains (c c' : Context K) (id : ValueId) (s : Shape) (δ : List Nat → K) : Prop :=
  ∃ old new : Vector K s.elemCount, c.gradOrZeros id = .ok ⟨s, .float old⟩ ∧
    c'.grads[id]? = some ⟨s, .float new⟩ ∧
    ∀ coord ∈ s.coordinates, (View.mk s new).elem coord = (View.mk s old).elem coord + δ coord

/-- Deposits that accumulate add the total of the writes to a value. -/
theorem Context.gains_deposits {c : Context K} {id : ValueId} {s : Shape} {δ : List Nat → K}
    {ds : List (Deposit K)} (hgrad : c.HasGrad id s) (hid : id ∈ ds.map Prod.fst)
    (h : ∀ coord ∈ s.coordinates, total (writesTo id ds) (flat s.dims coord) = δ coord) :
    c.Gains (c.deposits accumulate ds) id s δ := by
  obtain ⟨old, hold⟩ := hgrad
  refine ⟨old, _, hold, grads_deposits hold hid, fun coord hcoord => ?_⟩
  obtain ⟨hlen, hin⟩ := Shape.mem_coordinatesIn.mp hcoord
  have hlt : flat s.dims coord < s.elemCount := Shape.flat_lt hin hlen
  simp only [View.elem, View.entry, dif_pos hlt]
  rw [getElem_applyWrites_accumulate, h coord hcoord]

/-! ### Sums over sites and taps -/

namespace Window

variable (win : Window) {input output : NHWC} {M : Type} [AddCommMonoid M]

/-- A sum over sites is one over images, channels and output positions. -/
theorem sum_sites (g : OutputSite → M) :
    ((win.sites output).map g).sum =
      ∑ n ∈ Finset.range output.n, ∑ z ∈ Finset.range output.c,
        ∑ a ∈ Finset.range output.h ×ˢ Finset.range output.w, g ⟨n, z, win.anchor a.1 a.2⟩ := by
  simp only [sites, anchors, sum_map_flatMap, List.map_map, Function.comp_def, sum_map_range,
    Finset.sum_product_right]

variable {win} in
/-- In words, a sum over the taps of a window is one over its entries above the input. -/
theorem sum_taps (hwords : win.InWords input output) {ax ay : Nat} (hax : ax < output.h)
    (hay : ay < output.w) (g : ChannelTap → M) :
    ((win.channelTaps (win.anchor ax ay) input).map g).sum =
      ∑ fx ∈ Finset.range win.kernel, ∑ fy ∈ Finset.range win.kernel,
        if (0 ≤ win.under ax fx ∧ win.under ax fx < input.h) ∧
            0 ≤ win.under ay fy ∧ win.under ay fy < input.w then
          ∑ ch ∈ Finset.range input.c,
            g ⟨⟨fx, fy, (win.under ax fx).toNat, (win.under ay fy).toNat⟩, ch⟩
        else 0 := by
  rw [sum_channelTaps]
  refine Finset.sum_congr rfl fun fx hfx => Finset.sum_congr rfl fun fy hfy => ?_
  rw [hwords.tap?_anchor hax hay (Finset.mem_range.mp hfx) (Finset.mem_range.mp hfy)]
  split
  case isTrue hin =>
    rw [if_pos (by omega)]
    rfl
  case isFalse hout =>
    rw [if_neg (by omega)]
    rfl

variable {win} in
/-- In words, a sum over the taps of all sites is one over images, channels, output
positions and the entries of their windows above the input. -/
theorem sum_sites_taps (hwords : win.InWords input output) (g : OutputSite → ChannelTap → M) :
    ((win.sites output).map fun o => ((win.channelTaps o.anchor input).map (g o)).sum).sum =
      ∑ n ∈ Finset.range output.n, ∑ z ∈ Finset.range output.c,
        ∑ a ∈ Finset.range output.h ×ˢ Finset.range output.w,
          ∑ fx ∈ Finset.range win.kernel, ∑ fy ∈ Finset.range win.kernel,
            if (0 ≤ win.under a.1 fx ∧ win.under a.1 fx < input.h) ∧
                0 ≤ win.under a.2 fy ∧ win.under a.2 fy < input.w then
              ∑ ch ∈ Finset.range input.c, g ⟨n, z, win.anchor a.1 a.2⟩
                ⟨⟨fx, fy, (win.under a.1 fx).toNat, (win.under a.2 fy).toNat⟩, ch⟩
            else 0 := by
  rw [sum_sites]
  refine Finset.sum_congr rfl fun n _ => Finset.sum_congr rfl fun z _ =>
    Finset.sum_congr rfl fun a ha => ?_
  obtain ⟨hax, hay⟩ := Finset.mem_product.mp ha
  exact sum_taps hwords (Finset.mem_range.mp hax) (Finset.mem_range.mp hay) _

end Window

/-! ### What the gradients of a convolution gain -/

namespace Convolution

variable (i : Convolution) (source : FilterGradSource) {d : ImageDims}
  {src filter bias out : View K} {dest : Shape}

/-- What the filter gradient gains at a coordinate. -/
def filterGain (d : ImageDims) (src out : View K) : List Nat → K
  | [z, fx, fy, ch] =>
      ∑ n ∈ Finset.range d.output.n,
        ∑ a ∈ Finset.range d.output.h ×ˢ Finset.range d.output.w with
            (0 ≤ i.window.under a.1 fx ∧ i.window.under a.1 fx < d.input.h) ∧
              0 ≤ i.window.under a.2 fy ∧ i.window.under a.2 fy < d.input.w,
          src.elem [source.image n, (i.window.under a.1 fx).toNat, (i.window.under a.2 fy).toNat, ch]
            * out.elem [n, a.1, a.2, z]
  | _ => 0

/-- What the input gradient gains at a coordinate. -/
def inputGain (d : ImageDims) (filter out : View K) : List Nat → K
  | [n, x, y, ch] =>
      ∑ z ∈ Finset.range d.output.c, ∑ a ∈ Finset.range d.output.h ×ˢ Finset.range d.output.w,
        ∑ f ∈ Finset.range i.window.kernel ×ˢ Finset.range i.window.kernel with
            i.window.under a.1 f.1 = x ∧ i.window.under a.2 f.2 = y,
          filter.elem [z, f.1, f.2, ch] * out.elem [n, a.1, a.2, z]
  | _ => 0

/-- What the bias gradient gains at a coordinate. -/
def biasGain (d : ImageDims) (out : View K) : List Nat → K
  | [z] =>
      ∑ n ∈ Finset.range d.output.n,
        ∑ a ∈ Finset.range d.output.h ×ˢ Finset.range d.output.w, out.elem [n, a.1, a.2, z]
  | _ => 0

/-- Every contribution to the filter gradient with the coordinate of an element is
one of an output with the input under that entry of its window. -/
theorem total_filterTerms (hwords : i.window.InWords d.input d.output) {coord : List Nat}
    (hcoord : coord ∈ coordinatesIn
      [d.output.c, i.window.kernel, i.window.kernel, d.input.c]) :
    total (i.filterTerms source d src out)
        (flat [d.output.c, i.window.kernel, i.window.kernel, d.input.c] coord)
      = i.filterGain source d src out coord := by
  obtain ⟨z, fx, fy, ch, rfl⟩ := List.length_eq_four.mp (Shape.mem_coordinatesIn.mp hcoord).1
  obtain ⟨-, hz, hfx, hfy, hch, -⟩ := Shape.mem_coordinatesIn.mp hcoord
  have hhits : total (i.filterTerms source d src out)
        (flat [d.output.c, i.window.kernel, i.window.kernel, d.input.c] [z, fx, fy, ch])
      = ((i.window.sites d.output).map fun o =>
          ((i.window.channelTaps o.anchor d.input).map fun t =>
            if t.inFilter o.d = [z, fx, fy, ch] then
              src.elem (t.inImage (source.image o.n)) * out.elem o.coord else 0).sum).sum := by
    rw [filterTerms, total_flatMap]
    refine congrArg List.sum (List.map_congr_left fun o ho => total_map_flat (fun t ht => ?_) hcoord)
    exact Shape.mem_coordinatesIn.mpr ⟨rfl, i.inside_inFilter ho ht⟩
  -- the entry fixes channels and offsets: what is summed up are images and positions
  rw [hhits, Window.sum_sites_taps hwords, filterGain]
  refine Finset.sum_congr rfl fun n _ => ?_
  simp only [ChannelTap.inFilter, List.cons.injEq, and_true]
  rw [Finset.sum_eq_single_of_mem z (Finset.mem_range.mpr hz) fun e _ he => by simp [he],
    Finset.sum_filter]
  refine Finset.sum_congr rfl fun a _ => ?_
  rw [Finset.sum_eq_single_of_mem fx (Finset.mem_range.mpr hfx) fun e _ he => by simp [he],
    Finset.sum_eq_single_of_mem fy (Finset.mem_range.mpr hfy) fun e _ he => by simp [he],
    Finset.sum_eq_single_of_mem ch (Finset.mem_range.mpr hch) fun e _ he => by simp [he]]
  exact if_congr Iff.rfl (if_pos ⟨rfl, rfl, rfl, rfl⟩) rfl

/-- Every contribution to the input gradient with the coordinate of an element is
one of an output with the element under an entry of its window. -/
theorem total_inputTerms (hwords : i.window.InWords d.input d.output)
    (hbatch : d.input.n = d.output.n) {coord : List Nat}
    (hcoord : coord ∈ coordinatesIn d.input.toShape.dims) :
    total (i.inputTerms d filter out) (flat d.input.toShape.dims coord)
      = i.inputGain d filter out coord := by
  obtain ⟨n, x, y, ch, rfl⟩ := List.length_eq_four.mp (Shape.mem_coordinatesIn.mp hcoord).1
  obtain ⟨-, hn, hx, hy, hch, -⟩ := Shape.mem_coordinatesIn.mp hcoord
  have hhits : total (i.inputTerms d filter out) (flat d.input.toShape.dims [n, x, y, ch])
      = ((i.window.sites d.output).map fun o =>
          ((i.window.channelTaps o.anchor d.input).map fun t =>
            if t.inImage o.n = [n, x, y, ch] then
              filter.elem (t.inFilter o.d) * out.elem o.coord else 0).sum).sum := by
    rw [inputTerms, total_flatMap]
    refine congrArg List.sum (List.map_congr_left fun o ho => total_map_flat (fun t ht => ?_) hcoord)
    have hin : o.n < d.input.n := hbatch ▸ (i.window.mem_sites.mp ho).1
    exact Shape.mem_coordinatesIn.mpr ⟨rfl, i.inside_inImage ht hin⟩
  rw [hhits, Window.sum_sites_taps hwords, inputGain]
  simp only [ChannelTap.inImage, List.cons.injEq, and_true]
  rw [Finset.sum_eq_single_of_mem n (Finset.mem_range.mpr (hbatch ▸ hn)) fun e _ he => by simp [he]]
  refine Finset.sum_congr rfl fun z _ => Finset.sum_congr rfl fun a _ => ?_
  simp only [Finset.sum_filter, Finset.sum_product]
  refine Finset.sum_congr rfl fun fx _ => Finset.sum_congr rfl fun fy _ => ?_
  rw [Finset.sum_eq_single_of_mem ch (Finset.mem_range.mpr hch) fun e _ he => by simp [he],
    ← ite_and]
  -- an entry under the window is `(x, y)` if it is inside and has these coordinates
  refine if_congr ⟨?_, ?_⟩ rfl rfl
  · rintro ⟨⟨⟨hx₀, -⟩, hy₀, -⟩, -, hx', hy', -⟩
    omega
  · rintro ⟨hx', hy'⟩
    exact ⟨by omega, trivial, by omega, by omega, rfl⟩

/-- Every contribution to the bias gradient at a channel is the gradient of one of
its outputs. -/
theorem total_biasTerms {coord : List Nat} (hcoord : coord ∈ coordinatesIn [d.output.c]) :
    total (i.biasTerms d out) (flat [d.output.c] coord) = biasGain d out coord := by
  obtain ⟨z, rfl⟩ := List.length_eq_one_iff.mp (Shape.mem_coordinatesIn.mp hcoord).1
  obtain ⟨-, hz, -⟩ := Shape.mem_coordinatesIn.mp hcoord
  have hsite (o : OutputSite) (ho : o ∈ i.window.sites d.output) :
      [o.d] ∈ coordinatesIn [d.output.c] :=
    Shape.mem_coordinatesIn.mpr ⟨rfl, (i.window.mem_sites.mp ho).2.1, Shape.inside_nil _⟩
  rw [biasTerms, total_map_flat hsite hcoord, Window.sum_sites, biasGain]
  refine Finset.sum_congr rfl fun n _ => ?_
  simp only [List.cons.injEq, and_true]
  rw [Finset.sum_eq_single_of_mem z (Finset.mem_range.mpr hz) fun e _ he => by simp [he]]
  exact Finset.sum_congr rfl fun a _ => if_pos rfl

/-- **The gradients of a convolution, gathered.**  After a way back that succeeds,
computed exactly, every element of the three gradients has gained the sum of the
contributions that reach it: the bias over all outputs of its channel and, if the
windows stay in the signed words, the filter over the images and output positions with
the input under that entry of the window and the input over the channels, output
positions and entries that have it under the window. -/
theorem gradients_gather {c c' : Context K} (hids : [i.dest, i.src, i.filter, i.bias].Nodup)
    (hc : c.Mirrored) (hrun : i.backward source c = .ok () c') :
    ∃ (d : ImageDims) (src filter bias out : View K), i.Operands c d src filter bias out ∧
      (i.window.InWords d.input d.output →
        c.Gains c' i.filter filter.shape (i.filterGain source d src out) ∧
        c.Gains c' i.src src.shape (i.inputGain d filter out)) ∧
      c.Gains c' i.bias bias.shape (biasGain d out) := by
  obtain ⟨d, src, filter, bias, out, h⟩ := exists_operands_of_backward hc hids hrun
  obtain ⟨hds, hdf, hdb, hsf, hsb, hfb⟩ := ne_of_nodup_four hids
  rw [h.backward_eq hc hids source] at hrun
  obtain ⟨-, rfl⟩ := EStateM.Result.ok.inj hrun
  -- the operands differ, so each receives one of the deposits
  refine ⟨d, src, filter, bias, out, h, fun hwords => ⟨?_, ?_⟩, ?_⟩
  · refine Context.gains_deposits (hc.hasGrad h.filter) (by simp) ?_
    simp only [h.fits.filter, writesTo_cons, writesTo_nil, hdf, hsf, hfb.symm, if_true, if_false,
      List.append_nil]
    exact fun coord hcoord => i.total_filterTerms source hwords hcoord
  · refine Context.gains_deposits (hc.hasGrad h.src) (by simp) ?_
    simp only [h.fits.src, writesTo_cons, writesTo_nil, hds, hsf.symm, hsb.symm, if_true, if_false,
      List.append_nil]
    exact fun coord hcoord => i.total_inputTerms hwords h.fits.batch hcoord
  · refine Context.gains_deposits (hc.hasGrad h.bias) (by simp) ?_
    simp only [h.fits.bias, writesTo_cons, writesTo_nil, hdb, hfb, hsb, if_true, if_false,
      List.append_nil]
    exact fun coord hcoord => i.total_biasTerms hcoord

/-- Rational numbers, with zero for what would leave them. -/
local instance fractions : ExactScalar ℚ := rationals

/-- A window of side two that moves by two, over one line of padding. -/
def everyOther : Convolution := ⟨0, 1, 2, 3, ⟨2, 2, 1⟩⟩

/-- Two rows of two elements, gradients for two outputs each, and a filter that has
a gradient already. -/
def twoRows : Context ℚ :=
  (((((({} : Context ℚ).setWeight 0 ⟨⟨[2, 1, 2, 1]⟩, .float #v[4, 4, 4, 4]⟩).setWeight 1
    ⟨⟨[2, 1, 2, 1]⟩, .float #v[3, 5, 7, 11]⟩).setWeight 2
    ⟨⟨[1, 2, 2, 1]⟩, .float #v[1, 2, 6, 8]⟩).setWeight 3 ⟨⟨[1]⟩, .float #v[20]⟩).setGrad 0
    ⟨⟨[2, 1, 2, 1]⟩, .float #v[1, 2, 4, 8]⟩).setGrad 2
    ⟨⟨[1, 2, 2, 1]⟩, .float #v[100, 200, 300, 400]⟩

theorem mirrored_twoRows : twoRows.Mirrored := by
  refine Context.Mirrored.setGrad (.setGrad (fun _ _ _ _ hg => ?_) fun t ht => ?_) fun t ht => ?_
  · cases hg
  · obtain rfl := Option.some.inj ht
    rfl
  · obtain rfl := Option.some.inj ht
    rfl

/-- Only the first image counts for the filter: its two elements lie under the
second entry of the first window and the first entry of the second one. -/
theorem gradients_gather_twoRows : ∃ (c' : Context ℚ) (filter : Vector ℚ 4) (src : Vector ℚ 4)
    (bias : Vector ℚ 1), everyOther.backward .firstBatch twoRows = .ok () c' ∧
      c'.grads[(2 : ValueId)]? = some ⟨⟨[1, 2, 2, 1]⟩, .float filter⟩ ∧
      c'.grads[(1 : ValueId)]? = some ⟨⟨[2, 1, 2, 1]⟩, .float src⟩ ∧
      c'.grads[(3 : ValueId)]? = some ⟨⟨[1]⟩, .float bias⟩ ∧
      filter[2] = 300 + 5 * (2 + 8) ∧ filter[3] = 400 + 3 * (1 + 4) ∧ src[2] = 8 * 4 ∧
      bias[0] = 1 + 2 + 4 + 8 := by
  obtain ⟨c', hrun⟩ : ∃ c', everyOther.backward .firstBatch twoRows = .ok () c' := ⟨_, rfl⟩
  obtain ⟨d, src, filter, bias, out, h, hwindows, hbias⟩ :=
    gradients_gather everyOther .firstBatch (by decide) mirrored_twoRows hrun
  have hextents : everyOther.dims twoRows = .ok ⟨⟨2, 1, 2, 1⟩, ⟨2, 1, 2, 1⟩⟩ := rfl
  obtain rfl := Except.ok.inj (hextents.symm.trans h.dims_eq)
  obtain rfl : ⟨⟨[2, 1, 2, 1]⟩, #v[3, 5, 7, 11]⟩ = src := Except.ok.inj (Context.floats_eq h.src)
  obtain rfl : ⟨⟨[1, 2, 2, 1]⟩, #v[1, 2, 6, 8]⟩ = filter :=
    Except.ok.inj (Context.floats_eq h.filter)
  obtain rfl : ⟨⟨[1]⟩, #v[20]⟩ = bias := Except.ok.inj (Context.floats_eq h.bias)
  obtain rfl : ⟨⟨[2, 1, 2, 1]⟩, #v[1, 2, 4, 8]⟩ = out :=
    View.tensor_inj (Except.ok.inj h.out)
  obtain ⟨hfilter, hsrc⟩ := hwindows ⟨by decide, by decide, by decide, by decide⟩
  obtain ⟨oldFilter, newFilter, holdFilter, hnewFilter, hgainFilter⟩ := hfilter
  obtain ⟨oldSrc, newSrc, holdSrc, hnewSrc, hgainSrc⟩ := hsrc
  obtain ⟨oldBias, newBias, holdBias, hnewBias, hgainBias⟩ := hbias
  obtain rfl : #v[100, 200, 300, 400] = oldFilter :=
    Tensor.float_inj (Except.ok.inj holdFilter)
  obtain rfl : #v[0, 0, 0, 0] = oldSrc :=
    Tensor.float_inj (Except.ok.inj holdSrc)
  obtain rfl : #v[0] = oldBias :=
    Tensor.float_inj (Except.ok.inj holdBias)
  refine ⟨c', newFilter, newSrc, newBias, hrun, hnewFilter, hnewSrc, hnewBias, ?_, ?_, ?_, ?_⟩
  · exact (hgainFilter [0, 1, 0, 0] (by decide)).trans (by decide +kernel)
  · exact (hgainFilter [0, 1, 1, 0] (by decide)).trans (by decide +kernel)
  · exact (hgainSrc [1, 0, 0, 0] (by decide)).trans (by decide +kernel)
  · exact (hgainBias [0] (by decide)).trans (by decide +kernel)

/-- With padding that wraps, the middle of the table and the filter gain what no window
in the frame would give them. -/
theorem backward_wrappedPadding : ∃ (c' : Context ℚ) (filter : Vector ℚ 1) (src : Vector ℚ 9),
    wrappedPadding.backward .currentBatch
        (tableOfNine.setGrad 0 ⟨⟨[1, 1, 1, 1]⟩, .float #v[1]⟩) = .ok () c' ∧
      c'.grads[(2 : ValueId)]? = some ⟨⟨[1, 1, 1, 1]⟩, .float filter⟩ ∧
      c'.grads[(1 : ValueId)]? = some ⟨⟨[1, 3, 3, 1]⟩, .float src⟩ ∧ filter[0] = 5 ∧ src[4] = 10 ∧
      ¬ (0 ≤ wrappedPadding.window.under 0 0) :=
  ⟨_, _, _, rfl, rfl, rfl, by decide +kernel, by decide +kernel, by decide⟩

end Convolution

end TensorProgram
