/-
TensorProgram/Proofs/Kernel/Padding.lean

Implicit padding is explicit padding.  A convolution stores no zeros around its
input, it skips the positions of a window that lie outside.  A skipped position
is one where the input in its frame of zeros (`View.padded`) is zero
(`Window.tap?_anchor`), and zeros do not count in an exact sum, so every element
of the output is the full sum over its window (`Convolution.cell_anchor`).  That holds
where the windows stay in the signed words; a window that wraps around them meets
elements where the frame is zero (`Convolution.forward_wrappedPadding`).

The frame may also be stored: inserted into zeros the input has the elements of
`View.padded` (`View.padded_inserted`), and the convolution without padding over
that tensor leaves the same output (`Convolution.forward_framed`).

Main statement: `Convolution.pads_with_zeros`.
-/
import TensorProgram.Proofs.Scalar.Exact
import TensorProgram.Proofs.Kernel.Atomicity

namespace TensorProgram

open Shape (InBox)

/-! ### Images in a frame of zeros -/

section Frame

variable {ε : Type} [Zero ε] {src : View ε} {images frame : NHWC} {pad n x y z : Nat}

/-- The elements of images in a frame of zeros: those of `src`, moved by `pad`
along both spatial axes, and zero everywhere else. -/
def View.padded (pad : Nat) (src : View ε) (c : List Nat) : ε :=
  if InBox [0, pad, pad, 0] src.shape c then
    src.elem (List.zipWith (· - ·) c [0, pad, pad, 0])
  else 0

theorem Shape.inBox_frame : InBox [0, pad, pad, 0] images.toShape [n, x, y, z] ↔
    n < images.n ∧ (pad ≤ x ∧ x < pad + images.h) ∧ (pad ≤ y ∧ y < pad + images.w) ∧
      z < images.c := by
  constructor
  · intro h
    have hn := h 0 (by simp)
    have hx := h 1 (by simp)
    have hy := h 2 (by simp)
    have hz := h 3 (by simp)
    simp only [NHWC.toShape, List.getD_cons_zero, List.getD_cons_succ] at hn hx hy hz
    omega
  · rintro ⟨hn, hx, hy, hz⟩ k hk
    have hrank : k < 4 := hk
    obtain rfl | rfl | rfl | rfl : k = 0 ∨ k = 1 ∨ k = 2 ∨ k = 3 := by omega
    · exact ⟨Nat.zero_le n, by simpa [NHWC.toShape] using hn⟩
    · exact hx
    · exact hy
    · exact ⟨Nat.zero_le z, by simpa [NHWC.toShape] using hz⟩

theorem View.padded_eq (hs : src.shape = images.toShape) :
    src.padded pad [n, x, y, z] =
      if n < images.n ∧ (pad ≤ x ∧ x < pad + images.h) ∧ (pad ≤ y ∧ y < pad + images.w) ∧
        z < images.c then src.elem [n, x - pad, y - pad, z] else 0 := by
  rw [padded, hs]
  simp only [Shape.inBox_frame]
  rfl

/-- Inserted into zeros, images have the elements of their frame. -/
theorem View.padded_inserted {s : Shape} {data : Vector ε s.elemCount}
    (hwords : src.shape.EndsInWords [0, pad, pad, 0])
    (hrun : src.insertInto [0, pad, pad, 0] s (Vector.replicate _ 0) = .ok () data) :
    s.HasRoom src.shape [0, pad, pad, 0] ∧
      ∀ c ∈ s.coordinates, (View.mk s data).elem c = src.padded pad c := by
  by_cases hroom : s.HasRoom src.shape [0, pad, pad, 0]
  · obtain ⟨new, hnew, helem⟩ := insertInto_ok hroom (Vector.replicate _ 0)
    obtain ⟨-, rfl⟩ := EStateM.Result.ok.inj (hrun.symm.trans hnew)
    have hzero (c : List Nat) : (View.mk s (Vector.replicate _ (0 : ε))).elem c = 0 := by
      simp [elem, entry]
    refine ⟨hroom, fun c hc => ?_⟩
    rw [helem c hc, overlay, hzero, padded]
  · rw [insertInto_error hwords hroom] at hrun
    cases hrun

/-- Around the stored frame, no padding is the padding that was stored. -/
theorem View.padded_zero {data : Vector ε frame.toShape.elemCount}
    (hs : src.shape = images.toShape) (hwords : src.shape.EndsInWords [0, pad, pad, 0])
    (hrun : src.insertInto [0, pad, pad, 0] frame.toShape (Vector.replicate _ 0) = .ok () data) :
    (View.mk frame.toShape data).padded 0 [n, x, y, z] = src.padded pad [n, x, y, z] := by
  obtain ⟨hroom, hdata⟩ := padded_inserted hwords hrun
  have hshape : (View.mk frame.toShape data).shape = frame.toShape := rfl
  rw [padded_eq hshape]
  split
  case isTrue hin =>
    obtain ⟨hn, ⟨-, hx⟩, ⟨-, hy⟩, hz⟩ := hin
    rw [Nat.zero_add] at hx hy
    exact hdata _ (Shape.mem_coordinatesIn.mpr ⟨rfl, hn, hx, hy, hz, Shape.inside_nil _⟩)
  case isFalse hout =>
    rw [padded_eq hs, if_neg]
    -- the images lie inside the frame
    rw [hs] at hroom
    have hn := hroom.le 0 (by simp [Shape.rank, NHWC.toShape])
    have hx := hroom.le 1 (by simp [Shape.rank, NHWC.toShape])
    have hy := hroom.le 2 (by simp [Shape.rank, NHWC.toShape])
    have hz := hroom.le 3 (by simp [Shape.rank, NHWC.toShape])
    simp only [NHWC.toShape, List.getD_cons_zero, List.getD_cons_succ] at hn hx hy hz
    omega

end Frame

/-! ### Windows over the frame -/

namespace Window

variable (win : Window) {input output : NHWC}

/-- In words, an entry of a window has a tap where it does not lie in the padding. -/
theorem tap?_anchor {win : Window} (h : win.InWords input output) {ax ay fx fy : Nat}
    (hax : ax < output.h) (hay : ay < output.w) (hfx : fx < win.kernel) (hfy : fy < win.kernel) :
    tap? (win.anchor ax ay) input fx fy =
      if (win.pad ≤ ax * win.stride + fx ∧ ax * win.stride + fx < win.pad + input.h) ∧
        win.pad ≤ ay * win.stride + fy ∧ ay * win.stride + fy < win.pad + input.w then
        some ⟨fx, fy, ax * win.stride + fx - win.pad, ay * win.stride + fy - win.pad⟩
      else none := by
  have hunder (a f : Nat) : win.under a f = (a * win.stride + f : Nat) - win.pad := by
    rw [under]
    push_cast
    omega
  rw [h.tap?_anchor hax hay hfx hfy, hunder, hunder]
  -- what remains is about two coordinates in the frame, wherever they come from
  generalize ax * win.stride + fx = x
  generalize ay * win.stride + fy = y
  refine if_congr (by omega) ?_ rfl
  rw [Int.toNat_sub, Int.toNat_sub]

/-- A sum over the taps of a window is one over its entries, where an entry in the
padding counts as zero. -/
theorem sum_channelTaps {M : Type} [AddCommMonoid M] (a : Anchor) (g : ChannelTap → M) :
    ((win.channelTaps a input).map g).sum =
      ∑ fx ∈ Finset.range win.kernel, ∑ fy ∈ Finset.range win.kernel,
        (tap? a input fx fy).elim 0 fun t => ∑ z ∈ Finset.range input.c, g ⟨t, z⟩ := by
  simp only [channelTaps, taps, sum_map_flatMap, sum_map_filterMap, List.map_map,
    Function.comp_def, sum_map_range]
  exact Finset.sum_comm

end Window

/-! ### The elements of the output -/

namespace Convolution

variable {K : Type} [ExactScalar K] (i : Convolution) {src filter bias : View K} {dest : Shape}
  {d : ImageDims}

/-- The convolution without padding of another input. -/
def framed (input : ValueId) : Convolution :=
  { i with src := input, window := { i.window with pad := 0 } }

/-- An element of the output is the sum over the whole window in the frame. -/
theorem cell_anchor (h : Fits i.window d src.shape dest filter.shape bias.shape)
    (hwords : i.window.InWords d.input d.output) {n ax ay : Nat} (hn : n < d.output.n)
    (hax : ax < d.output.h) (hay : ay < d.output.w) (z : Nat) :
    i.cell d src filter bias ⟨n, z, i.window.anchor ax ay⟩ = bias.elem [z] +
      ∑ fx ∈ Finset.range i.window.kernel, ∑ fy ∈ Finset.range i.window.kernel,
        ∑ fd ∈ Finset.range d.input.c, filter.elem [z, fx, fy, fd] *
          src.padded i.window.pad
            [n, ax * i.window.stride + fx, ay * i.window.stride + fy, fd] := by
  rw [cell, Scalar.sum_eq, add_comm, Window.sum_channelTaps]
  congr 1
  refine Finset.sum_congr rfl fun fx hfx => Finset.sum_congr rfl fun fy hfy => ?_
  rw [Window.tap?_anchor hwords hax hay (Finset.mem_range.mp hfx) (Finset.mem_range.mp hfy)]
  split
  case isTrue hin =>
    show ∑ fd ∈ Finset.range d.input.c, _ = _
    refine Finset.sum_congr rfl fun fd hfd => ?_
    rw [View.padded_eq h.src,
      if_pos ⟨h.batch ▸ hn, hin.1, hin.2, Finset.mem_range.mp hfd⟩]
    rfl
  case isFalse hout =>
    -- a skipped entry stands on the frame, where every product is zero
    refine (Finset.sum_eq_zero fun fd _ => ?_).symm
    rw [View.padded_eq h.src, if_neg fun hin => hout ⟨hin.2.1, hin.2.2.1⟩, mul_zero]

/-- Every element of the output is the sum over its window in the frame. -/
theorem elem_output (h : Fits i.window d src.shape dest filter.shape bias.shape)
    (hwords : i.window.InWords d.input d.output) {n ax ay z : Nat} (hn : n < d.output.n)
    (hax : ax < d.output.h) (hay : ay < d.output.w) (hz : z < d.output.c) :
    (View.mk dest (filled _ (i.writes d src filter bias))).elem [n, ax, ay, z] = bias.elem [z] +
      ∑ fx ∈ Finset.range i.window.kernel, ∑ fy ∈ Finset.range i.window.kernel,
        ∑ fd ∈ Finset.range d.input.c, filter.elem [z, fx, fy, fd] *
          src.padded i.window.pad
            [n, ax * i.window.stride + fx, ay * i.window.stride + fy, fd] := by
  have ho : ⟨n, z, i.window.anchor ax ay⟩ ∈ i.window.sites d.output :=
    i.window.mem_sites.mpr ⟨hn, hz, i.window.mem_anchors.mpr ⟨ax, ay, hax, hay, rfl⟩⟩
  rw [← i.cell_anchor h hwords hn hax hay]
  exact elem_sites (i.cell d src filter bias) h.dest ho

/-! ### Storing the frame -/

section Framed

variable {input : ValueId} {frame : NHWC} {data : Vector K frame.toShape.elemCount}
  (h : Fits i.window d src.shape dest filter.shape bias.shape)
  (hn : frame.n = d.input.n) (hc : frame.c = d.input.c)

include h hn hc

omit [ExactScalar K] in
theorem fits_framed :
    Fits (i.framed input).window ⟨frame, d.output⟩ frame.toShape dest filter.shape bias.shape where
  src := rfl
  dest := h.dest
  batch := hn.trans h.batch
  filter := by rw [h.filter, hc]; rfl
  bias := h.bias

/-- Over the stored frame the output is the same. -/
theorem filled_framed (hwords : i.window.InWords d.input d.output)
    (hwords' : (i.framed input).window.InWords frame d.output)
    (hends : src.shape.EndsInWords [0, i.window.pad, i.window.pad, 0])
    (hframe : src.insertInto [0, i.window.pad, i.window.pad, 0] frame.toShape
      (Vector.replicate _ 0) = .ok () data) :
    filled dest.elemCount
        ((i.framed input).writes ⟨frame, d.output⟩ ⟨frame.toShape, data⟩ filter bias)
      = filled _ (i.writes d src filter bias) := by
  have hfits : Fits (i.framed input).window ⟨frame, d.output⟩ (View.mk frame.toShape data).shape
      dest filter.shape bias.shape := i.fits_framed h hn hc
  refine View.ext_elem fun coord hcoord => ?_
  obtain ⟨hlen, hin⟩ := Shape.mem_coordinatesIn.mp hcoord
  rw [h.dest] at hlen hin
  obtain ⟨⟨n, z, a⟩, ho, rfl⟩ := i.window.exists_site hlen hin
  obtain ⟨(hn : n < d.output.n), (hz : z < d.output.c), ha⟩ := i.window.mem_sites.mp ho
  obtain ⟨ax, ay, hax, hay, rfl⟩ := i.window.mem_anchors.mp ha
  -- the two windows start elsewhere, but at the same place in the frame
  refine ((i.framed input).elem_output hfits hwords' hn hax hay hz).trans
    (Eq.trans ?_ (i.elem_output h hwords hn hax hay hz).symm)
  simp only [framed, View.padded_zero h.src hends hframe, hc]

/-- Without padding, the convolution of the stored frame leaves the same output. -/
theorem forward_framed {c : Context K} {old : Vector K dest.elemCount}
    (hfilter : c.weights[i.filter]? = some filter.tensor)
    (hbias : c.weights[i.bias]? = some bias.tensor)
    (hdest : c.weights[i.dest]? = some ⟨dest, .float old⟩) (hf : i.dest ≠ i.filter)
    (hb : i.dest ≠ i.bias) (hdi : input ≠ i.dest) (hfi : input ≠ i.filter) (hbi : input ≠ i.bias)
    (hwords : i.window.InWords d.input d.output)
    (hwords' : (i.framed input).window.InWords frame d.output)
    (hends : src.shape.EndsInWords [0, i.window.pad, i.window.pad, 0])
    (hframe : src.insertInto [0, i.window.pad, i.window.pad, 0] frame.toShape
      (Vector.replicate _ 0) = .ok () data) :
    (i.framed input).forward (c.setWeight input (View.mk frame.toShape data).tensor) = .ok ()
      ((c.setWeight input (View.mk frame.toShape data).tensor).setWeight i.dest
        ⟨dest, .float (filled _ (i.writes d src filter bias))⟩) := by
  have hfits : Fits (i.framed input).window ⟨frame, d.output⟩ (View.mk frame.toShape data).shape
      dest filter.shape bias.shape := i.fits_framed h hn hc
  have hinput : (c.setWeight input (View.mk frame.toShape data).tensor).weights[input]?
      = some (View.mk frame.toShape data).tensor := Context.weights_setWeight_self
  have hkeeps {id : ValueId} (hid : input ≠ id) :
      (c.setWeight input (View.mk frame.toShape data).tensor).weights[id]? = c.weights[id]? :=
    Context.weights_setWeight_of_ne hid
  have hrun := (i.framed input).forward_eq hinput ((hkeeps hfi).trans hfilter)
    ((hkeeps hbi).trans hbias) ((hkeeps hdi).trans hdest) hdi.symm hf hb hfits
  rw [i.filled_framed h hn hc hwords hwords' hends hframe] at hrun
  exact hrun

end Framed

/-! ### Running the kernel -/

/-- **Implicit padding is explicit padding.**  After a convolution that succeeds, the
walk over the output has met every position once and has filled it whatever was there,
and nothing but the output has changed.  Computed exactly, and if the windows stay in
the signed words, every element of the output is the bias plus the sum, over all
entries of its window, of the filter times the input in its frame of zeros.  Where the
frame is stored, the convolution of that tensor without padding leaves the same
output. -/
theorem pads_with_zeros {c c' : Context K} (hrun : i.forward c = .ok () c') :
    ∃ (d : ImageDims) (src filter bias dest : View K) (positions : List Nat),
      i.dims c = .ok d ∧ c.weights[i.src]? = some src.tensor ∧
      c.weights[i.filter]? = some filter.tensor ∧ c.weights[i.bias]? = some bias.tensor ∧
      Fits i.window d src.shape dest.shape filter.shape bias.shape ∧
      c' = c.setWeight i.dest dest.tensor ∧
      ((i.window.sites d.output).mapM fun o => dest.shape.position o.coord) = .ok positions ∧
      positions.Perm (List.range dest.shape.elemCount) ∧
      (∀ data, (scatter overwrite (i.window.sites d.output) (dest.shape.position ·.coord)
        (i.value src filter bias d.input) : Run (Vector K dest.shape.elemCount) Unit) data
          = .ok () dest.data) ∧
      (i.window.InWords d.input d.output → ∀ n ax ay z, n < d.output.n → ax < d.output.h →
        ay < d.output.w → z < d.output.c → dest.get [n, ax, ay, z] = .ok (bias.elem [z] +
          ∑ fx ∈ Finset.range i.window.kernel, ∑ fy ∈ Finset.range i.window.kernel,
            ∑ fd ∈ Finset.range d.input.c, filter.elem [z, fx, fy, fd] *
              src.padded i.window.pad
                [n, ax * i.window.stride + fx, ay * i.window.stride + fy, fd])) ∧
      ∀ (input : ValueId) (frame : NHWC) (data : Vector K frame.toShape.elemCount),
        input ≠ i.dest → input ≠ i.filter → input ≠ i.bias →
        frame.n = d.input.n → frame.c = d.input.c → i.window.InWords d.input d.output →
        (i.framed input).window.InWords frame d.output →
        src.shape.EndsInWords [0, i.window.pad, i.window.pad, 0] →
        src.insertInto [0, i.window.pad, i.window.pad, 0] frame.toShape (Vector.replicate _ 0)
          = .ok () data →
        (i.framed input).forward (c.setWeight input (View.mk frame.toShape data).tensor) = .ok ()
          ((c.setWeight input (View.mk frame.toShape data).tensor).setWeight i.dest
            dest.tensor) := by
  obtain ⟨d, src, filter, bias, ⟨s, old⟩, hd, hsrc, hfilter, hbias, hdest, hs, hf, hb, hfits⟩ :=
    Run.of_reports_or i.forward_cases hrun
  rw [i.forward_eq hsrc hfilter hbias hdest hs hf hb hfits] at hrun
  obtain ⟨-, rfl⟩ := EStateM.Result.ok.inj hrun
  have hpositions : ((i.window.sites d.output).mapM fun o => s.position o.coord)
      = .ok ((i.window.sites d.output).map (OutputSite.position d.output)) := by
    refine Outcome.mapM_eq_ok fun o ho => ?_
    rw [show s = d.output.toShape from hfits.dest]
    exact Shape.position_eq (i.window.inside_site ho)
  refine ⟨d, src, filter, bias, ⟨s, filled _ (i.writes d src filter bias)⟩, _, hd, hsrc, hfilter,
    hbias, hfits, rfl, hpositions, ?_, ?_, fun hwords n ax ay z hn hax hay hz => ?_,
    fun input frame data hdi hfi hbi hn hc hwords hwords' hends hframe => ?_⟩
  · -- the walk meets every position once
    show List.Perm _ (List.range s.elemCount)
    rw [show s = d.output.toShape from hfits.dest]
    exact i.window.perm_sites
  · -- and overwrites it, whatever the buffer held
    exact (performs_sites hfits.dest fun o ho => i.value_eq hfits ho).fills fun k hk =>
      mem_fst_sites hfits.dest hk
  · rw [← i.elem_output hfits hwords hn hax hay hz]
    refine View.get_of_mem ⟨s, _⟩ (Shape.mem_coordinatesIn.mpr ?_)
    rw [hfits.dest]
    exact ⟨rfl, hn, hax, hay, hz, Shape.inside_nil _⟩
  · exact i.forward_framed hfits hn hc hfilter hbias hdest hf hb hdi hfi hbi hwords hwords' hends
      hframe

/-- Rational numbers, with zero for what would leave them. -/
local instance rationals : ExactScalar ℚ :=
  exactScalars (fun _ => 0) (fun _ => 0) (fun _ _ => 0) fun _ _ _ => 0

/-- A window of side two that moves by two, over one line of padding. -/
def beyondRow : Convolution := ⟨0, 1, 2, 3, ⟨2, 2, 1⟩⟩

/-- A row of two elements with room for two rows of output, one more than there
are windows that meet the row. -/
def shortRow : Context ℚ :=
  (((({} : Context ℚ).setWeight 0 ⟨⟨[1, 2, 2, 1]⟩, .float #v[9, 9, 9, 9]⟩).setWeight 1
    ⟨⟨[1, 1, 2, 1]⟩, .float #v[3, 5]⟩).setWeight 2
    ⟨⟨[1, 2, 2, 1]⟩, .float #v[1, 2, 6, 7]⟩).setWeight 3 ⟨⟨[1]⟩, .float #v[10]⟩

/-- The row in its frame. -/
def framedRow : View ℚ := ⟨NHWC.toShape ⟨1, 3, 4, 1⟩, #v[0, 0, 0, 0, 0, 3, 5, 0, 0, 0, 0, 0]⟩

theorem pads_with_zeros_shortRow : ∃ (c' : Context ℚ) (dest : View ℚ),
    beyondRow.forward shortRow = .ok () c' ∧ c' = shortRow.setWeight 0 dest.tensor ∧
      dest.get [0, 0, 0, 0] = .ok 31 ∧ dest.get [0, 0, 1, 0] = .ok 40 ∧
      dest.get [0, 1, 0, 0] = .ok 10 ∧ dest.get [0, 1, 1, 0] = .ok 10 ∧
      (beyondRow.framed 4).forward (shortRow.setWeight 4 framedRow.tensor)
        = .ok () ((shortRow.setWeight 4 framedRow.tensor).setWeight 0 dest.tensor) := by
  obtain ⟨c', hrun⟩ : ∃ c', beyondRow.forward shortRow = .ok () c' := ⟨_, rfl⟩
  obtain ⟨d, src, filter, bias, dest, -, hdims, hsrc, hfilter, hbias, -, hc', -, -, -, helem,
    hframed⟩ := pads_with_zeros beyondRow hrun
  have hextents : beyondRow.dims shortRow = .ok ⟨⟨1, 1, 2, 1⟩, ⟨1, 2, 2, 1⟩⟩ := rfl
  obtain rfl := Except.ok.inj (hextents.symm.trans hdims)
  obtain rfl : ⟨⟨[1, 1, 2, 1]⟩, #v[3, 5]⟩ = src := Except.ok.inj (Context.floats_eq hsrc)
  obtain rfl : ⟨⟨[1, 2, 2, 1]⟩, #v[1, 2, 6, 7]⟩ = filter :=
    Except.ok.inj (Context.floats_eq hfilter)
  obtain rfl : ⟨⟨[1]⟩, #v[10]⟩ = bias := Except.ok.inj (Context.floats_eq hbias)
  have hwords : beyondRow.window.InWords ⟨1, 1, 2, 1⟩ ⟨1, 2, 2, 1⟩ :=
    ⟨by decide, by decide, by decide, by decide⟩
  have hread (ax ay : Nat) (hax : ax < 2) (hay : ay < 2) :=
    helem hwords 0 ax ay 0 (by decide) hax hay (by decide)
  refine ⟨c', dest, hrun, hc', ?_, ?_, ?_, ?_, ?_⟩
  · exact (hread 0 0 (by decide) (by decide)).trans (congrArg Except.ok (by decide +kernel))
  · exact (hread 0 1 (by decide) (by decide)).trans (congrArg Except.ok (by decide +kernel))
  · exact (hread 1 0 (by decide) (by decide)).trans (congrArg Except.ok (by decide +kernel))
  · exact (hread 1 1 (by decide) (by decide)).trans (congrArg Except.ok (by decide +kernel))
  · exact hframed 4 ⟨1, 3, 4, 1⟩ framedRow.data (by decide) (by decide) (by decide) rfl rfl hwords
      ⟨by decide, by decide, by decide, by decide⟩ (by decide) rfl

/-- A window of one element over a table of nine, with padding that is a negative signed
word. -/
def wrappedPadding : Convolution := ⟨0, 1, 2, 3, ⟨1, 1, 2 ^ 64 - 1⟩⟩

/-- A table of nine with room for one output, a filter of one element and a bias. -/
def tableOfNine : Context ℚ :=
  (((({} : Context ℚ).setWeight 0 ⟨⟨[1, 1, 1, 1]⟩, .float #v[0]⟩).setWeight 1
    ⟨⟨[1, 3, 3, 1]⟩, .float #v[1, 2, 3, 4, 5, 6, 7, 8, 9]⟩).setWeight 2
    ⟨⟨[1, 1, 1, 1]⟩, .float #v[10]⟩).setWeight 3 ⟨⟨[1]⟩, .float #v[1 / 2]⟩

/-- Padding that wraps does not count as zeros: its window meets the middle of the
table, where the frame is zero. -/
theorem forward_wrappedPadding : ∃ (c' : Context ℚ) (dest : View ℚ),
    wrappedPadding.forward tableOfNine = .ok () c' ∧ c' = tableOfNine.setWeight 0 dest.tensor ∧
    dest.get [0, 0, 0, 0] = .ok (101 / 2) ∧
    (⟨⟨[1, 3, 3, 1]⟩, #v[1, 2, 3, 4, 5, 6, 7, 8, 9]⟩ : View ℚ).padded (2 ^ 64 - 1) [0, 0, 0, 0]
      = 0 := by
  have hfits : Fits wrappedPadding.window ⟨⟨1, 3, 3, 1⟩, ⟨1, 1, 1, 1⟩⟩ ⟨[1, 3, 3, 1]⟩ ⟨[1, 1, 1, 1]⟩
      ⟨[1, 1, 1, 1]⟩ ⟨[1]⟩ := ⟨rfl, rfl, rfl, rfl, rfl⟩
  have hsrc : tableOfNine.weights[wrappedPadding.src]?
      = some (View.mk ⟨[1, 3, 3, 1]⟩ #v[1, 2, 3, 4, 5, 6, 7, 8, 9]).tensor := rfl
  have hfilter : tableOfNine.weights[wrappedPadding.filter]?
      = some (View.mk ⟨[1, 1, 1, 1]⟩ #v[10]).tensor := rfl
  have hbias : tableOfNine.weights[wrappedPadding.bias]?
      = some (View.mk ⟨[1]⟩ #v[1 / 2]).tensor := rfl
  have hrun := wrappedPadding.forward_eq hsrc hfilter hbias rfl (by decide) (by decide) (by decide)
    hfits
  exact ⟨_, ⟨_, _⟩, hrun, rfl, congrArg Except.ok (by decide +kernel), rfl⟩

end Convolution

end TensorProgram
