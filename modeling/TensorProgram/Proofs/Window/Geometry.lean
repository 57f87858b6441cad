/-
TensorProgram/Proofs/Window/Geometry.lean

Where windows lie.  Two functions have to agree at the border of an image: the number
of windows along an axis is a quotient that rounds down (`Window.outputSize`), and the
entries of a window that are visited are those above the input (`Window.taps`).

The quotient counts exactly the windows that end inside the padded extent
(`lt_outputSize_iff`).  If windows neither leave gaps nor leave a rest at the end,
each position of the input is under one of them (`exists_window`).  Of the entries of
a window, those above the input are visited, each once, with the position below it
(`mem_taps_iff`).

All of this is about extents and positions that are words.  Padding that wraps makes a
window be counted where there is none, and lets it start inside the image
(`geometry_wrappedPadding`).

Main statement: `Window.geometry`.
-/
import TensorProgram.Proofs.Window

namespace TensorProgram.Window

variable (win : Window) {input out : Nat} {a : Anchor} {images : NHWC} {t : Tap}

/-! ### Along one axis -/

/-- A padded extent that is a word is exact. -/
theorem padded_eq (hwords : input + 2 * win.pad < 2 ^ 64) :
    win.padded input = input + 2 * win.pad := by
  rw [padded, UInt64.toNat_add, UInt64.toNat_mul, UInt64.toNat_ofNat', UInt64.toNat_ofNat']
  change (input % 2 ^ 64 + 2 * (win.pad % 2 ^ 64) % 2 ^ 64) % 2 ^ 64 = _
  omega

/-- A window of positive side and stride that fits at all can be counted. -/
theorem outputSize_eq (hkernel : 0 < win.kernel) (hstride : 0 < win.stride)
    (hfits : win.kernel ≤ win.padded input) :
    win.outputSize input = .ok ((win.padded input - win.kernel) / win.stride + 1) := by
  rw [outputSize, if_neg hstride.ne', if_neg (by omega)]

/-- What it takes for windows to fit an extent. -/
theorem of_outputSize_eq_ok (h : win.outputSize input = .ok out) :
    0 < win.kernel ∧ 0 < win.stride ∧ win.kernel ≤ win.padded input ∧
      out = (win.padded input - win.kernel) / win.stride + 1 := by
  rw [outputSize] at h
  split_ifs at h with hstride hfits
  exact ⟨by omega, by omega, by omega, (Except.ok.inj h).symm⟩

/-- Where a window fits at all, there is one. -/
theorem pos_of_outputSize (h : win.outputSize input = .ok out) : 0 < out := by
  obtain ⟨-, -, -, rfl⟩ := win.of_outputSize_eq_ok h
  exact Nat.succ_pos _

theorem outputDims_eq_ok {height width : Nat}
    (h : win.outputDims images = .ok (height, width)) :
    win.outputSize images.h = .ok height ∧ win.outputSize images.w = .ok width := by
  obtain ⟨height', hheight, h⟩ := Except.bind_eq_ok.mp h
  obtain ⟨width', hwidth, h⟩ := Except.bind_eq_ok.mp h
  obtain ⟨rfl, rfl⟩ := Prod.mk.inj (Except.ok.inj h)
  exact ⟨hheight, hwidth⟩

variable {win}

/-- The windows that are counted are those that end inside the padded extent. -/
theorem lt_outputSize_iff (h : win.outputSize input = .ok out) (k : Nat) :
    k < out ↔ k * win.stride + win.kernel ≤ win.padded input := by
  obtain ⟨-, hstride, hfits, rfl⟩ := win.of_outputSize_eq_ok h
  rw [Nat.lt_succ_iff, Nat.le_div_iff_mul_le hstride, Nat.le_sub_iff_add_le hfits]

/-- Windows without gaps that leave no rest at the end cover the extent. -/
theorem exists_window (h : win.outputSize input = .ok out)
    (hwords : input + 2 * win.pad < 2 ^ 64) (hgaps : win.stride ≤ win.kernel)
    (hrest : win.stride ∣ input + 2 * win.pad - win.kernel) {p : Nat} (hp : p < input) :
    ∃ k < out, k * win.stride ≤ p + win.pad ∧ p + win.pad < k * win.stride + win.kernel := by
  obtain ⟨-, hstride, hfits, rfl⟩ := win.of_outputSize_eq_ok h
  rw [win.padded_eq hwords] at hfits ⊢
  obtain ⟨last, hlast⟩ := hrest
  rw [hlast, Nat.mul_div_cancel_left last hstride]
  rw [Nat.mul_comm win.stride] at hlast
  rcases Nat.lt_or_ge (p + win.pad) (last * win.stride) with hbefore | hbehind
  · -- before the last window starts, the one that starts last before the position covers it
    refine ⟨(p + win.pad) / win.stride, ?_, Nat.div_mul_le_self _ _, ?_⟩
    · exact Nat.lt_succ_of_lt ((Nat.div_lt_iff_lt_mul hstride).mpr hbefore)
    · have hnext := Nat.lt_div_mul_add (a := p + win.pad) hstride
      omega
  · -- behind that the last window does, because it ends where the padded extent ends
    exact ⟨last, Nat.lt_succ_self last, hbehind, by omega⟩

/-! ### Under one window -/

/-- The taps are the entries of the window above the input, with their positions. -/
theorem mem_taps_iff (hheight : images.h < 2 ^ 63) (hwidth : images.w < 2 ^ 63)
    (hx : a.x.toInt + win.kernel ≤ 2 ^ 63) (hy : a.y.toInt + win.kernel ≤ 2 ^ 63) :
    t ∈ win.taps a images ↔
      t.fx < win.kernel ∧ t.fy < win.kernel ∧ t.ox < images.h ∧ t.oy < images.w ∧
        (t.ox : Int) = a.x.toInt + t.fx ∧ (t.oy : Int) = a.y.toInt + t.fy := by
  simp only [taps, List.mem_flatMap, List.mem_filterMap, List.mem_range]
  constructor
  · rintro ⟨fy, hfy, fx, hfx, htap⟩
    rw [tap?_eq (by omega) (by omega) hheight hwidth] at htap
    split_ifs at htap with habove
    obtain rfl := Option.some.inj htap
    refine ⟨hfx, hfy, ?_, ?_, ?_, ?_⟩ <;> dsimp only <;> omega
  · rintro ⟨hfx, hfy, htx, hty, hox, hoy⟩
    refine ⟨t.fy, hfy, t.fx, hfx, ?_⟩
    rw [tap?_eq (by omega) (by omega) hheight hwidth, ← hox, ← hoy, if_pos (by omega),
      Int.toNat_natCast, Int.toNat_natCast]

/-- In words, the window of an output position starts a multiple of the stride into the
padding, and its taps are its entries above the input. -/
theorem InWords.mem_taps {output : NHWC} (h : win.InWords images output) {ax ay : Nat}
    (hax : ax < output.h) (hay : ay < output.w) :
    t ∈ win.taps (win.anchor ax ay) images ↔
      t.fx < win.kernel ∧ t.fy < win.kernel ∧ t.ox < images.h ∧ t.oy < images.w ∧
        (t.ox : Int) = ax * win.stride - win.pad + t.fx ∧
        (t.oy : Int) = ay * win.stride - win.pad + t.fy := by
  obtain ⟨hx, hendx⟩ := h.toInt_x hax ay
  obtain ⟨hy, hendy⟩ := h.toInt_y ax hay
  rw [mem_taps_iff h.height h.width hendx.le hendy.le, hx, hy]

/-- No entry of a window is visited twice. -/
theorem nodup_offsets : ((win.taps a images).map fun t => (t.fx, t.fy)).Nodup := by
  refine List.pairwise_map.mpr ((win.pairwise_taps a).imp fun {t u} hbefore heq => ?_)
  obtain ⟨hfx, hfy⟩ := Prod.mk.inj heq
  rcases hbefore with hlt | ⟨-, hlt⟩ <;> omega

/-! ### Windows over images -/

/-- Where padded extents are signed words, so is all that the counted windows reach. -/
theorem inWords_of_outputDims {n height width c : Nat}
    (h : win.outputDims images = .ok (height, width)) (hheight : images.h + 2 * win.pad < 2 ^ 63)
    (hwidth : images.w + 2 * win.pad < 2 ^ 63) : win.InWords images ⟨n, height, width, c⟩ := by
  obtain ⟨hh, hw⟩ := win.outputDims_eq_ok h
  refine ⟨by omega, by omega, by omega, fun extent hextent k hk => ?_⟩
  rcases List.mem_cons.mp hextent with rfl | hextent
  · have hle := (lt_outputSize_iff hh k).mp hk
    rw [win.padded_eq (by omega)] at hle
    omega
  · obtain rfl := List.mem_singleton.mp hextent
    have hle := (lt_outputSize_iff hw k).mp hk
    rw [win.padded_eq (by omega)] at hle
    omega

/-- **Window geometry.**  Where a window fits into an extent whose padding leaves it a
word, the output positions are those whose windows end inside the padded extent, and
without gaps and without a rest these cover the extent.  Under any window, wherever it
starts, if its positions and the extents are signed words, the entries above the input
are visited row by row, each once and with its position. -/
theorem geometry (win : Window) :
    (∀ input, input + 2 * win.pad < 2 ^ 64 → 0 < win.kernel → 0 < win.stride →
      win.kernel ≤ input + 2 * win.pad →
      ∃ out, win.outputSize input = .ok out ∧
        (∀ k, k < out ↔ k * win.stride + win.kernel ≤ input + 2 * win.pad) ∧
        (win.stride ≤ win.kernel → win.stride ∣ input + 2 * win.pad - win.kernel →
          ∀ p < input, ∃ k < out,
            k * win.stride ≤ p + win.pad ∧ p + win.pad < k * win.stride + win.kernel)) ∧
      ∀ (a : Anchor) (images : NHWC),
        (win.taps a images).Pairwise Tap.Before ∧
          ((win.taps a images).map fun t => (t.fx, t.fy)).Nodup ∧
          (images.h < 2 ^ 63 → images.w < 2 ^ 63 → a.x.toInt + win.kernel ≤ 2 ^ 63 →
            a.y.toInt + win.kernel ≤ 2 ^ 63 → ∀ t, t ∈ win.taps a images ↔
              t.fx < win.kernel ∧ t.fy < win.kernel ∧ t.ox < images.h ∧ t.oy < images.w ∧
                (t.ox : Int) = a.x.toInt + t.fx ∧ (t.oy : Int) = a.y.toInt + t.fy) := by
  constructor
  · intro input hwords hkernel hstride hfits
    have hpadded := win.padded_eq hwords
    have hout := win.outputSize_eq hkernel hstride (hpadded ▸ hfits)
    refine ⟨_, hout, fun k => ?_, fun hgaps hrest p hp => exists_window hout hwords hgaps hrest hp⟩
    rw [lt_outputSize_iff hout, hpadded]
  · intro a images
    refine ⟨win.pairwise_taps a, nodup_offsets, fun hheight hwidth hx hy t => ?_⟩
    exact mem_taps_iff hheight hwidth hx hy

/-- Windows of side three at every other position of five padded ones: there are three,
the last position is under one of them, and the first one, which starts in the padding,
has four entries above an image of this extent, in this order. -/
theorem geometry_paddedFive : ∃ out, Window.outputSize ⟨3, 2, 1⟩ 5 = .ok out ∧ 2 < out ∧ ¬ 3 < out ∧
    (∃ k < out, k * 2 ≤ 4 + 1 ∧ 4 + 1 < k * 2 + 3) ∧
    Window.taps ⟨3, 2, 1⟩ ⟨0, 0, -1, -1⟩ ⟨1, 5, 5, 1⟩
      = [⟨1, 1, 0, 0⟩, ⟨2, 1, 1, 0⟩, ⟨1, 2, 0, 1⟩, ⟨2, 2, 1, 1⟩] ∧
    ⟨0, 1, 0, 0⟩ ∉ Window.taps ⟨3, 2, 1⟩ ⟨0, 0, -1, -1⟩ ⟨1, 5, 5, 1⟩ := by
  obtain ⟨hextent, htaps⟩ := geometry ⟨3, 2, 1⟩
  obtain ⟨out, hout, hlt, hcover⟩ := hextent 5 (by decide) (by decide) (by decide) (by decide)
  refine ⟨out, hout, (hlt 2).mpr (by decide), fun h => absurd ((hlt 3).mp h) (by decide),
    hcover (by decide) (by decide) 4 (by decide), by decide, fun h => ?_⟩
  have hiff := (htaps ⟨0, 0, -1, -1⟩ ⟨1, 5, 5, 1⟩).2.2 (by decide) (by decide) (by decide)
    (by decide) ⟨0, 1, 0, 0⟩
  exact absurd (hiff.mp h) (by decide)

/-- Padding by the largest word is padding by minus one.  An extent of three with such
padding has one window, although the next one would end inside, and that window starts
not in the padding but at the second position of the image. -/
theorem geometry_wrappedPadding :
    Window.outputSize ⟨1, 1, 2 ^ 64 - 1⟩ 3 = .ok 1 ∧ 1 * 1 + 1 ≤ 3 + 2 * (2 ^ 64 - 1) ∧
    Window.taps ⟨1, 1, 2 ^ 64 - 1⟩ (Window.anchor ⟨1, 1, 2 ^ 64 - 1⟩ 0 0) ⟨1, 3, 3, 1⟩
      = [⟨0, 0, 1, 1⟩] :=
  ⟨rfl, by decide, by decide⟩

end TensorProgram.Window
