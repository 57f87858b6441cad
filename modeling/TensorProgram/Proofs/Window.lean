/-
TensorProgram/Proofs/Window.lean

What the walks over images visit.  The sites of an output are its elements, each
once (`Window.perm_sites`), and every tap of a window lies inside the window and
inside the input (`Window.mem_taps`).

Coordinates are words, and words wrap.  Since sums and products wrap alike, a
coordinate is its exact number wrapped once, whatever the steps in between did
(`Window.anchor_eq`), so it is exact as soon as the number is one of the words
(`Window.InWords`).
-/
import Mathlib.Tactic.Ring
import TensorProgram.Kernel.Convolution
import TensorProgram.Proofs.Tensor.Layout

namespace TensorProgram

open Shape (flat)

theorem NHWC.elemCount_toShape (d : NHWC) :
    d.toShape.elemCount = d.n * (d.h * (d.w * d.c)) := by
  simp [NHWC.toShape]

theorem NHWC.ofDims_toShape (d : NHWC) : NHWC.ofDims d.toShape.dims = .ok d := rfl

/-- The order in which the positions under a window are visited: the second
spatial axis outermost. -/
def Tap.Before (t u : Tap) : Prop := t.fy < u.fy ∨ t.fy = u.fy ∧ t.fx < u.fx

namespace Window

variable (win : Window) {input output : NHWC} {o : OutputSite}

/-! ### Sites -/

theorem mem_anchors {a : Anchor} :
    a ∈ win.anchors output ↔ ∃ ax ay, ax < output.h ∧ ay < output.w ∧ win.anchor ax ay = a := by
  simp only [anchors, List.mem_flatMap, List.mem_map, List.mem_range]
  constructor
  · rintro ⟨ay, hay, ax, hax, rfl⟩
    exact ⟨ax, ay, hax, hay, rfl⟩
  · rintro ⟨ax, ay, hax, hay, rfl⟩
    exact ⟨ay, hay, ax, hax, rfl⟩

theorem mem_sites :
    o ∈ win.sites output ↔ o.n < output.n ∧ o.d < output.c ∧ o.anchor ∈ win.anchors output := by
  obtain ⟨n, d, a⟩ := o
  simp only [sites, List.mem_flatMap, List.mem_map, List.mem_range, OutputSite.mk.injEq]
  constructor
  · rintro ⟨n', hn, d', hd, a', ha, rfl, rfl, rfl⟩
    exact ⟨hn, hd, ha⟩
  · rintro ⟨hn, hd, ha⟩
    exact ⟨n, hn, d, hd, a, ha, rfl, rfl, rfl⟩

/-- The coordinate of a site lies inside the output. -/
theorem inside_site (ho : o ∈ win.sites output) : Shape.Inside output.toShape.dims o.coord := by
  obtain ⟨hn, hd, ha⟩ := (win.mem_sites).mp ho
  obtain ⟨ax, ay, hax, hay, hanchor⟩ := (win.mem_anchors).mp ha
  rw [OutputSite.coord, ← hanchor]
  exact ⟨hn, hax, hay, hd, Shape.inside_nil _⟩

theorem flat_site_lt (ho : o ∈ win.sites output) :
    flat output.toShape.dims o.coord < output.toShape.elemCount :=
  Shape.flat_lt (win.inside_site ho) rfl

/-- Every element of the output has a site. -/
theorem exists_site {coord : List Nat} (hlen : coord.length = 4)
    (hin : Shape.Inside output.toShape.dims coord) : ∃ o ∈ win.sites output, o.coord = coord := by
  obtain ⟨n, x, y, d, rfl⟩ : ∃ n x y d, coord = [n, x, y, d] := by
    match coord, hlen with
    | [n, x, y, d], _ => exact ⟨n, x, y, d, rfl⟩
  obtain ⟨hn, hx, hy, hd, -⟩ := hin
  refine ⟨⟨n, d, win.anchor x y⟩, (win.mem_sites).mpr ⟨hn, hd, ?_⟩, rfl⟩
  exact (win.mem_anchors).mpr ⟨x, y, hx, hy, rfl⟩

theorem length_sites : (win.sites output).length = output.toShape.elemCount := by
  have hanchors : (win.anchors output).length = output.w * output.h := by
    simp [anchors, List.length_flatMap]
  simp only [sites, List.length_flatMap, List.length_map, hanchors, List.map_const',
    List.length_range, List.sum_replicate_nat, NHWC.elemCount_toShape]
  ring

/-- The sites are the elements of the output, each once. -/
theorem perm_sites : ((win.sites output).map fun o => flat output.toShape.dims o.coord).Perm
    (List.range output.toShape.elemCount) := by
  refine perm_range_of_cover (fun k hk => ?_) (by rw [List.length_map, win.length_sites])
  obtain ⟨coord, hlen, hin, rfl⟩ := Shape.exists_coordinate hk
  obtain ⟨o, ho, rfl⟩ := win.exists_site hlen hin
  exact List.mem_map_of_mem ho

/-- Of a walk over all numbers below a bound, one leaves something. -/
theorem flatMap_range_eq {β : Type} {f : Nat → List β} {count k : Nat} (hk : k < count)
    (h : ∀ m < count, m ≠ k → f m = []) : (List.range count).flatMap f = f k := by
  induction count with
  | zero => exact absurd hk (Nat.not_lt_zero k)
  | succ count ih =>
      rw [List.range_succ, List.flatMap_append, List.flatMap_singleton]
      rcases Nat.lt_succ_iff_lt_or_eq.mp hk with hlt | rfl
      · rw [ih hlt fun m hm hne => h m (by omega) hne, h count (by omega) (by omega),
          List.append_nil]
      · have hbefore : (List.range k).flatMap f = [] := by
          refine List.flatMap_eq_nil_iff.mpr fun m hm => ?_
          have hlt := List.mem_range.mp hm
          exact h m (by omega) (by omega)
        rw [hbefore, List.nil_append]

/-- The sites of one channel of one image come in the order of their anchors. -/
theorem filter_sites {n z : Nat} (hn : n < output.n) (hz : z < output.c) {p : OutputSite → Bool}
    (hp : ∀ o ∈ win.sites output, p o = true → o.n = n ∧ o.d = z) :
    (win.sites output).filter p
      = ((win.anchors output).filter fun a => p ⟨n, z, a⟩).map (OutputSite.mk n z) := by
  have hempty {m e : Nat} (hm : m < output.n) (he : e < output.c) (hne : m = n → e ≠ z) :
      ((win.anchors output).map (OutputSite.mk m e)).filter p = [] := by
    refine List.filter_eq_nil_iff.mpr fun o ho hpo => ?_
    obtain ⟨a, ha, rfl⟩ := List.mem_map.mp ho
    obtain ⟨hmn, hez⟩ := hp _ (win.mem_sites.mpr ⟨hm, he, ha⟩) hpo
    exact hne hmn hez
  rw [sites, List.filter_flatMap, flatMap_range_eq hn, List.filter_flatMap, flatMap_range_eq hz,
    List.filter_map]
  · rfl
  · exact fun e he hne => hempty hn he fun _ => hne
  · intro m hm hne
    rw [List.filter_flatMap, List.flatMap_eq_nil_iff]
    exact fun e he => hempty hm (List.mem_range.mp he) fun h => absurd h hne

/-! ### Coordinates as words -/

/-- Neither the padding, nor an extent of the input, nor the end of a window leaves the
signed words. -/
structure InWords (win : Window) (input output : NHWC) : Prop where
  /-- The padding is a signed word. -/
  pad : win.pad < 2 ^ 63
  /-- So is the first spatial extent of the input. -/
  height : input.h < 2 ^ 63
  /-- So is the second. -/
  width : input.w < 2 ^ 63
  /-- So is the end of every window, counted from the border of the padding. -/
  ends : ∀ extent ∈ [output.h, output.w], ∀ a < extent, a * win.stride + win.kernel < 2 ^ 63

/-- A window starts at its exact coordinate, wrapped. -/
theorem anchor_eq (ax ay : Nat) : win.anchor ax ay =
    ⟨ax, ay, .ofInt (ax * win.stride - win.pad), .ofInt (ay * win.stride - win.pad)⟩ := by
  simp only [anchor, Int64.ofInt_sub, Int64.ofInt_mul, Int64.ofInt_eq_ofNat, Int64.sub_eq_add_neg,
    Int64.add_comm]

section Exact

variable {win} {ax ay : Nat} (h : win.InWords input output)

include h in
/-- In words, a window starts where it should along the first spatial axis. -/
theorem InWords.toInt_x (hax : ax < output.h) (ay : Nat) :
    (win.anchor ax ay).x.toInt = ax * win.stride - win.pad ∧
    (win.anchor ax ay).x.toInt + win.kernel < 2 ^ 63 := by
  have hend := h.ends output.h (by simp) ax hax
  have hpad := h.pad
  rw [anchor_eq, Int64.toInt_ofInt_of_le (by omega) (by omega)]
  omega

include h in
/-- So it does along the second. -/
theorem InWords.toInt_y (ax : Nat) (hay : ay < output.w) :
    (win.anchor ax ay).y.toInt = ay * win.stride - win.pad ∧
    (win.anchor ax ay).y.toInt + win.kernel < 2 ^ 63 := by
  have hend := h.ends output.w (by simp) ay hay
  have hpad := h.pad
  rw [anchor_eq, Int64.toInt_ofInt_of_le (by omega) (by omega)]
  omega

end Exact

/-- A position behind the start of a window is exact if it is a word. -/
theorem toInt_add_ofNat {x : Int64} {f : Nat} (hf : x.toInt + f < 2 ^ 63) :
    (x + Int64.ofNat f).toInt = x.toInt + f := by
  have hle := Int64.le_toInt x
  have hsum : x + Int64.ofNat f = Int64.ofInt (x.toInt + f) := by
    rw [Int64.ofInt_add, Int64.ofInt_toInt, Int64.ofInt_eq_ofNat]
  rw [hsum, Int64.toInt_ofInt_of_le (by omega) hf]

/-- An extent as a signed word is not larger than it is. -/
theorem toInt_ofNat_le (n : Nat) : (Int64.ofNat n).toInt ≤ n := by
  rcases Nat.lt_or_ge n (2 ^ 63) with hn | hn
  · rw [Int64.toInt_ofNat_of_lt hn]
  · have hlt := Int64.toInt_lt (Int64.ofNat n)
    omega

/-- Where positions are words, the entry of a window that is above the input is its tap. -/
theorem tap?_eq {a : Anchor} {fx fy : Nat} (hx : a.x.toInt + fx < 2 ^ 63)
    (hy : a.y.toInt + fy < 2 ^ 63) (hheight : input.h < 2 ^ 63) (hwidth : input.w < 2 ^ 63) :
    tap? a input fx fy =
      if 0 ≤ a.x.toInt + fx ∧ 0 ≤ a.y.toInt + fy ∧ a.x.toInt + fx < input.h ∧
          a.y.toInt + fy < input.w then
        some ⟨fx, fy, (a.x.toInt + fx).toNat, (a.y.toInt + fy).toNat⟩
      else none := by
  simp only [tap?, Int64.le_iff_toInt_le, Int64.lt_iff_toInt_lt, Int64.toNatClampNeg,
    toInt_add_ofNat hx, toInt_add_ofNat hy, Int64.toInt_ofNat_of_lt hheight,
    Int64.toInt_ofNat_of_lt hwidth, Int64.toInt_zero]

/-- The entry of the input, along one spatial axis, under entry `f` of the window
at output position `a`. -/
def under (a f : Nat) : Int := a * win.stride - win.pad + f

/-- In words, an entry of a window has a tap where the entry under it is one of the
input. -/
theorem InWords.tap?_anchor {win : Window} (h : win.InWords input output) {ax ay fx fy : Nat}
    (hax : ax < output.h) (hay : ay < output.w) (hfx : fx < win.kernel) (hfy : fy < win.kernel) :
    tap? (win.anchor ax ay) input fx fy =
      if 0 ≤ win.under ax fx ∧ 0 ≤ win.under ay fy ∧ win.under ax fx < input.h ∧
          win.under ay fy < input.w then
        some ⟨fx, fy, (win.under ax fx).toNat, (win.under ay fy).toNat⟩
      else none := by
  obtain ⟨hx, hendx⟩ := h.toInt_x hax ay
  obtain ⟨hy, hendy⟩ := h.toInt_y ax hay
  rw [tap?_eq (by omega) (by omega) h.height h.width, hx, hy]
  rfl

/-! ### Taps -/

/-- A tap lies inside the window and inside the input. -/
theorem mem_taps {a : Anchor} {t : Tap} (ht : t ∈ win.taps a input) :
    t.fx < win.kernel ∧ t.fy < win.kernel ∧ t.ox < input.h ∧ t.oy < input.w := by
  simp only [taps, List.mem_flatMap, List.mem_filterMap, List.mem_range] at ht
  obtain ⟨fy, hfy, fx, hfx, htap⟩ := ht
  rw [tap?] at htap
  split at htap
  · rename_i hbounds
    obtain rfl := Option.some.inj htap
    simp only [Int64.le_iff_toInt_le, Int64.lt_iff_toInt_lt, Int64.toInt_zero] at hbounds
    have hheight := toInt_ofNat_le input.h
    have hwidth := toInt_ofNat_le input.w
    refine ⟨hfx, hfy, ?_, ?_⟩ <;> dsimp only [Int64.toNatClampNeg] <;> omega
  · cases htap

theorem offsets_of_tap? {a : Anchor} {fx fy : Nat} {t : Tap} (ht : tap? a input fx fy = some t) :
    t.fx = fx ∧ t.fy = fy := by
  rw [tap?] at ht
  split at ht
  · obtain rfl := Option.some.inj ht
    exact ⟨rfl, rfl⟩
  · cases ht

theorem pairwise_taps (a : Anchor) : (win.taps a input).Pairwise Tap.Before := by
  refine List.pairwise_flatMap.mpr ⟨fun fy _ => ?_, ?_⟩
  · refine List.pairwise_filterMap.mpr (List.pairwise_lt_range.imp fun {fx fx'} hlt t ht u hu => ?_)
    obtain ⟨hfx, hfy⟩ := offsets_of_tap? ht
    obtain ⟨hfx', hfy'⟩ := offsets_of_tap? hu
    exact .inr ⟨hfy.trans hfy'.symm, by omega⟩
  · refine List.pairwise_lt_range.imp fun {fy fy'} hlt t ht u hu => ?_
    obtain ⟨_, -, ht⟩ := List.mem_filterMap.mp ht
    obtain ⟨_, -, hu⟩ := List.mem_filterMap.mp hu
    obtain ⟨-, hfy⟩ := offsets_of_tap? ht
    obtain ⟨-, hfy'⟩ := offsets_of_tap? hu
    exact .inl (by omega)

theorem mem_channelTaps {a : Anchor} {t : ChannelTap} (ht : t ∈ win.channelTaps a input) :
    t.tap ∈ win.taps a input ∧ t.c < input.c := by
  simp only [channelTaps, List.mem_flatMap, List.mem_map, List.mem_range] at ht
  obtain ⟨tap, htap, c, hc, rfl⟩ := ht
  exact ⟨htap, hc⟩

end Window

end TensorProgram
