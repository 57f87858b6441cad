/-
TensorProgram/Proofs/Tensor/Positions.lean

Coordinates and positions name the same elements.  The contiguous layout of a shape
places the whole coordinates, one each, at the positions of the buffer
(`Layout.bijOn_flatIndex`), and in row-major order: of two coordinates the one that is
smaller where they first differ comes first (`Shape.flat_lt_flat_iff`).  The entries that
are found from a position, axis by axis, make up its coordinate again
(`Layout.mapM_coordinate`).

In a shape with an element, the coordinates that begin with one leading part fill a block
of positions, and the leading part is placed where the block begins
(`Layout.isLeast_completion`).  The positions with one entry along an axis are a slice,
whose size depends on the axis only (`Layout.ncard_coordinate`).

Main statement: `Layout.positions_are_coordinates`.
-/
import Mathlib.Data.Set.Card
import TensorProgram.Proofs.Tensor.Axes
import TensorProgram.Proofs.Tensor.Layout

namespace TensorProgram

namespace Shape

variable {dims c c' p rest : List Nat}

/-! ### The order of positions -/

/-- Of two places in blocks of one size, the one in an earlier block comes first, and in
one block the places decide. -/
theorem block_lt_block_iff {i j a b size : Nat} (ha : a < size) (hb : b < size) :
    i * size + a < j * size + b ↔ i < j ∨ i = j ∧ a < b := by
  -- between different blocks lies at least one whole block
  rcases lt_trichotomy i j with hij | rfl | hji
  · have hblock : (i + 1) * size ≤ j * size := Nat.mul_le_mul_right size hij
    rw [Nat.succ_mul] at hblock
    exact ⟨fun _ => Or.inl hij, fun _ => by omega⟩
  · simp
  · have hblock : (j + 1) * size ≤ i * size := Nat.mul_le_mul_right size hji
    rw [Nat.succ_mul] at hblock
    omega

/-- Positions are in the order of coordinates, in which the first entry that differs
decides. -/
theorem flat_lt_flat_iff (hc : c ∈ coordinatesIn dims) (hc' : c' ∈ coordinatesIn dims) :
    flat dims c < flat dims c' ↔ c < c' := by
  induction dims generalizing c c' with
  | nil =>
      obtain rfl : c = [] := by simpa [coordinatesIn] using hc
      obtain rfl : c' = [] := by simpa [coordinatesIn] using hc'
      simp
  | cons d dims ih =>
      obtain ⟨hlen, hin⟩ := mem_coordinatesIn.mp hc
      obtain ⟨hlen', hin'⟩ := mem_coordinatesIn.mp hc'
      obtain ⟨i, c, rfl⟩ := List.exists_cons_of_length_eq_add_one hlen
      obtain ⟨j, c', rfl⟩ := List.exists_cons_of_length_eq_add_one hlen'
      have htail : c.length = dims.length := Nat.succ.inj hlen
      have htail' : c'.length = dims.length := Nat.succ.inj hlen'
      rw [flat_cons, flat_cons, List.cons_lt_cons_iff,
        block_lt_block_iff (flat_lt hin.2 htail) (flat_lt hin'.2 htail'),
        ih (mem_coordinatesIn.mpr ⟨htail, hin.2⟩) (mem_coordinatesIn.mpr ⟨htail', hin'.2⟩)]

/-! ### Leading parts of coordinates -/

/-- A leading part and what follows it are placed one after the other. -/
theorem flat_append (hp : Inside dims p) :
    flat dims (p ++ rest) = flat dims p + flat (dims.drop p.length) rest := by
  induction p generalizing dims with
  | nil => simp
  | cons i p ih =>
      cases dims with
      | nil => exact absurd hp (not_inside_empty i p)
      | cons d dims =>
          rw [List.cons_append, flat_cons, flat_cons, ih hp.2, Nat.add_assoc, List.length_cons,
            List.drop_succ_cons]

theorem inside_append :
    Inside dims (p ++ rest) ↔ Inside dims p ∧ Inside (dims.drop p.length) rest := by
  induction p generalizing dims with
  | nil => simp
  | cons i p ih =>
      cases dims with
      | nil => simp
      | cons d dims => simp [ih, and_assoc]

end Shape

namespace Layout

open Shape (Inside flat volume)

variable {s : Shape} {c p : List Nat} {axis d x k : Nat}

/-! ### Positions of coordinates -/

/-- A position is given to coordinates inside the shape, and to no others. -/
theorem flatIndex_contiguous_iff :
    (contiguous s).flatIndex c = .ok k ↔ Inside s.dims c ∧ flat s.dims c = k := by
  constructor
  · exact Shape.of_position_eq_ok
  · rintro ⟨hin, rfl⟩
    exact Shape.position_eq hin

/-- The whole coordinates are placed at the positions of the buffer, one at each. -/
theorem bijOn_flatIndex (s : Shape) :
    Set.BijOn (contiguous s).flatIndex {c | c.length = s.rank ∧ Inside s.dims c}
      (Except.ok '' Set.Iio s.elemCount) := by
  refine ⟨?_, ?_, ?_⟩
  · rintro c ⟨hlen, hin⟩
    exact ⟨flat s.dims c, Shape.flat_lt hin hlen, (flatIndex_contiguous_iff.mpr ⟨hin, rfl⟩).symm⟩
  · rintro c ⟨hlen, hin⟩ c' ⟨hlen', hin'⟩ h
    rw [flatIndex_contiguous_iff.mpr ⟨hin, rfl⟩, flatIndex_contiguous_iff.mpr ⟨hin', rfl⟩] at h
    exact Shape.flat_injOn (Shape.mem_coordinatesIn.mpr ⟨hlen, hin⟩)
      (Shape.mem_coordinatesIn.mpr ⟨hlen', hin'⟩) (Except.ok.inj h)
  · rintro _ ⟨k, hk, rfl⟩
    obtain ⟨c, hlen, hin, hflat⟩ := Shape.exists_coordinate hk
    exact ⟨c, ⟨hlen, hin⟩, flatIndex_contiguous_iff.mpr ⟨hin, hflat⟩⟩

/-- The entries found from the position of a coordinate are those of the coordinate. -/
theorem mapM_coordinate (hlen : c.length = s.rank) (h : (contiguous s).flatIndex c = .ok k) :
    (List.range s.rank).mapM (fun axis => (contiguous s).coordinate axis k) = .ok c := by
  obtain ⟨hin, rfl⟩ := flatIndex_contiguous_iff.mp h
  have hc : c ∈ s.coordinates := Shape.mem_coordinatesIn.mpr ⟨hlen, hin⟩
  have hentries : (List.range s.rank).map (fun axis => c.getD axis 0) = c := by
    apply List.ext_getElem
    · simp [hlen]
    · intro axis _ haxis
      simp [haxis]
  rw [← hentries]
  refine Outcome.mapM_eq_ok fun axis haxis => ?_
  have hlt : axis < c.length := hlen ▸ List.mem_range.mp haxis
  rw [hentries]
  exact Shape.coordinate_flat hc (by simp [hlt])

/-- A leading part of a coordinate is placed where the first of its completions is. -/
theorem isLeast_completion (hs : 0 < s.elemCount) (hp : Inside s.dims p) :
    IsLeast {k | ∃ rest, (p ++ rest).length = s.rank ∧ (contiguous s).flatIndex (p ++ rest) = .ok k}
      (flat s.dims p) := by
  constructor
  · -- all further entries zero
    have hrest : 0 < volume (s.dims.drop p.length) := Shape.volume_drop_pos hs _
    refine ⟨List.replicate (s.dims.drop p.length).length 0, ?_, flatIndex_contiguous_iff.mpr ?_⟩
    · have hle := hp.length_le
      simp only [List.length_append, List.length_replicate, List.length_drop, Shape.rank]
      omega
    · rw [Shape.inside_append, Shape.flat_append hp, Shape.flat_replicate_zero]
      exact ⟨⟨hp, Shape.inside_replicate_zero hrest⟩, rfl⟩
  · rintro k ⟨rest, -, hk⟩
    obtain ⟨-, rfl⟩ := flatIndex_contiguous_iff.mp hk
    rw [Shape.flat_append hp]
    exact Nat.le_add_right _ _

/-! ### Positions with one entry -/

/-- The positions with an entry along an axis are those of a slice. -/
theorem setOf_coordinate_eq (hd : s.dims[axis]? = some d) (x : Nat) :
    {k | k < s.elemCount ∧ (contiguous s).coordinate axis k = .ok x}
      = flat s.dims '' {c | c ∈ s.slice axis x} := by
  ext k
  constructor
  · rintro ⟨hk, hx⟩
    obtain ⟨c, hlen, hin, rfl⟩ := Shape.exists_coordinate hk
    have hc : c ∈ s.coordinates := Shape.mem_coordinatesIn.mpr ⟨hlen, hin⟩
    obtain ⟨y, -, hy⟩ := Shape.exists_entry hc hd
    obtain rfl : y = x := Except.ok.inj ((Shape.coordinate_flat hc hy).symm.trans hx)
    exact ⟨c, Shape.mem_slice.mpr ⟨hc, hy⟩, rfl⟩
  · rintro ⟨c, hc, rfl⟩
    obtain ⟨hc, hx⟩ := Shape.mem_slice.mp hc
    obtain ⟨hlen, hin⟩ := Shape.mem_coordinatesIn.mp hc
    exact ⟨Shape.flat_lt hin hlen, Shape.coordinate_flat hc hx⟩

/-- Every entry along an axis is that of the same number of positions. -/
theorem ncard_coordinate (hd : s.dims[axis]? = some d) (hx : x < d) :
    {k | k < s.elemCount ∧ (contiguous s).coordinate axis k = .ok x}.ncard = s.elemCount / d := by
  have hinj : Set.InjOn (flat s.dims) {c | c ∈ s.slice axis x} := fun c hc c' hc' h =>
    Shape.flat_injOn (Shape.mem_slice.mp hc).1 (Shape.mem_slice.mp hc').1 h
  have hnodup : (s.slice axis x).Nodup := (Shape.nodup_coordinatesIn s.dims).filter _
  rw [setOf_coordinate_eq hd, hinj.ncard_image, ← List.coe_toFinset, Set.ncard_coe_finset,
    List.toFinset_card_of_nodup hnodup, Shape.length_slice hd hx]

/-- **Positions are coordinates.**  In a shape with an element, the whole coordinates
inside it and the positions of the buffer correspond, and row-major order is the order of
positions.  The entries found from a position, for which nothing is divided by zero, are
those of its coordinate.  A leading part of a coordinate is placed at the first of the
positions of its completions, and each entry along an axis has the same share of the
positions. -/
theorem positions_are_coordinates {s : Shape} (hs : s.elemCount ≠ 0) :
    Set.BijOn (contiguous s).flatIndex {c | c.length = s.rank ∧ Inside s.dims c}
      (Except.ok '' Set.Iio s.elemCount) ∧
    (∀ c c' k k', c.length = s.rank → c'.length = s.rank → (contiguous s).flatIndex c = .ok k →
      (contiguous s).flatIndex c' = .ok k' → (k < k' ↔ c < c')) ∧
    (∀ k < s.elemCount, ∃ c,
      (List.range s.rank).mapM (fun axis => (contiguous s).coordinate axis k) = .ok c ∧
        c.length = s.rank ∧ (contiguous s).flatIndex c = .ok k) ∧
    (∀ c k, c.length = s.rank → (contiguous s).flatIndex c = .ok k →
      (List.range s.rank).mapM (fun axis => (contiguous s).coordinate axis k) = .ok c) ∧
    (∀ p, Inside s.dims p → ∃ k, (contiguous s).flatIndex p = .ok k ∧
      IsLeast {k' | ∃ rest, (p ++ rest).length = s.rank ∧
        (contiguous s).flatIndex (p ++ rest) = .ok k'} k) ∧
    ∀ axis d x : Nat, s.dims[axis]? = some d → x < d →
      {k | k < s.elemCount ∧ (contiguous s).coordinate axis k = .ok x}.ncard
        = s.elemCount / d := by
  refine ⟨bijOn_flatIndex s, fun c c' k k' hlen hlen' hk hk' => ?_, fun k hk => ?_,
    fun c k hlen hk => mapM_coordinate hlen hk, fun p hp => ?_,
    fun axis d x hd hx => ncard_coordinate hd hx⟩
  · obtain ⟨hin, rfl⟩ := flatIndex_contiguous_iff.mp hk
    obtain ⟨hin', rfl⟩ := flatIndex_contiguous_iff.mp hk'
    exact Shape.flat_lt_flat_iff (Shape.mem_coordinatesIn.mpr ⟨hlen, hin⟩)
      (Shape.mem_coordinatesIn.mpr ⟨hlen', hin'⟩)
  · obtain ⟨c, ⟨hlen, -⟩, hc⟩ := (bijOn_flatIndex s).surjOn ⟨k, hk, rfl⟩
    exact ⟨c, mapM_coordinate hlen hc, hlen, hc⟩
  · exact ⟨_, flatIndex_contiguous_iff.mpr ⟨hp, rfl⟩,
      isLeast_completion (Nat.pos_of_ne_zero hs) hp⟩

/-- A block of two by three by four: its last row begins at position 20, position 23 is the
last of that row, and six positions have the same entry along the last axis. -/
theorem positions_are_coordinates_block :
    Shape.elemCount ⟨[2, 3, 4]⟩ ≠ 0 ∧
    (∃ c, (List.range 3).mapM (fun axis => (contiguous ⟨[2, 3, 4]⟩).coordinate axis 23) = .ok c ∧
      c = [1, 2, 3] ∧ (contiguous ⟨[2, 3, 4]⟩).flatIndex c = .ok 23) ∧
    (∃ k, (contiguous ⟨[2, 3, 4]⟩).flatIndex [1, 2] = .ok k ∧ k = 20 ∧
      IsLeast {k' | ∃ rest, ([1, 2] ++ rest).length = 3 ∧
        (contiguous ⟨[2, 3, 4]⟩).flatIndex ([1, 2] ++ rest) = .ok k'} k) ∧
    {k | k < 24 ∧ (contiguous ⟨[2, 3, 4]⟩).coordinate 2 k = .ok 3}.ncard = 6 := by
  have hs : Shape.elemCount ⟨[2, 3, 4]⟩ ≠ 0 := by decide
  obtain ⟨-, -, hentries, -, hleading, hshare⟩ := positions_are_coordinates hs
  obtain ⟨c, hc, -, hk⟩ := hentries 23 (by decide)
  obtain ⟨k, hplace, hleast⟩ := hleading [1, 2] (by simp)
  exact ⟨hs, ⟨c, hc, (Except.ok.inj hc).symm, hk⟩, ⟨k, hplace, (Except.ok.inj hplace).symm, hleast⟩,
    hshare 2 4 3 rfl (by decide)⟩

end Layout

end TensorProgram
