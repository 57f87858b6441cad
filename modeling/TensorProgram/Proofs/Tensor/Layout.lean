/-
TensorProgram/Proofs/Tensor/Layout.lean

Views of a buffer.  Permuting the axes of a layout permutes its shape and its
strides together, so a coordinate of the view has the position that the
permuted-back coordinate has in the buffer (`displacement_permuted`).  A view is
walked by an odometer that moves on by one position at every step
(`advance_spec`), so the walk places the coordinates in row-major order
(`Layout.indices_eq`).  Numbering its steps is the same as walking the
coordinates with their own positions (`zipIdx_coordinatesIn`), and so a gather
along a view writes, at every coordinate, the element that the view has there
(`performs_gather`).
-/
import TensorProgram.Proofs.Shape.Permutation
import TensorProgram.Proofs.Tensor.Writes
import TensorProgram.Tensor.Block

namespace TensorProgram

open Layout (displacement)

/-! ### Displacements -/

namespace Layout

/-- A displacement is a sum over the axes. -/
theorem displacement_eq_sum {strides index : List Nat} (h : index.length = strides.length) :
    displacement strides index
      = ((List.range strides.length).map fun k => index.getD k 0 * strides.getD k 0).sum := by
  induction strides generalizing index with
  | nil =>
      cases index with
      | nil => rfl
      | cons i index => simp at h
  | cons stride strides ih =>
      cases index with
      | nil => simp at h
      | cons i index =>
          have hrest : index.length = strides.length := by simpa using h
          rw [displacement, ih hrest, List.length_cons, List.range_succ_eq_map, List.map_cons,
            List.sum_cons, List.map_map]
          rfl

/-- In a view with permuted axes, a coordinate has the position that the
permuted-back coordinate has in the buffer. -/
theorem displacement_permuted {σ strides index : List Nat} {r : Nat} (h : IsPermutation σ r)
    (hs : strides.length = r) (hi : index.length = r) :
    displacement (permuted σ strides) index
      = displacement strides (permuted (inverseShuffle σ) index) := by
  -- both displacements are the same sum over axes, in a different order
  let term (a : Nat) : Nat := index.getD (σ.idxOf a) 0 * strides.getD a 0
  have hview : displacement (permuted σ strides) index = (σ.map term).sum := by
    rw [displacement_eq_sum (by simp [hi, h.1]), length_permuted]
    congr 1
    apply List.ext_getElem
    · simp
    · intro k hk hk'
      have hkr : k < r := by simpa [h.1] using hk
      have hkσ : k < σ.length := h.1 ▸ hkr
      simp only [List.getElem_map, List.getElem_range, term]
      rw [h.getD_permuted _ hkr, List.getD_eq_getElem σ 0 hkσ, h.2.2.idxOf_getElem k hkσ]
  have hbuffer : displacement strides (permuted (inverseShuffle σ) index)
      = ((List.range r).map term).sum := by
    rw [displacement_eq_sum (by simp [hs, h.1]), hs]
    congr 1
    refine List.map_congr_left fun a ha => ?_
    have har : a < r := List.mem_range.mp ha
    rw [h.inverse.getD_permuted _ har, h.getD_inverse har]
  rw [hview, hbuffer]
  exact (h.perm_range.map term).sum_nat

/-- A displacement is linear in the coordinate. -/
theorem displacement_add (strides : List Nat) {a b : List Nat} (h : a.length = b.length) :
    displacement strides (List.zipWith (· + ·) a b)
      = displacement strides a + displacement strides b := by
  induction strides generalizing a b with
  | nil => cases a <;> cases b <;> simp_all [displacement]
  | cons stride strides ih =>
      cases a with
      | nil =>
          cases b with
          | nil => rfl
          | cons _ _ => simp at h
      | cons i a =>
          cases b with
          | nil => simp at h
          | cons j b =>
              have hrest : a.length = b.length := by simpa using h
              rw [List.zipWith_cons_cons, displacement, displacement, displacement, ih hrest,
                Nat.add_mul]
              omega

end Layout

namespace Shape

/-- Reordering the axes keeps a coordinate inside. -/
theorem Inside.permuted {σ dims coord : List Nat} {r : Nat} (h : IsPermutation σ r)
    (hd : dims.length = r) (hin : Inside dims coord) (hlen : coord.length = r) :
    Inside (permuted σ dims) (TensorProgram.permuted σ coord) := by
  have hentry : ∀ a ∈ σ, coord.getD a 0 < dims.getD a 0 := by
    intro a ha
    have hc : a < coord.length := hlen ▸ h.2.1 a ha
    have hd' : a < dims.length := hd ▸ h.2.1 a ha
    have hmem : (coord[a], dims[a]) ∈ coord.zip dims :=
      List.mem_iff_getElem.mpr ⟨a, by rw [List.length_zip]; omega, by simp⟩
    rw [List.getD_eq_getElem _ _ hc, List.getD_eq_getElem _ _ hd']
    exact hin.zip_lt _ hmem
  -- below, the entries of `σ` are taken one at a time
  clear h
  induction σ with
  | nil => exact inside_nil _
  | cons a σ ih =>
      exact ⟨hentry a (by simp), ih fun b hb => hentry b (by simp [hb])⟩

/-- A coordinate of a shape, permuted, is one of the permuted shape. -/
theorem permuted_mem {σ dims dims' c : List Nat} (h : IsPermutation σ dims.length)
    (hdims : dims' = TensorProgram.permuted σ dims) (hc : c ∈ coordinatesIn dims) :
    TensorProgram.permuted σ c ∈ coordinatesIn dims' := by
  obtain ⟨hlen, hin⟩ := mem_coordinatesIn.mp hc
  rw [hdims]
  exact mem_coordinatesIn.mpr ⟨by rw [length_permuted, length_permuted], hin.permuted h rfl hlen⟩

/-- A coordinate of the permuted shape, permuted back, is one of the shape. -/
theorem permuted_back_mem {σ dims dims' c : List Nat} (h : IsPermutation σ dims.length)
    (hdims : dims' = TensorProgram.permuted σ dims) (hc : c ∈ coordinatesIn dims') :
    c.length = dims.length ∧ TensorProgram.permuted (inverseShuffle σ) c ∈ coordinatesIn dims := by
  have hrank : dims'.length = dims.length := by rw [hdims, length_permuted, h.1]
  have hback : dims = TensorProgram.permuted (inverseShuffle σ) dims' := by
    rw [hdims, h.permuted_inverse rfl]
  exact ⟨(mem_coordinatesIn.mp hc).1.trans hrank, permuted_mem (hrank ▸ h.inverse) hback hc⟩

/-- Numbering the coordinates in row-major order gives their positions. -/
theorem zipIdx_coordinatesIn (dims : List Nat) :
    (coordinatesIn dims).zipIdx = (coordinatesIn dims).map fun c => (c, flat dims c) := by
  have hrange : List.range' 0 (coordinatesIn dims).length = (coordinatesIn dims).map (flat dims) := by
    rw [map_flat_coordinatesIn, length_coordinatesIn, List.range_eq_range']
  rw [List.zipIdx_eq_zip_range', hrange, ← List.map_prod_left_eq_zip]

/-- No position is met twice. -/
theorem nodup_map_flat (dims : List Nat) : ((coordinatesIn dims).map (flat dims)).Nodup := by
  rw [map_flat_coordinatesIn]
  exact List.nodup_range

/-- A whole coordinate inside a shape is determined by its position. -/
theorem flat_injOn {dims c c' : List Nat} (hc : c ∈ coordinatesIn dims)
    (hc' : c' ∈ coordinatesIn dims) (h : flat dims c = flat dims c') : c = c' :=
  List.inj_on_of_nodup_map (nodup_map_flat dims) hc hc' h

theorem nodup_coordinatesIn (dims : List Nat) : (coordinatesIn dims).Nodup :=
  (nodup_map_flat dims).of_map (flat dims)

theorem inside_replicate_zero {dims : List Nat} (h : 0 < volume dims) :
    Inside dims (List.replicate dims.length 0) := by
  induction dims with
  | nil => exact inside_nil _
  | cons d dims ih =>
      exact ⟨Nat.pos_of_mul_pos_right h, ih (Nat.pos_of_mul_pos_left h)⟩

theorem flat_replicate_zero (dims : List Nat) : flat dims (List.replicate dims.length 0) = 0 := by
  induction dims with
  | nil => rfl
  | cons d dims ih => rw [List.length_cons, List.replicate_succ, flat_cons, ih, Nat.zero_mul]

end Shape

/-! ### Walking a view -/

namespace Layout

open Shape (coordinatesIn volume flat Inside)

variable {dims current : List Nat}

/-- The odometer stays within the extents and moves on by one position; it
carries out of the first entry at the end of the buffer, where all of the
buffer is taken off. -/
theorem advance_spec (h : current ∈ coordinatesIn dims) :
    (advance dims current).2 ∈ coordinatesIn dims ∧
      flat dims (advance dims current).2 + (if (advance dims current).1 then volume dims else 0)
        = flat dims current + 1 := by
  induction dims generalizing current with
  | nil =>
      obtain rfl : current = [] := by simpa [coordinatesIn] using h
      exact ⟨h, rfl⟩
  | cons d dims ih =>
      obtain ⟨hlen, hin⟩ := Shape.mem_coordinatesIn.mp h
      cases current with
      | nil => simp at hlen
      | cons i current =>
          obtain ⟨hnext, hflat⟩ := ih (Shape.mem_coordinatesIn.mpr ⟨by simpa using hlen, hin.2⟩)
          obtain ⟨hnextlen, hnextin⟩ := Shape.mem_coordinatesIn.mp hnext
          rw [advance]
          generalize advance dims current = moved at hnext hflat hnextlen hnextin ⊢
          obtain ⟨_ | _, next⟩ := moved
          -- the last entries had room
          · refine ⟨Shape.mem_coordinatesIn.mpr ⟨by simpa using hnextlen, hin.1, hnextin⟩, ?_⟩
            simp only [Shape.flat_cons, Bool.false_eq_true, if_false] at hflat ⊢
            omega
          -- they started again, and this entry takes the carry
          · simp only [if_true] at hflat
            by_cases hroom : i + 1 < d
            · simp only [if_pos hroom]
              refine ⟨Shape.mem_coordinatesIn.mpr ⟨by simpa using hnextlen, hroom, hnextin⟩, ?_⟩
              simp only [Shape.flat_cons, Nat.succ_mul, Bool.false_eq_true, if_false]
              omega
            · have hend : i + 1 = d := by have := hin.1; omega
              simp only [if_neg hroom]
              refine ⟨Shape.mem_coordinatesIn.mpr
                ⟨by simpa using hnextlen, Nat.zero_lt_of_lt hin.1, hnextin⟩, ?_⟩
              simp only [Shape.flat_cons, Shape.volume_cons, ← hend, Nat.succ_mul, if_true]
              omega

/-- Before the end of the buffer the odometer moves to the next position. -/
theorem flat_advance (h : current ∈ coordinatesIn dims) (hlt : flat dims current + 1 < volume dims) :
    flat dims (advance dims current).2 = flat dims current + 1 := by
  obtain ⟨-, hflat⟩ := advance_spec h
  split at hflat <;> omega

/-- As long as the buffer lasts, the readings stay within the extents. -/
theorem mem_readings {count : Nat} {c : List Nat} (h : current ∈ coordinatesIn dims)
    (hc : c ∈ readings dims count current) : c ∈ coordinatesIn dims := by
  induction count generalizing current with
  | zero => cases hc
  | succ count ih =>
      rcases List.mem_cons.mp hc with rfl | hc
      · exact h
      · exact ih (advance_spec h).1 hc

/-- As long as the buffer lasts, the readings are at consecutive positions. -/
theorem map_flat_readings {count : Nat} (h : current ∈ coordinatesIn dims)
    (hcount : flat dims current + count ≤ volume dims) :
    (readings dims count current).map (flat dims) = List.range' (flat dims current) count := by
  induction count generalizing current with
  | zero => rfl
  | succ count ih =>
      rw [readings, List.map_cons, List.range'_succ]
      cases count with
      | zero => rfl
      | succ count =>
          have hnext := flat_advance h (by omega)
          rw [ih (advance_spec h).1 (by omega), hnext]

/-- From zero on, the odometer shows every coordinate in row-major order. -/
theorem readings_zero (dims : List Nat) :
    readings dims (volume dims) (List.replicate dims.length 0) = coordinatesIn dims := by
  by_cases hempty : volume dims = 0
  · have hnone : coordinatesIn dims = [] := by
      rw [← List.length_eq_zero_iff, Shape.length_coordinatesIn, hempty]
    rw [hempty, hnone, readings]
  · have hzero : List.replicate dims.length 0 ∈ coordinatesIn dims :=
      Shape.mem_coordinatesIn.mpr
        ⟨List.length_replicate, Shape.inside_replicate_zero (Nat.pos_of_ne_zero hempty)⟩
    have hflat := map_flat_readings hzero (by rw [Shape.flat_replicate_zero, Nat.zero_add])
    rw [Shape.flat_replicate_zero, ← List.range_eq_range', ← Shape.map_flat_coordinatesIn] at hflat
    -- entry by entry, since a coordinate within the extents is known by its position
    apply List.ext_getElem
    · simpa using congrArg List.length hflat
    · intro k hk hk'
      refine Shape.flat_injOn (mem_readings hzero (List.getElem_mem hk)) (List.getElem_mem hk') ?_
      have hpos := List.getElem_of_eq hflat (by rw [List.length_map]; exact hk)
      rwa [List.getElem_map, List.getElem_map] at hpos

/-- The walk of a view places every coordinate in row-major order. -/
theorem indices_eq (l : Layout) :
    l.indices = l.shape.coordinates.map fun c => l.offset + displacement l.strides c := by
  show (readings l.shape.dims (volume l.shape.dims) (List.replicate l.shape.dims.length 0)).map _ = _
  rw [readings_zero]
  rfl

end Layout

/-! ### Gathering along a view -/

namespace View

open Shape (coordinatesIn flat)

variable {ε : Type} [Zero ε] {src : View ε} {dims : List Nat} {f : List Nat → Nat}

/-- Walking a view writes at every coordinate the element that the view has
there. -/
theorem performs_gather {n : Nat} (hn : Shape.volume dims ≤ n)
    (hf : ∀ c ∈ coordinatesIn dims, f c < src.shape.elemCount) :
    Run.Performs overwrite (src.gather ((coordinatesIn dims).map f) : Run (Vector ε n) Unit)
      ((coordinatesIn dims).map fun c => (flat dims c, src.entry (f c))) := by
  have hwalk : ((coordinatesIn dims).map f).zipIdx
      = (coordinatesIn dims).map fun c => (f c, flat dims c) := by
    rw [List.zipIdx_map, Shape.zipIdx_coordinatesIn, List.map_map]
    rfl
  rw [gather, hwalk]
  refine Run.performs_scatter_map (fun c hc => src.raw_eq (hf c hc)) (fun c _ => rfl) fun c hc => ?_
  obtain ⟨hlen, hin⟩ := Shape.mem_coordinatesIn.mp hc
  exact Nat.lt_of_lt_of_le (Shape.flat_lt hin hlen) hn

end View

end TensorProgram
