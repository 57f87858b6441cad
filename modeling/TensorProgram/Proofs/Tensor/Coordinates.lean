/-
TensorProgram/Proofs/Tensor/Coordinates.lean

Coordinates and positions in a row-major buffer.  `Shape.Inside dims coord`
says that a coordinate, or a leading part of one, lies within the extents
`dims`, and `Shape.flat dims coord` is its position.

Main statement: walking the coordinates of a shape in row-major order meets the
positions `0, 1, 2, …` in order (`map_flat_coordinatesIn`), so the two
descriptions of an element determine one another.  From it the kernels take
that every coordinate they use has a position in the buffer (`position_eq`,
`flat_lt`), and that no position is missed (`exists_coordinate`).
-/
import Mathlib.Algebra.Ring.Nat
import TensorProgram.Tensor.View
import TensorProgram.Proofs.Run

namespace TensorProgram

namespace Shape

/-- A coordinate, or a leading part of one, lies within these extents. -/
def Inside : (dims coord : List Nat) → Prop
  | _, [] => True
  | d :: dims, i :: coord => i < d ∧ Inside dims coord
  | [], _ :: _ => False

/-- The position of a coordinate in the row-major buffer of these extents. -/
def flat (dims coord : List Nat) : Nat := Layout.displacement (rowMajorStrides dims) coord

@[simp] theorem inside_nil (dims : List Nat) : Inside dims [] := by
  cases dims <;> trivial

@[simp] theorem inside_cons (d i : Nat) (dims coord : List Nat) :
    Inside (d :: dims) (i :: coord) ↔ i < d ∧ Inside dims coord := Iff.rfl

@[simp] theorem not_inside_empty (i : Nat) (coord : List Nat) :
    ¬ Inside [] (i :: coord) := id

@[simp] theorem flat_nil (dims : List Nat) : flat dims [] = 0 := by
  rw [flat]
  cases rowMajorStrides dims <;> rfl

@[simp] theorem flat_cons (d i : Nat) (dims coord : List Nat) :
    flat (d :: dims) (i :: coord) = i * volume dims + flat dims coord := by
  rw [flat, rowMajorStrides_cons]
  rfl

/-! ### Positions of coordinates -/

/-- A leading part of a coordinate leaves room for the sub-tensor it selects. -/
theorem flat_add_volume_le {dims coord : List Nat} (h : Inside dims coord) :
    flat dims coord + volume (dims.drop coord.length) ≤ volume dims := by
  induction coord generalizing dims with
  | nil => simp
  | cons i coord ih =>
      cases dims with
      | nil => exact absurd h (not_inside_empty i coord)
      | cons d dims =>
          obtain ⟨hi, hrest⟩ := h
          have hsub := ih hrest
          have hle : (i + 1) * volume dims ≤ d * volume dims := Nat.mul_le_mul_right _ hi
          simp only [flat_cons, List.length_cons, List.drop_succ_cons, volume_cons]
          rw [Nat.succ_mul] at hle
          omega

/-- A whole coordinate names an element of the buffer. -/
theorem flat_lt {dims coord : List Nat} (h : Inside dims coord)
    (hlen : coord.length = dims.length) : flat dims coord < volume dims := by
  have hle := flat_add_volume_le h
  rw [hlen, List.drop_length, volume_nil] at hle
  omega

theorem Inside.length_le {dims coord : List Nat} (h : Inside dims coord) :
    coord.length ≤ dims.length := by
  induction coord generalizing dims with
  | nil => simp
  | cons i coord ih =>
      cases dims with
      | nil => exact absurd h (not_inside_empty i coord)
      | cons d dims => simpa using ih h.2

theorem Inside.zip_lt {dims coord : List Nat} (h : Inside dims coord) :
    ∀ p ∈ coord.zip dims, p.1 < p.2 := by
  induction coord generalizing dims with
  | nil => simp
  | cons i coord ih =>
      cases dims with
      | nil => exact absurd h (not_inside_empty i coord)
      | cons d dims => simpa using ⟨h.1, fun a b hab => ih h.2 (a, b) hab⟩

theorem inside_of_zip_lt {dims coord : List Nat} (hlen : coord.length ≤ dims.length)
    (h : ∀ p ∈ coord.zip dims, p.1 < p.2) : Inside dims coord := by
  induction coord generalizing dims with
  | nil => exact inside_nil dims
  | cons i coord ih =>
      cases dims with
      | nil => exact absurd hlen (Nat.not_succ_le_zero _)
      | cons d dims =>
          exact ⟨h (i, d) (by simp), ih (Nat.le_of_succ_le_succ hlen) fun p hp => h p (by simp [hp])⟩

/-- Inside the shape a coordinate has a position. -/
theorem position_eq {s : Shape} {coord : List Nat} (h : Inside s.dims coord) :
    s.position coord = .ok (flat s.dims coord) := by
  have hlen : coord.length ≤ s.dims.length := h.length_le
  have hadmits : (Layout.contiguous s).Admits coord :=
    ⟨hlen, by simpa [Layout.contiguous, strides, length_rowMajorStrides] using hlen, h.zip_lt⟩
  rw [position, Layout.flatIndex, if_pos hadmits]
  simp [Layout.contiguous, flat, strides]

/-- A coordinate with a position lies inside the shape. -/
theorem of_position_eq_ok {s : Shape} {coord : List Nat} {k : Nat} (h : s.position coord = .ok k) :
    Inside s.dims coord ∧ flat s.dims coord = k := by
  have hin : Inside s.dims coord := by
    rw [position, Layout.flatIndex] at h
    split at h
    · rename_i hadmits
      exact inside_of_zip_lt hadmits.1 hadmits.2.2
    · cases h
  exact ⟨hin, Except.ok.inj ((position_eq hin).symm.trans h)⟩

/-! ### All coordinates in order -/

/-- The coordinates of a shape are the whole coordinates inside it. -/
theorem mem_coordinatesIn {dims coord : List Nat} :
    coord ∈ coordinatesIn dims ↔ coord.length = dims.length ∧ Inside dims coord := by
  induction dims generalizing coord with
  | nil => cases coord <;> simp [coordinatesIn]
  | cons d dims ih =>
      cases coord with
      | nil => simp [coordinatesIn]
      | cons i coord =>
          simp only [coordinatesIn, List.mem_flatMap, List.mem_range, List.mem_map,
            List.cons.injEq, inside_cons, List.length_cons, Nat.add_right_cancel_iff]
          constructor
          · rintro ⟨j, hj, c, hc, rfl, rfl⟩
            exact ⟨(ih.mp hc).1, hj, (ih.mp hc).2⟩
          · rintro ⟨hlen, hi, hin⟩
            exact ⟨i, hi, coord, ih.mpr ⟨hlen, hin⟩, rfl, rfl⟩

/-- A coordinate has an entry along every axis. -/
theorem exists_entry {dims coord : List Nat} {axis d : Nat} (hc : coord ∈ coordinatesIn dims)
    (hd : dims[axis]? = some d) : ∃ x < d, coord[axis]? = some x := by
  obtain ⟨hlen, hin⟩ := mem_coordinatesIn.mp hc
  obtain ⟨haxis, rfl⟩ := List.getElem?_eq_some_iff.mp hd
  have hcoord : axis < coord.length := hlen ▸ haxis
  refine ⟨coord[axis], ?_, List.getElem?_eq_getElem hcoord⟩
  exact hin.zip_lt (coord[axis], dims[axis])
    (List.mem_iff_getElem.mpr ⟨axis, by rw [List.length_zip]; omega, by simp⟩)

/-- Counting blocks of equal size one after the other counts up to the end. -/
theorem range_flatMap_block (count size : Nat) :
    ((List.range count).flatMap fun i => (List.range size).map (i * size + ·))
      = List.range (count * size) := by
  induction count with
  | zero => simp
  | succ count ih =>
      rw [List.range_succ, List.flatMap_append, ih, Nat.succ_mul, List.range_add]
      simp

/-- Walking the coordinates in row-major order meets every position in order. -/
theorem map_flat_coordinatesIn (dims : List Nat) :
    (coordinatesIn dims).map (flat dims) = List.range (volume dims) := by
  induction dims with
  | nil => rfl
  | cons d dims ih =>
      have hrow (i : Nat) : ((coordinatesIn dims).map (i :: ·)).map (flat (d :: dims))
          = (List.range (volume dims)).map (i * volume dims + ·) := by
        rw [← ih, List.map_map, List.map_map]
        exact List.map_congr_left fun c _ => flat_cons d i dims c
      simp only [coordinatesIn, List.map_flatMap, hrow]
      exact range_flatMap_block d (volume dims)

/-- Every position of the buffer belongs to a coordinate. -/
theorem exists_coordinate {dims : List Nat} {k : Nat} (hk : k < volume dims) :
    ∃ coord, coord.length = dims.length ∧ Inside dims coord ∧ flat dims coord = k := by
  have hmem : k ∈ (coordinatesIn dims).map (flat dims) := by
    rw [map_flat_coordinatesIn]
    exact List.mem_range.mpr hk
  obtain ⟨coord, hcoord, rfl⟩ := List.mem_map.mp hmem
  exact ⟨coord, (mem_coordinatesIn.mp hcoord).1, (mem_coordinatesIn.mp hcoord).2, rfl⟩

/-! ### One entry of a coordinate -/

theorem rowMajorStrides_getElem? (dims : List Nat) (axis : Nat) :
    (rowMajorStrides dims)[axis]? =
      dims[axis]?.map fun _ => volume (dims.drop (axis + 1)) := by
  induction dims generalizing axis with
  | nil => rfl
  | cons d dims ih =>
      rw [rowMajorStrides_cons]
      cases axis with
      | zero => rfl
      | succ axis => exact ih axis

/-- In a buffer with an element no extent is zero. -/
theorem volume_drop_pos {dims : List Nat} (h : 0 < volume dims) (axis : Nat) :
    0 < volume (dims.drop axis) := by
  induction dims generalizing axis with
  | nil => simp
  | cons d dims ih =>
      have hrest : 0 < volume dims := Nat.pos_of_mul_pos_left h
      cases axis with
      | zero => exact h
      | succ axis => exact ih hrest axis

/-- In a buffer with an element, coordinates that select one sub-tensor are equal. -/
theorem flat_leading_inj {dims c c' : List Nat} (hpos : 0 < volume dims) (hc : Inside dims c)
    (hc' : Inside dims c') (hlen : c.length = c'.length) (h : flat dims c = flat dims c') :
    c = c' := by
  induction c generalizing dims c' with
  | nil => exact (List.length_eq_zero_iff.mp hlen.symm).symm
  | cons i c ih =>
      obtain ⟨j, c', rfl⟩ := List.exists_cons_of_length_eq_add_one hlen.symm
      cases dims with
      | nil => exact absurd hc (not_inside_empty i c)
      | cons d dims =>
          have hrest : 0 < volume dims := Nat.pos_of_mul_pos_left hpos
          -- what follows the first entry stays below the stride of the first axis
          have hlt {b : List Nat} (hb : Inside dims b) : flat dims b < volume dims :=
            Nat.lt_of_lt_of_le (Nat.lt_add_of_pos_right (volume_drop_pos hrest b.length))
              (flat_add_volume_le hb)
          rw [flat_cons, flat_cons] at h
          have hij : i = j := by
            have hdiv (a : Nat) {b : List Nat} (hb : Inside dims b) :
                (a * volume dims + flat dims b) / volume dims = a := by
              rw [Nat.mul_comm, Nat.mul_add_div hrest, Nat.div_eq_of_lt (hlt hb), Nat.add_zero]
            rw [← hdiv i hc.2, h, hdiv j hc'.2]
          subst hij
          rw [ih hrest hc.2 hc'.2 (Nat.succ.inj hlen) (Nat.add_left_cancel h)]

/-- Every element has an entry along every axis, below the extent of the axis. -/
theorem coordinate_eq_ok {s : Shape} {axis k d : Nat} (hd : s.dims[axis]? = some d)
    (hk : k < s.elemCount) : ∃ c, c < d ∧ s.coordinate axis k = .ok c := by
  have hpos : 0 < volume s.dims := Nat.zero_lt_of_lt hk
  have hstride : (rowMajorStrides s.dims)[axis]? = some (volume (s.dims.drop (axis + 1))) := by
    rw [rowMajorStrides_getElem?, hd]
    rfl
  have hrow : volume (s.dims.drop axis) = d * volume (s.dims.drop (axis + 1)) := by
    obtain ⟨haxis, rfl⟩ := List.getElem?_eq_some_iff.mp hd
    rw [List.drop_eq_getElem_cons haxis, volume_cons]
  have hd0 : 0 < d := by
    have h := volume_drop_pos hpos axis
    rw [hrow] at h
    exact Nat.pos_of_mul_pos_right h
  refine ⟨k / volume (s.dims.drop (axis + 1)) % d, Nat.mod_lt _ hd0, ?_⟩
  have hsub := volume_drop_pos hpos (axis + 1)
  simp only [coordinate, Layout.coordinate, Layout.contiguous, strides, hstride, hd]
  rw [if_neg (by omega)]

end Shape

/-! ### Reading a view -/

namespace View

variable {ε : Type} [Zero ε]

/-- The element at a position; zero outside the buffer. -/
def entry (v : View ε) (k : Nat) : ε := if h : k < v.shape.elemCount then v.data[k] else 0

/-- The element at a coordinate; zero outside the shape. -/
def elem (v : View ε) (coord : List Nat) : ε := v.entry (Shape.flat v.shape.dims coord)

theorem raw_eq (v : View ε) {k : Nat} (hk : k < v.shape.elemCount) :
    v.raw k = .ok (v.entry k) := by
  rw [raw_of_lt v hk, entry, dif_pos hk]

theorem get_eq (v : View ε) {coord : List Nat} (h : Shape.Inside v.shape.dims coord)
    (hlen : coord.length = v.shape.dims.length) : v.get coord = .ok (v.elem coord) := by
  rw [get, Shape.position_eq h, Except.ok_bind]
  exact raw_eq v (Shape.flat_lt h hlen)

/-- Every coordinate of the shape has an element. -/
theorem get_of_mem (v : View ε) {c : List Nat} (hc : c ∈ v.shape.coordinates) :
    v.get c = .ok (v.elem c) :=
  v.get_eq (Shape.mem_coordinatesIn.mp hc).2 (Shape.mem_coordinatesIn.mp hc).1

/-- At the position of a coordinate lies its element. -/
theorem raw_of_mem (v : View ε) {c : List Nat} (hc : c ∈ v.shape.coordinates) :
    v.raw (Shape.flat v.shape.dims c) = .ok (v.elem c) :=
  v.raw_eq (Shape.flat_lt (Shape.mem_coordinatesIn.mp hc).2 (Shape.mem_coordinatesIn.mp hc).1)

/-- Every position of a buffer of this shape is that of a coordinate. -/
theorem exists_elem (ε : Type) [Zero ε] {s : Shape} {k : Nat} (hk : k < s.elemCount) :
    ∃ c ∈ s.coordinates, ∀ x : Vector ε s.elemCount, (View.mk s x).elem c = x[k] := by
  obtain ⟨c, hlen, hin, rfl⟩ := Shape.exists_coordinate hk
  exact ⟨c, Shape.mem_coordinatesIn.mpr ⟨hlen, hin⟩, fun x => by rw [elem, entry, dif_pos hk]⟩

/-- Buffers of one shape with the same element at every coordinate are equal. -/
theorem ext_elem {s : Shape} {x y : Vector ε s.elemCount}
    (h : ∀ c ∈ s.coordinates, (View.mk s x).elem c = (View.mk s y).elem c) : x = y := by
  ext k hk
  obtain ⟨c, hc, helem⟩ := exists_elem ε hk
  rw [← helem x, ← helem y, h c hc]

end View

end TensorProgram
