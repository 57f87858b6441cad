/-
TensorProgram/Proofs/Tensor/Block.lean

Moving elements along views, as lists of writes over whole coordinates.  A
transposed view has at a coordinate the element at the permuted-back coordinate
(`View.performs_transposeInto`).  A block that lies along an axis of a larger
shape has every coordinate moved by its start (`shift`).
-/
import TensorProgram.Proofs.Tensor.Layout
import TensorProgram.Shape.Agreement

namespace TensorProgram

variable {α : Type} [Zero α]

open Run (Performs)
open Shape (coordinatesIn flat Inside)

/-! ### A write for every coordinate -/

/-- A write for every coordinate within these extents, in row-major order. -/
def coordinatewise (dims : List Nat) (f : List Nat → α) : List (Nat × α) :=
  (coordinatesIn dims).map fun c => (flat dims c, f c)

omit [Zero α] in
theorem map_fst_coordinatewise (dims : List Nat) (f : List Nat → α) :
    (coordinatewise dims f).map Prod.fst = List.range (Shape.volume dims) := by
  rw [coordinatewise, List.map_map, ← Shape.map_flat_coordinatesIn]
  rfl

omit [Zero α] in
theorem coordinatewise_congr {dims : List Nat} {f g : List Nat → α}
    (h : ∀ c ∈ coordinatesIn dims, f c = g c) : coordinatewise dims f = coordinatewise dims g :=
  List.map_congr_left fun c hc => by rw [h c hc]

/-- Overwriting every coordinate forgets what the buffer held. -/
theorem applyWrites_coordinatewise {s : Shape} (f : List Nat → α) (data : Vector α s.elemCount) :
    applyWrites overwrite (coordinatewise s.dims f) data = filled _ (coordinatewise s.dims f) := by
  ext k hk
  refine getElem_applyWrites_overwrite_congr hk (.inl ?_)
  rw [map_fst_coordinatewise]
  exact List.mem_range.mpr hk

/-- Writing every coordinate fills the buffer. -/
theorem Run.Performs.fills_coordinatewise {s : Shape} {g : Run (Vector α s.elemCount) Unit}
    {f : List Nat → α} (h : Performs overwrite g (coordinatewise s.dims f)) :
    Run.Fills g (filled _ (coordinatewise s.dims f)) := by
  intro data
  rw [h.run, applyWrites_coordinatewise]

/-- Written coordinate by coordinate, every element meets the value for it. -/
theorem View.elem_applyWrites (combine : α → α → α) {s : Shape} (f : List Nat → α)
    (data : Vector α s.elemCount) {c : List Nat} (hc : c ∈ s.coordinates) :
    (View.mk s (applyWrites combine (coordinatewise s.dims f) data)).elem c
      = combine ((View.mk s data).elem c) (f c) := by
  have hnodup : ((coordinatewise s.dims f).map Prod.fst).Nodup := by
    rw [map_fst_coordinatewise]
    exact List.nodup_range
  obtain ⟨hlen, hin⟩ := Shape.mem_coordinatesIn.mp hc
  have hlt : flat s.dims c < s.elemCount := Shape.flat_lt hin hlen
  have hmem : (flat s.dims c, f c) ∈ coordinatewise s.dims f := List.mem_map_of_mem hc
  simp only [elem, entry, dif_pos hlt]
  exact getElem_applyWrites_of_nodup combine hnodup data hmem hlt

/-- Filled coordinate by coordinate, a buffer has at each the value for it. -/
theorem View.elem_filled (s : Shape) (f : List Nat → α) {c : List Nat} (hc : c ∈ s.coordinates) :
    (View.mk s (filled _ (coordinatewise s.dims f))).elem c = f c :=
  elem_applyWrites overwrite f _ hc

/-- A buffer filled with the elements of a view holds those. -/
theorem View.filled_elem (v : View α) : filled _ (coordinatewise v.shape.dims v.elem) = v.data :=
  View.ext_elem fun _ hc => View.elem_filled v.shape v.elem hc

/-- What a buffer holds after it was filled coordinate by coordinate. -/
theorem pointwise_filled (s : Shape) (f : List Nat → α) :
    pointwise s.elemCount (View.mk s (filled _ (coordinatewise s.dims f))).entry
      = coordinatewise s.dims f := by
  show (List.range (Shape.volume s.dims)).map _ = _
  rw [coordinatewise, ← Shape.map_flat_coordinatesIn, List.map_map]
  refine List.map_congr_left fun c hc => ?_
  exact congrArg (Prod.mk _) (View.elem_filled s f hc)

/-! ### Transposition -/

/-- A permuted view permutes extents and strides together. -/
theorem Layout.permute_eq {l : Layout} {σ : List Nat} (hl : l.strides.length = l.rank)
    (hσ : IsPermutation σ l.rank) :
    l.permute σ = .ok ⟨⟨permuted σ l.shape.dims⟩, permuted σ l.strides, l.offset⟩ := by
  have hshape : l.shape.permute σ = .ok ⟨permuted σ l.shape.dims⟩ := Shape.permute_eq hσ
  have hmap : σ.mapM l.stride = .ok (permuted σ l.strides) := by
    refine Outcome.mapM_eq_ok fun a ha => ?_
    have har : a < l.strides.length := hl ▸ hσ.2.1 a ha
    rw [Layout.stride, List.getD_eq_getElem _ _ har]
    simp only [List.getElem?_eq_getElem har]
  rw [Layout.permute, hshape, Outcome.liftM_ok, Except.ok_bind, hmap]
  rfl

/-- A list that does not name every axis once is reported. -/
theorem Layout.permute_report {l : Layout} {σ : List Nat} (hσ : ¬ IsPermutation σ l.rank) :
    l.permute σ = .error (.error (.invalidPermutation σ l.rank)) := by
  rw [Layout.permute, Shape.permute_report hσ, Outcome.liftM_error, Except.error_bind, rank]

theorem Layout.permute_contiguous {s : Shape} {σ : List Nat} (hσ : IsPermutation σ s.rank) :
    (Layout.contiguous s).permute σ
      = .ok ⟨⟨permuted σ s.dims⟩, permuted σ (Shape.rowMajorStrides s.dims), 0⟩ :=
  Layout.permute_eq (Shape.length_rowMajorStrides s.dims) hσ

omit [Zero α] in
/-- A transposition reports before it writes, or shuffle and output fit. -/
theorem View.transposeInto_cases (src : View α) (σ : List Nat) (s : Shape) :
    (∃ e, src.transposeInto σ s = Run.report e) ∨
      IsPermutation σ src.shape.rank ∧ s.dims = permuted σ src.shape.dims := by
  by_cases hσ : IsPermutation σ src.shape.rank
  · rw [transposeInto, Layout.permute_contiguous hσ, Run.liftM_ok, pure_bind]
    by_cases hs : (⟨permuted σ src.shape.dims⟩ : Shape) = s
    · exact .inr ⟨hσ, by rw [← hs]⟩
    · rw [if_neg hs]
      exact .inl ⟨_, rfl⟩
  · have hreport := Layout.permute_report (l := Layout.contiguous src.shape) hσ
    refine .inl ⟨.invalidPermutation σ src.shape.rank, ?_⟩
    rw [transposeInto, hreport]
    rfl

/-- A transposed view has at a coordinate the element at the permuted-back
coordinate. -/
theorem View.performs_transposeInto {src : View α} {σ : List Nat} {s : Shape}
    (hσ : IsPermutation σ src.shape.rank) (hs : s.dims = permuted σ src.shape.dims) :
    Performs overwrite (src.transposeInto σ s)
      (coordinatewise s.dims fun c => src.elem (permuted (inverseShuffle σ) c)) := by
  have hview : (⟨permuted σ src.shape.dims⟩ : Shape) = s := by rw [← hs]
  have hstrides : (Shape.rowMajorStrides src.shape.dims).length = src.shape.rank :=
    Shape.length_rowMajorStrides _
  -- the walk over the permuted strides visits the permuted-back coordinates
  have hindices : Layout.indices ⟨s, permuted σ (Shape.rowMajorStrides src.shape.dims), 0⟩
      = (coordinatesIn s.dims).map
          fun c => flat src.shape.dims (permuted (inverseShuffle σ) c) := by
    rw [Layout.indices_eq]
    refine List.map_congr_left fun c hc => ?_
    have hlen : c.length = src.shape.rank := (Shape.permuted_back_mem hσ hs hc).1
    rw [Nat.zero_add, Layout.displacement_permuted hσ hstrides hlen]
    rfl
  rw [transposeInto, Layout.permute_contiguous hσ, Run.liftM_ok, pure_bind, hview]
  simp only [if_true, hindices]
  refine View.performs_gather (Nat.le_refl _) fun c hc => ?_
  obtain ⟨hlen, hin⟩ := Shape.mem_coordinatesIn.mp (Shape.permuted_back_mem hσ hs hc).2
  exact Shape.flat_lt hin hlen

/-! ### Blocks side by side -/

/-- The coordinate moved by `start` along an axis. -/
def shift : (axis start : Nat) → List Nat → List Nat
  | _, _, [] => []
  | 0, start, x :: coord => (start + x) :: coord
  | axis + 1, start, x :: coord => x :: shift axis start coord

@[simp] theorem length_shift (axis start : Nat) (coord : List Nat) :
    (shift axis start coord).length = coord.length := by
  induction coord generalizing axis with
  | nil => cases axis <;> rfl
  | cons x coord ih =>
      cases axis with
      | zero => rfl
      | succ axis => simp [shift, ih]

/-- Moving is adding the origin of the block. -/
theorem zipWith_origin (axis start : Nat) (coord : List Nat) :
    List.zipWith (· + ·) ((List.replicate coord.length 0).set axis start) coord
      = shift axis start coord := by
  induction coord generalizing axis with
  | nil => cases axis <;> rfl
  | cons x coord ih =>
      cases axis with
      | zero =>
          have hzero : List.zipWith (· + ·) (List.replicate coord.length 0) coord = coord := by
            apply List.ext_getElem
            · simp
            · intro k hk hk'
              simp
          simp [shift, List.replicate_succ, hzero]
      | succ axis => simp [shift, List.replicate_succ, ih]

namespace Shape

variable {dims coord : List Nat} {axis start extent : Nat}

/-- A coordinate whose entry falls into a block, moved back, lies inside the block. -/
theorem Inside.shift_back (h : Inside dims coord) (hlen : coord.length = dims.length)
    {x : Nat} (hx : coord[axis]? = some x) (hstart : start ≤ x) (hend : x < start + extent) :
    Inside (dims.set axis extent) (coord.set axis (x - start)) ∧
      shift axis start (coord.set axis (x - start)) = coord := by
  induction dims generalizing axis coord with
  | nil =>
      obtain rfl := List.length_eq_zero_iff.mp hlen
      simp at hx
  | cons e dims ih =>
      cases coord with
      | nil => simp at hx
      | cons y coord =>
          have hrest : coord.length = dims.length := by simpa using hlen
          cases axis with
          | zero =>
              obtain rfl : y = x := by simpa using hx
              refine ⟨⟨by omega, h.2⟩, ?_⟩
              rw [List.set_cons_zero, shift, Nat.add_sub_cancel' hstart]
          | succ axis =>
              obtain ⟨hin, hshift⟩ := ih h.2 hrest hx
              refine ⟨⟨h.1, hin⟩, ?_⟩
              rw [List.set_cons_succ, shift, hshift]

/-- Along an axis the number of elements grows with the extent. -/
theorem exists_volume_set {dims : List Nat} {axis d : Nat} (h : dims[axis]? = some d) :
    ∃ r, volume dims = d * r ∧ ∀ e, volume (dims.set axis e) = e * r := by
  induction dims generalizing axis with
  | nil => simp at h
  | cons a dims ih =>
      cases axis with
      | zero =>
          obtain rfl : a = d := by simpa using h
          exact ⟨volume dims, volume_cons .., fun e => volume_cons ..⟩
      | succ axis =>
          obtain ⟨r, hr, hset⟩ := ih h
          refine ⟨a * r, ?_, fun e => ?_⟩
          · rw [volume_cons, hr, Nat.mul_left_comm]
          · rw [List.set_cons_succ, volume_cons, hset, Nat.mul_left_comm]

/-- Agreement on all other axes determines the extents up to one. -/
theorem dims_of_agreesExcept {s t : Shape} {axis : Nat} (h : s.agreesExcept t axis = true) :
    s.dims = t.dims.set axis (s.dims.getD axis 0) := by
  simp only [agreesExcept, Bool.and_eq_true, beq_iff_eq, List.all_eq_true, Bool.or_eq_true,
    rank] at h
  obtain ⟨hlen, hall⟩ := h
  apply List.ext_getElem
  · simp [hlen]
  · intro k hk hk'
    rw [List.getElem_set]
    by_cases hax : axis = k
    · subst hax
      rw [if_pos rfl, List.getD_eq_getElem _ _ hk]
    · have hkt : k < t.dims.length := hlen ▸ hk
      have hmem : ((s.dims[k], t.dims[k]), k) ∈ (s.dims.zip t.dims).zipIdx :=
        List.mk_mem_zipIdx_iff_getElem?.mpr (List.getElem?_zip_eq_some.mpr
          ⟨List.getElem?_eq_getElem hk, List.getElem?_eq_getElem hkt⟩)
      rw [if_neg hax]
      rcases hall _ hmem with heq | heq
      · exact absurd heq.symm hax
      · exact heq

end Shape

end TensorProgram
