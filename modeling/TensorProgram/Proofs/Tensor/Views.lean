/-
TensorProgram/Proofs/Tensor/Views.lean

Views never alias and never leave their buffer.  A view is what a chain of
permutations and windows makes of the contiguous layout of a shape
(`Layout.ViewOf`).  What the chain keeps is that the layout embeds into the
buffer: it has a stride for every axis, every whole coordinate has a position in
the buffer and no two coordinates have the same one (`Layout.Embeds`).

Each of the two calls relates the positions of the new view to those of the old
one.  A permutation places a coordinate where the permuted-back coordinate was
(`Layout.place_permute`), a window where the moved coordinate was
(`Layout.place_window`).  Both maps of coordinates stay inside the old view and
are injective, so the calls keep the embedding, and what the walk of any view
meets follows from it.
-/
import TensorProgram.Proofs.Tensor.Block

namespace TensorProgram

open Shape (coordinatesIn Inside)

namespace Shape

/-- There is room for a block at `offset`: block and offset have the rank of the
outer shape, and along every axis the block ends within the outer extent. -/
structure HasRoom (outer inner : Shape) (offset : List Nat) : Prop where
  rank : inner.rank = outer.rank
  length : offset.length = outer.rank
  le : ∀ k < outer.rank, offset.getD k 0 + inner.dims.getD k 0 ≤ outer.dims.getD k 0

/-- Along every axis the end of a block at `offset` is a word of 64 bits. -/
def EndsInWords (inner : Shape) (offset : List Nat) : Prop :=
  ∀ p ∈ inner.dims.zip offset, p.2 + p.1 < 2 ^ 64

instance (inner : Shape) (offset : List Nat) : Decidable (inner.EndsInWords offset) :=
  inferInstanceAs (Decidable (∀ p ∈ _, _))

/-- Ends of blocks within the outer extents, axis by axis. -/
theorem forall_zip_iff {inner offset dims : List Nat} (hinner : inner.length = dims.length)
    (hoffset : offset.length = dims.length) :
    (∀ p ∈ (inner.zip offset).zip dims, p.1.2 + p.1.1 ≤ p.2) ↔
      ∀ k < dims.length, offset.getD k 0 + inner.getD k 0 ≤ dims.getD k 0 := by
  induction dims generalizing inner offset with
  | nil => simp
  | cons d dims ih =>
      match inner, offset, hinner, hoffset with
      | e :: inner, o :: offset, hinner, hoffset =>
          simp only [List.zip_cons_cons, List.forall_mem_cons]
          rw [ih (by simpa using hinner) (by simpa using hoffset)]
          constructor
          · rintro ⟨hfirst, hrest⟩ k hk
            cases k with
            | zero => exact hfirst
            | succ k => exact hrest k (by simpa using hk)
          · intro h
            exact ⟨h 0 (by simp), fun k hk => h (k + 1) (by simpa using hk)⟩

/-- A coordinate of a block that fits at `offset`, moved there, lies inside. -/
theorem Inside.moved {dims inner offset coord : List Nat} (hin : Inside inner coord)
    (hinner : inner.length = dims.length) (hoffset : offset.length = dims.length)
    (hfit : ∀ p ∈ (inner.zip offset).zip dims, p.1.2 + p.1.1 ≤ p.2) :
    Inside dims (List.zipWith (· + ·) offset coord) := by
  induction dims generalizing inner offset coord with
  | nil =>
      obtain rfl := List.length_eq_zero_iff.mp hoffset
      exact inside_nil _
  | cons d dims ih =>
      match inner, offset, coord, hin with
      | _ :: _, _ :: _, [], _ => exact inside_nil _
      | e :: inner, o :: offset, x :: coord, hin =>
          simp only [List.zip_cons_cons, List.forall_mem_cons] at hfit
          refine ⟨Nat.lt_of_lt_of_le (Nat.add_lt_add_left hin.1 o) hfit.1, ?_⟩
          exact ih hin.2 (by simpa using hinner) (by simpa using hoffset) hfit.2

/-- A coordinate of a block that for which there is room, moved there. -/
theorem moved_mem {outer inner : Shape} {offset c : List Nat} (hroom : outer.HasRoom inner offset)
    (hc : c ∈ inner.coordinates) : List.zipWith (· + ·) offset c ∈ outer.coordinates := by
  obtain ⟨hlen, hin⟩ := mem_coordinatesIn.mp hc
  obtain ⟨hinner, hoffset, hend⟩ := hroom
  refine mem_coordinatesIn.mpr
    ⟨?_, hin.moved hinner hoffset ((forall_zip_iff hinner hoffset).mpr hend)⟩
  rw [List.length_zipWith, hlen]
  simp only [Shape.rank] at hinner hoffset ⊢
  omega

end Shape

namespace Layout

variable {s inner : Shape} {l v : Layout} {shuffle offset c c' : List Nat} {n : Nat}

/-! ### Positions of whole coordinates -/

/-- The position of a whole coordinate in the buffer. -/
def place (l : Layout) (c : List Nat) : Nat := l.offset + displacement l.strides c

/-- A layout that gives each of its coordinates a position of its own in a
buffer of `n` elements. -/
structure Embeds (l : Layout) (n : Nat) : Prop where
  strided : l.strides.length = l.rank
  place_lt : ∀ c ∈ l.shape.coordinates, l.place c < n
  place_inj : ∀ c ∈ l.shape.coordinates, ∀ c' ∈ l.shape.coordinates, l.place c = l.place c' → c = c'

theorem flatIndex_eq (hl : l.strides.length = l.rank) (hc : c ∈ l.shape.coordinates) :
    l.flatIndex c = .ok (l.place c) := by
  obtain ⟨hlen, hin⟩ := Shape.mem_coordinatesIn.mp hc
  have hrank : c.length = l.rank := hlen
  rw [flatIndex, if_pos ⟨Nat.le_of_eq hrank, by rw [hrank, hl], hin.zip_lt⟩]
  rfl

theorem embeds_contiguous (s : Shape) : (contiguous s).Embeds s.elemCount where
  strided := Shape.length_rowMajorStrides s.dims
  place_lt c hc := by
    obtain ⟨hlen, hin⟩ := Shape.mem_coordinatesIn.mp hc
    rw [place, contiguous, Nat.zero_add]
    exact Shape.flat_lt hin hlen
  place_inj c hc c' hc' h := by
    rw [place, place, contiguous, Nat.zero_add, Nat.zero_add] at h
    exact Shape.flat_injOn hc hc' h

/-! ### Permutations of the axes -/

/-- The view of a permutation that is accepted. -/
theorem of_permute_eq_ok (hl : l.strides.length = l.rank) (h : l.permute shuffle = .ok v) :
    IsPermutation shuffle l.rank ∧
      v = ⟨⟨permuted shuffle l.shape.dims⟩, permuted shuffle l.strides, l.offset⟩ := by
  by_cases hσ : IsPermutation shuffle l.rank
  · rw [permute_eq hl hσ] at h
    exact ⟨hσ, (Except.ok.inj h).symm⟩
  · rw [permute_report hσ] at h
    cases h

theorem permute_ne_fault (hl : l.strides.length = l.rank) (shuffle : List Nat) :
    l.permute shuffle ≠ .error .fault := by
  intro hfault
  by_cases hσ : IsPermutation shuffle l.rank
  · rw [permute_eq hl hσ] at hfault
    cases hfault
  · rw [permute_report hσ] at hfault
    cases hfault

/-- A permuted view has at a coordinate the position of the permuted-back
coordinate. -/
theorem place_permute (hl : l.strides.length = l.rank) (h : l.permute shuffle = .ok v)
    (hc : c ∈ v.shape.coordinates) :
    permuted (inverseShuffle shuffle) c ∈ l.shape.coordinates ∧
      v.place c = l.place (permuted (inverseShuffle shuffle) c) := by
  obtain ⟨hσ, rfl⟩ := of_permute_eq_ok hl h
  obtain ⟨hlen, hback⟩ := Shape.permuted_back_mem hσ rfl hc
  refine ⟨hback, ?_⟩
  rw [place, place, displacement_permuted hσ hl hlen]

theorem Embeds.permute (hl : l.Embeds n) (h : l.permute shuffle = .ok v) : v.Embeds n where
  strided := by
    obtain ⟨-, rfl⟩ := of_permute_eq_ok hl.strided h
    simp [rank, Shape.rank]
  place_lt c hc := by
    obtain ⟨hback, hplace⟩ := place_permute hl.strided h hc
    rw [hplace]
    exact hl.place_lt _ hback
  place_inj c hc c' hc' heq := by
    obtain ⟨hback, hplace⟩ := place_permute hl.strided h hc
    obtain ⟨hback', hplace'⟩ := place_permute hl.strided h hc'
    rw [hplace, hplace'] at heq
    have hsame := hl.place_inj _ hback _ hback' heq
    -- permuting forth again, the two coordinates of the view are the same
    obtain ⟨hσ, rfl⟩ := of_permute_eq_ok hl.strided h
    have hlen {c : List Nat} (hc : c ∈ coordinatesIn (permuted shuffle l.shape.dims)) :
        c.length = l.rank := by
      rw [(Shape.mem_coordinatesIn.mp hc).1, length_permuted, hσ.1]
    rw [← hσ.permuted_inverse' (hlen hc), ← hσ.permuted_inverse' (hlen hc'), hsame]

/-- The coordinate that is permuted back, entry by entry. -/
theorem getElem?_permuted_inverse {r i a : Nat} {coord : List Nat} (hσ : IsPermutation shuffle r)
    (hcoord : coord.length = r) (ha : shuffle[i]? = some a) :
    (permuted (inverseShuffle shuffle) coord)[a]? = coord[i]? := by
  obtain ⟨hi, rfl⟩ := List.getElem?_eq_some_iff.mp ha
  have hir : i < r := hσ.1 ▸ hi
  have har : shuffle[i] < r := hσ.2.1 _ (List.getElem_mem hi)
  have hentry := hσ.inverse.getD_permuted coord har
  rw [hσ.getD_inverse har, hσ.2.2.idxOf_getElem i hi] at hentry
  have hpos : shuffle[i] < (permuted (inverseShuffle shuffle) coord).length := by
    simpa [hσ.1] using har
  have hcoordi : i < coord.length := hcoord ▸ hir
  rw [List.getElem?_eq_getElem hpos, List.getElem?_eq_getElem hcoordi]
  rwa [List.getD_eq_getElem _ _ hpos, List.getD_eq_getElem _ _ hcoordi, ← Option.some_inj]
    at hentry

/-! ### Windows -/

/-- A block for which there is room is accepted: an end only gets smaller as a word. -/
theorem contains_of_hasRoom (hroom : l.shape.HasRoom inner offset) : l.Contains inner offset := by
  refine ⟨hroom.rank, hroom.length, fun p hp => ?_⟩
  have hle := (Shape.forall_zip_iff hroom.rank hroom.length).mpr hroom.le p hp
  rw [← UInt64.ofNat_add, UInt64.toNat_ofNat']
  exact Nat.le_trans (Nat.mod_le _ _) hle

/-- Where its ends are words, there is room for a block that is accepted. -/
theorem hasRoom_of_contains (hwords : inner.EndsInWords offset)
    (hfit : l.Contains inner offset) : l.shape.HasRoom inner offset := by
  obtain ⟨hinner, hoffset, hend⟩ := hfit
  refine ⟨hinner, hoffset, (Shape.forall_zip_iff hinner hoffset).mp fun p hp => ?_⟩
  have hword : p.1.2 + p.1.1 < 2 ^ 64 := hwords p.1 (List.of_mem_zip hp).1
  have hle := hend p hp
  rwa [← UInt64.ofNat_add, UInt64.toNat_ofNat_of_lt' hword] at hle

/-- The first element of a block that has one lies where the block begins. -/
theorem flatIndex_offset (hl : l.strides.length = l.rank) (hroom : l.shape.HasRoom inner offset)
    (hsome : inner.elemCount ≠ 0) : l.flatIndex offset = .ok (l.place offset) := by
  have hzero : List.replicate inner.dims.length 0 ∈ inner.coordinates :=
    Shape.mem_coordinatesIn.mpr
      ⟨List.length_replicate, Shape.inside_replicate_zero (Nat.pos_of_ne_zero hsome)⟩
  have hmoved := Shape.moved_mem hroom hzero
  have hlen : offset.length = inner.dims.length := hroom.length.trans hroom.rank.symm
  have horigin : List.zipWith (· + ·) offset (List.replicate inner.dims.length 0) = offset := by
    apply List.ext_getElem
    · simp [hlen]
    · intro k hk hk'
      simp
  rw [horigin] at hmoved
  exact flatIndex_eq hl hmoved

/-- A window for whose block there is room keeps the strides, and if it holds an
element it begins at its offset. -/
theorem window_of_hasRoom (hl : l.strides.length = l.rank)
    (hroom : l.shape.HasRoom inner offset) :
    ∃ start, l.window inner offset = .ok ⟨inner, l.strides, start⟩ ∧
      (inner.elemCount ≠ 0 → start = l.place offset) := by
  rw [window, if_pos (contains_of_hasRoom hroom)]
  split
  case isTrue hempty => exact ⟨_, rfl, fun hsome => absurd hempty hsome⟩
  case isFalse hsome =>
    rw [flatIndex_offset hl hroom hsome, Except.ok_bind]
    exact ⟨_, rfl, fun _ => rfl⟩

/-- Where the ends of its block are words, a window without room is reported. -/
theorem window_of_not_hasRoom (hwords : inner.EndsInWords offset)
    (hroom : ¬ l.shape.HasRoom inner offset) :
    l.window inner offset = .error (.error (.blockOutOfBounds inner l.shape offset)) := by
  rw [window, if_neg (mt (hasRoom_of_contains hwords) hroom)]

theorem hasRoom_of_window_eq_ok (hwords : inner.EndsInWords offset)
    (h : l.window inner offset = .ok v) : l.shape.HasRoom inner offset := by
  by_contra hroom
  rw [window_of_not_hasRoom hwords hroom] at h
  cases h

theorem of_window_eq_ok (hl : l.strides.length = l.rank) (hroom : l.shape.HasRoom inner offset)
    (h : l.window inner offset = .ok v) : v.shape = inner ∧ v.strides = l.strides ∧
      (inner.elemCount ≠ 0 → v.offset = l.place offset) := by
  obtain ⟨start, hok, hstart⟩ := window_of_hasRoom hl hroom
  rw [hok] at h
  obtain rfl := Except.ok.inj h
  exact ⟨rfl, rfl, hstart⟩

theorem window_ne_fault (hl : l.strides.length = l.rank) (hwords : inner.EndsInWords offset) :
    l.window inner offset ≠ .error .fault := by
  intro hfault
  by_cases hroom : l.shape.HasRoom inner offset
  · obtain ⟨start, hok, -⟩ := window_of_hasRoom hl hroom
    rw [hok] at hfault
    cases hfault
  · rw [window_of_not_hasRoom hwords hroom] at hfault
    cases hfault

/-- A window has at a coordinate the position of the moved coordinate. -/
theorem place_window (hl : l.strides.length = l.rank) (hroom : l.shape.HasRoom inner offset)
    (h : l.window inner offset = .ok v) (hc : c ∈ v.shape.coordinates) :
    List.zipWith (· + ·) offset c ∈ l.shape.coordinates ∧
      v.place c = l.place (List.zipWith (· + ·) offset c) := by
  obtain ⟨hshape, hstrides, hstart⟩ := of_window_eq_ok hl hroom h
  rw [hshape] at hc
  have hsome : inner.elemCount ≠ 0 := by
    intro hempty
    have hnone := Shape.length_coordinatesIn inner.dims
    rw [show Shape.volume inner.dims = 0 from hempty, List.length_eq_zero_iff] at hnone
    rw [Shape.coordinates, hnone] at hc
    cases hc
  have hlen : offset.length = c.length :=
    (hroom.length.trans hroom.rank.symm).trans (Shape.mem_coordinatesIn.mp hc).1.symm
  refine ⟨Shape.moved_mem hroom hc, ?_⟩
  simp only [place] at hstart ⊢
  rw [hstart hsome, hstrides, displacement_add _ hlen, Nat.add_assoc]

theorem Embeds.window (hl : l.Embeds n) (hroom : l.shape.HasRoom inner offset)
    (h : l.window inner offset = .ok v) : v.Embeds n where
  strided := by
    obtain ⟨hshape, hstrides, -⟩ := of_window_eq_ok hl.strided hroom h
    rw [hstrides, hl.strided, rank, rank, hshape, hroom.rank]
  place_lt c hc := by
    obtain ⟨hmoved, hplace⟩ := place_window hl.strided hroom h hc
    rw [hplace]
    exact hl.place_lt _ hmoved
  place_inj c hc c' hc' heq := by
    obtain ⟨hmoved, hplace⟩ := place_window hl.strided hroom h hc
    obtain ⟨hmoved', hplace'⟩ := place_window hl.strided hroom h hc'
    rw [hplace, hplace'] at heq
    have hsame := hl.place_inj _ hmoved _ hmoved' heq
    -- taking the offset away again, the two coordinates of the view are the same
    obtain ⟨hshape, -, -⟩ := of_window_eq_ok hl.strided hroom h
    have hlen {c : List Nat} (hc : c ∈ v.shape.coordinates) : c.length = offset.length := by
      rw [(Shape.mem_coordinatesIn.mp hc).1, hshape]
      exact hroom.rank.trans hroom.length.symm
    apply List.ext_getElem ((hlen hc).trans (hlen hc').symm)
    intro k hk hk'
    have hentry := List.getElem_of_eq hsame (by simpa [hlen hc] using hk)
    rw [List.getElem_zipWith, List.getElem_zipWith] at hentry
    exact Nat.add_left_cancel hentry

/-! ### Walking any view -/

/-- The views of a buffer of shape `s`: its contiguous layout, and what
permutations and windows that are accepted make of a view.  The ends of the blocks are
words. -/
inductive ViewOf (s : Shape) : Layout → Prop
  | contiguous : ViewOf s (contiguous s)
  | permute {l v : Layout} {shuffle : List Nat} :
      ViewOf s l → l.permute shuffle = .ok v → ViewOf s v
  | window {l v : Layout} {inner : Shape} {offset : List Nat} :
      ViewOf s l → inner.EndsInWords offset → l.window inner offset = .ok v → ViewOf s v

theorem ViewOf.embeds (h : ViewOf s l) : l.Embeds s.elemCount := by
  induction h with
  | contiguous => exact embeds_contiguous s
  | permute _ hview ih => exact ih.permute hview
  | window _ hwords hview ih => exact ih.window (hasRoom_of_window_eq_ok hwords hview) hview

/-- The walk of an embedded layout meets positions of the buffer, none twice. -/
theorem Embeds.indices_lt_and_nodup (hl : l.Embeds n) :
    (∀ p ∈ l.indices, p < n) ∧ l.indices.Nodup := by
  rw [indices_eq]
  constructor
  · intro p hp
    obtain ⟨c, hc, rfl⟩ := List.mem_map.mp hp
    exact hl.place_lt c hc
  · exact (Shape.nodup_coordinatesIn l.shape.dims).map_on fun c hc c' hc' =>
      hl.place_inj c hc c' hc'

/-- The walk of an embedded layout asks for the position of every coordinate, in
row-major order. -/
theorem Embeds.map_flatIndex (hl : l.Embeds n) :
    l.shape.coordinates.map l.flatIndex = l.indices.map .ok := by
  rw [indices_eq, List.map_map]
  exact List.map_congr_left fun c hc => flatIndex_eq hl.strided hc

end Layout

end TensorProgram
