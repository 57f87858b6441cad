/-
TensorProgram/Proofs/Shape/Permutation.lean

Permutations of axes and their inverses.  `permuted σ xs` has the entries of a list in
the order of `σ`, and `inverseShuffle σ` lists for every axis the place where it
stands.  That is the list that is written place by place
(`Shuffle.getElem?_of_writePlaces`, `IsPermutation.inversePermutation_eq`); it is a
permutation itself and undoes the first one (`IsPermutation.permuted_inverse`).

A list with as many entries as there are axes has room for each once and for nothing
else, so it is enough that no axis is left out (`perm_range_of_cover`) and the scan,
which looks for repeated entries, accepts the lists that count every axis once
(`IsPermutation.iff_count`).

Main statement: `Shuffle.accepts_and_inverts`.
-/
import Mathlib.Data.List.GetD
import Mathlib.Data.List.Nodup
import Mathlib.Data.List.Perm.Subperm
import TensorProgram.Proofs.Run
import TensorProgram.Shape.Permutation

namespace TensorProgram

/-! ### Reordering the entries of a list -/

/-- The list whose entry `i` is entry `σ[i]` of `xs`. -/
def permuted (σ xs : List Nat) : List Nat := σ.map fun a => xs.getD a 0

/-- The shuffle that undoes a shuffle. -/
def inverseShuffle (σ : List Nat) : List Nat := (List.range σ.length).map fun a => σ.idxOf a

/-- A list of as many numbers that leaves none below `n` out is a permutation of
these. -/
theorem perm_range_of_cover {n : Nat} {l : List Nat} (hcover : ∀ k < n, k ∈ l)
    (hlen : l.length = n) : l.Perm (List.range n) := by
  have hsub : List.Subperm (List.range n) l :=
    List.nodup_range.subperm fun k hk => hcover k (List.mem_range.mp hk)
  exact (hsub.perm_of_length_le (by simp [hlen])).symm

@[simp] theorem length_permuted (σ xs : List Nat) : (permuted σ xs).length = σ.length := by
  simp [permuted]

@[simp] theorem length_inverseShuffle (σ : List Nat) :
    (inverseShuffle σ).length = σ.length := by
  simp [inverseShuffle]

/-! ### The places that are written -/

namespace Shuffle

/-- Where the writing of places ends, every entry of the shuffle has its place, and
all else is as it was before. -/
theorem getElem?_of_writePlaces {shuffle inverse out : List Nat} {place : Nat}
    (hnodup : shuffle.Nodup) (h : writePlaces inverse place shuffle = .ok out) (a : Nat) :
    out[a]? = if a ∈ shuffle then some (place + shuffle.idxOf a) else inverse[a]? := by
  induction shuffle generalizing inverse place with
  | nil => simp [← Except.ok.inj h]
  | cons axis rest ih =>
      obtain ⟨hnot, hnodup⟩ := List.nodup_cons.mp hnodup
      rw [writePlaces] at h
      split_ifs at h with hlt
      rw [ih hnodup h]
      by_cases ha : a = axis
      · -- this entry is written now, and no later one writes over it
        subst ha
        simp [hnot, hlt]
      · by_cases hmem : a ∈ rest
        · simp only [hmem, List.mem_cons, or_true, if_true, List.idxOf_cons_ne _ (Ne.symm ha)]
          congr 1
          omega
        · simp [hmem, ha, List.getElem?_set_ne (Ne.symm ha)]

end Shuffle

/-! ### Permutations and their inverses -/

namespace IsPermutation

variable {σ : List Nat} {r : Nat}

theorem perm_range (h : IsPermutation σ r) : σ.Perm (List.range r) := by
  obtain ⟨hlen, hlt, hnodup⟩ := h
  have hsub : List.Subperm σ (List.range r) :=
    hnodup.subperm fun a ha => List.mem_range.mpr (hlt a ha)
  exact hsub.perm_of_length_le (by simp [hlen])

theorem mem (h : IsPermutation σ r) {a : Nat} (ha : a < r) : a ∈ σ :=
  h.perm_range.mem_iff.mpr (List.mem_range.mpr ha)

/-- As many entries as there are axes, with each axis among them once, make a
permutation. -/
theorem iff_count : IsPermutation σ r ↔ σ.length = r ∧ ∀ a < r, σ.count a = 1 := by
  constructor
  · intro h
    exact ⟨h.1, fun a ha => List.count_eq_one_of_mem h.2.2 (h.mem ha)⟩
  · rintro ⟨hlen, hcount⟩
    -- no axis is left out, and there is no place for a second one or for anything else
    have hperm : σ.Perm (List.range r) :=
      perm_range_of_cover (fun a ha => List.count_pos_iff.mp (by rw [hcount a ha]; decide)) hlen
    exact ⟨hlen, fun a ha => List.mem_range.mp (hperm.mem_iff.mp ha),
      hperm.nodup_iff.mpr List.nodup_range⟩

theorem idxOf_lt (h : IsPermutation σ r) {a : Nat} (ha : a < r) : σ.idxOf a < r := by
  have hlt := List.idxOf_lt_length_of_mem (h.mem ha)
  rwa [h.1] at hlt

theorem getD_idxOf (h : IsPermutation σ r) {a : Nat} (ha : a < r) : σ.getD (σ.idxOf a) 0 = a := by
  have hlt := List.idxOf_lt_length_of_mem (h.mem ha)
  rw [List.getD_eq_getElem _ _ hlt, List.getElem_idxOf]

theorem idxOf_getD (h : IsPermutation σ r) {k : Nat} (hk : k < r) : σ.idxOf (σ.getD k 0) = k := by
  rw [List.getD_eq_getElem _ _ (h.1 ▸ hk)]
  exact h.2.2.idxOf_getElem k _

theorem getD_lt (h : IsPermutation σ r) {k : Nat} (hk : k < r) : σ.getD k 0 < r := by
  rw [List.getD_eq_getElem _ _ (h.1 ▸ hk)]
  exact h.2.1 _ (List.getElem_mem _)

theorem getD_permuted (h : IsPermutation σ r) (xs : List Nat) {k : Nat} (hk : k < r) :
    (permuted σ xs).getD k 0 = xs.getD (σ.getD k 0) 0 := by
  have hk' : k < σ.length := h.1 ▸ hk
  rw [permuted, List.getD_eq_getElem _ _ (by simpa using hk'), List.getElem_map,
    List.getD_eq_getElem _ _ hk']

theorem getD_inverse (h : IsPermutation σ r) {a : Nat} (ha : a < r) :
    (inverseShuffle σ).getD a 0 = σ.idxOf a := by
  rw [inverseShuffle, List.getD_eq_getElem _ _ (by simpa [h.1] using ha), List.getElem_map,
    List.getElem_range]

/-- The inverse of a permutation is one. -/
theorem inverse (h : IsPermutation σ r) : IsPermutation (inverseShuffle σ) r := by
  refine ⟨by simp [h.1], fun b hb => ?_, ?_⟩
  · obtain ⟨a, ha, rfl⟩ := List.mem_map.mp hb
    exact h.idxOf_lt (h.1 ▸ List.mem_range.mp ha)
  · refine (List.nodup_map_iff_inj_on List.nodup_range).mpr fun a ha b hb hab => ?_
    have ha' : a < r := h.1 ▸ List.mem_range.mp ha
    have hb' : b < r := h.1 ▸ List.mem_range.mp hb
    rw [← h.getD_idxOf ha', ← h.getD_idxOf hb', hab]

/-- Reordering and reordering back. -/
theorem permuted_inverse (h : IsPermutation σ r) {xs : List Nat} (hxs : xs.length = r) :
    permuted (inverseShuffle σ) (permuted σ xs) = xs := by
  apply List.ext_getElem
  · simp [h.1, hxs]
  · intro a ha ha'
    have har : a < r := hxs ▸ ha'
    rw [← List.getD_eq_getElem _ 0 ha, ← List.getD_eq_getElem _ 0 ha', h.inverse.getD_permuted _ har,
      h.getD_inverse har, h.getD_permuted _ (h.idxOf_lt har), h.getD_idxOf har]

/-- Reordering back and reordering. -/
theorem permuted_inverse' (h : IsPermutation σ r) {xs : List Nat} (hxs : xs.length = r) :
    permuted σ (permuted (inverseShuffle σ) xs) = xs := by
  apply List.ext_getElem
  · simp [h.1, hxs]
  · intro k hk hk'
    have hkr : k < r := hxs ▸ hk'
    rw [← List.getD_eq_getElem _ 0 hk, ← List.getD_eq_getElem _ 0 hk', h.getD_permuted _ hkr,
      h.inverse.getD_permuted _ (h.getD_lt hkr), h.getD_inverse (h.getD_lt hkr), h.idxOf_getD hkr]

/-- Undoing the inverse is the permutation itself. -/
theorem inverse_inverse (h : IsPermutation σ r) : inverseShuffle (inverseShuffle σ) = σ := by
  apply List.ext_getElem
  · simp
  · intro k hk hk'
    have hkr : k < r := h.1 ▸ hk'
    rw [← List.getD_eq_getElem _ 0 hk, ← List.getD_eq_getElem _ 0 hk', h.inverse.getD_inverse hkr]
    have hidx := h.inverse.idxOf_getD (h.getD_lt hkr)
    rwa [h.getD_inverse (h.getD_lt hkr), h.idxOf_getD hkr] at hidx

/-- The shuffle that undoes a permutation is the one that is computed. -/
theorem inversePermutation_eq (h : IsPermutation σ r) :
    inversePermutation σ = .ok (inverseShuffle σ) := by
  obtain ⟨out, hout⟩ :
      ∃ out, Shuffle.writePlaces (List.replicate σ.length 0) 0 σ = .ok out :=
    Shuffle.exists_writePlaces (by simpa [h.1] using h.2.1) 0
  have hplaces : out = inverseShuffle σ := by
    apply List.ext_getElem?
    intro a
    rw [Shuffle.getElem?_of_writePlaces h.2.2 hout, inverseShuffle]
    by_cases ha : a < r
    · -- all axes are written over
      simp [h.mem ha, h.1, ha]
    · have hnot : a ∉ σ := fun hmem => ha (h.2.1 a hmem)
      simp [hnot, h.1, ha]
  have hself : IsPermutation σ σ.length := by rwa [h.1]
  rw [inversePermutation]
  refine Outcome.faultless_of_eq_ok ?_ _
  rw [Shuffle.invert_of_isPermutation hself, hout, hplaces]

/-- Reordering twice is reordering by the shuffle of shuffles. -/
theorem permuted_permuted {τ : List Nat} (h : IsPermutation σ r) (hτ : IsPermutation τ r)
    (xs : List Nat) : permuted (permuted τ σ) xs = permuted τ (permuted σ xs) := by
  rw [permuted, permuted, permuted, List.map_map]
  exact List.map_congr_left fun a ha => (h.getD_permuted xs (hτ.2.1 a ha)).symm

/-- One permutation after another is one. -/
theorem comp {τ : List Nat} (h : IsPermutation σ r) (hτ : IsPermutation τ r) :
    IsPermutation (permuted τ σ) r := by
  refine ⟨by rw [length_permuted, hτ.1], fun b hb => ?_, ?_⟩
  · obtain ⟨a, ha, rfl⟩ := List.mem_map.mp hb
    exact h.getD_lt (hτ.2.1 a ha)
  · refine (List.nodup_map_iff_inj_on hτ.2.2).mpr fun a ha b hb hab => ?_
    rw [← h.idxOf_getD (hτ.2.1 a ha), ← h.idxOf_getD (hτ.2.1 b hb), hab]

/-- Reordering back by the shuffle of shuffles is reordering back twice. -/
theorem permuted_inverse_comp {τ : List Nat} (h : IsPermutation σ r) (hτ : IsPermutation τ r)
    {xs : List Nat} (hxs : xs.length = r) :
    permuted (inverseShuffle (permuted τ σ)) xs
      = permuted (inverseShuffle σ) (permuted (inverseShuffle τ) xs) := by
  have hmid : (permuted (inverseShuffle τ) xs).length = r := by simp [hτ.1]
  have hback : (permuted (inverseShuffle σ) (permuted (inverseShuffle τ) xs)).length = r := by
    simp [h.1]
  -- forth again by both, the right side gives `xs`
  have hforth : permuted (permuted τ σ)
      (permuted (inverseShuffle σ) (permuted (inverseShuffle τ) xs)) = xs := by
    rw [h.permuted_permuted hτ, h.permuted_inverse' hmid, hτ.permuted_inverse' hxs]
  have hundo := (h.comp hτ).permuted_inverse hback
  rwa [hforth] at hundo

/-- The entry of a permutation and of its inverse at a place, and where they lead back. -/
theorem inverse_leads_back (h : IsPermutation σ r) {k : Nat} (hk : k < r) :
    ∃ a, σ[k]? = some a ∧ (inverseShuffle σ)[a]? = some k := by
  have hkσ : k < σ.length := h.1 ▸ hk
  have ha : σ[k] < σ.length := h.1 ▸ h.2.1 _ (List.getElem_mem hkσ)
  refine ⟨σ[k], List.getElem?_eq_getElem hkσ, ?_⟩
  rw [inverseShuffle, List.getElem?_map, List.getElem?_range ha, Option.map_some,
    h.2.2.idxOf_getElem k hkσ]

end IsPermutation

/-! ### Calls -/

theorem checkPermutation_eq_ok_iff {σ : List Nat} {r : Nat} :
    checkPermutation σ r = .ok () ↔ IsPermutation σ r := by
  rw [checkPermutation_eq]
  split_ifs with h
  · exact ⟨fun _ => h, fun _ => rfl⟩
  · exact ⟨nofun, fun h' => absurd h' h⟩

/-- The extents of a shape in the order of a permutation. -/
theorem Shape.permute_eq {s : Shape} {σ : List Nat} (h : IsPermutation σ s.rank) :
    s.permute σ = .ok ⟨permuted σ s.dims⟩ := by
  rw [permute, checkPermutation_eq_ok_iff.mpr h]
  rfl

/-- A list that does not name every axis once is reported. -/
theorem Shape.permute_report {s : Shape} {σ : List Nat} (h : ¬ IsPermutation σ s.rank) :
    s.permute σ = .error (.invalidPermutation σ s.rank) := by
  rw [permute, checkPermutation_eq, if_neg h]
  rfl

/-- **Permutations and their inverses.**  The check faults at no list, and it accepts
those with as many entries as axes and every axis among them once.  The inverse of such
a list is another; each leads back from where the other leads, the inverse of the inverse
is the list itself, and a shape permuted by both is the shape as it was. -/
theorem Shuffle.accepts_and_inverts :
    (∀ (σ : List Nat) (r : Nat), check σ r ≠ .error .fault ∧
      (checkPermutation σ r = .ok () ↔ σ.length = r ∧ ∀ a < r, σ.count a = 1)) ∧
    ∀ (σ : List Nat) (r : Nat), checkPermutation σ r = .ok () →
      ∃ inv, inversePermutation σ = .ok inv ∧ checkPermutation inv r = .ok () ∧
        (∀ i < r, (∃ a, σ[i]? = some a ∧ inv[a]? = some i) ∧
          ∃ a, inv[i]? = some a ∧ σ[a]? = some i) ∧
        inversePermutation inv = .ok σ ∧
        ∀ d : Shape, d.rank = r → ∃ t, d.permute σ = .ok t ∧ t.permute inv = .ok d := by
  refine ⟨fun σ r => ⟨check_ne_fault σ r, checkPermutation_eq_ok_iff.trans IsPermutation.iff_count⟩,
    fun σ r hcheck => ?_⟩
  have hσ : IsPermutation σ r := checkPermutation_eq_ok_iff.mp hcheck
  have hback : inverseShuffle (inverseShuffle σ) = σ := hσ.inverse_inverse
  refine ⟨inverseShuffle σ, hσ.inversePermutation_eq, checkPermutation_eq_ok_iff.mpr hσ.inverse,
    fun i hi => ⟨hσ.inverse_leads_back hi, ?_⟩, ?_, fun d hd => ?_⟩
  · simpa only [hback] using hσ.inverse.inverse_leads_back hi
  · rw [hσ.inverse.inversePermutation_eq, hback]
  · have hforth : IsPermutation σ d.rank := by rwa [hd]
    have hturned : IsPermutation (inverseShuffle σ) (Shape.mk (permuted σ d.dims)).rank := by
      rw [Shape.rank, length_permuted, hσ.1]
      exact hσ.inverse
    refine ⟨_, Shape.permute_eq hforth, ?_⟩
    rw [Shape.permute_eq hturned, hforth.permuted_inverse rfl]

/-- A turn of three axes, which is not its own inverse, and a list of three axes with one
of them twice. -/
theorem Shuffle.accepts_and_inverts_turn :
    checkPermutation [2, 0, 1] 3 = .ok () ∧ checkPermutation [2, 0, 2] 3 ≠ .ok () ∧
    ∃ inv, inversePermutation [2, 0, 1] = .ok inv ∧ inv = [1, 2, 0] ∧
      inversePermutation inv = .ok [2, 0, 1] ∧ Shape.rank ⟨[2, 3, 4]⟩ = 3 ∧
      ∃ t, Shape.permute ⟨[2, 3, 4]⟩ [2, 0, 1] = .ok t ∧ t.permute inv = .ok ⟨[2, 3, 4]⟩ := by
  obtain ⟨haccepts, hinverts⟩ := Shuffle.accepts_and_inverts
  have hcheck : checkPermutation [2, 0, 1] 3 = .ok () := rfl
  obtain ⟨inv, hinv, -, -, hback, hshape⟩ := hinverts [2, 0, 1] 3 hcheck
  refine ⟨hcheck, fun h => ?_, inv, hinv, (Except.ok.inj hinv).symm, hback, rfl,
    hshape ⟨[2, 3, 4]⟩ rfl⟩
  exact absurd (((haccepts [2, 0, 2] 3).2.mp h).2 1 (by decide)) (by decide)

end TensorProgram
