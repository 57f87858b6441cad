/-
TensorProgram/Shape/Permutation.lean

Permutations of axes.  A shuffle of rank `r` lists every axis `0 … r-1` exactly
once; it reads as "axis `i` of the result is axis `shuffle[i]` of the source".
The inverse shuffle sends axis `shuffle[i]` back to `i`.

A list is looked through once, with a mark for every axis that was met
(`Shuffle.scan`), and the inverse is written entry by entry, each at the axis that
it names (`Shuffle.writePlaces`).  Both index a list by an entry of the shuffle and
would fault outside of it.  They never do, and so the two calls made of them,
`checkPermutation` and `inversePermutation`, answer or report.
-/
import TensorProgram.Failure

namespace TensorProgram

/-- A shuffle of rank `r` has `r` entries, all below `r` and none repeated. -/
def IsPermutation (shuffle : List Nat) (rank : Nat) : Prop :=
  shuffle.length = rank ∧ (∀ i ∈ shuffle, i < rank) ∧ shuffle.Nodup

instance (shuffle : List Nat) (rank : Nat) : Decidable (IsPermutation shuffle rank) :=
  inferInstanceAs (Decidable (_ ∧ _ ∧ _))

namespace Shuffle

variable {rank : Nat} {shuffle : List Nat}

/-! ### The check -/

/-- Look at the entries of a list in order and mark each axis in `seen`.  The first
entry that is no axis, or an axis with a mark, ends the scan with `false`. -/
def scan (rank : Nat) : (seen : List Bool) → (shuffle : List Nat) → Outcome Bool
  | _, [] => .ok true
  | seen, axis :: rest =>
      if rank ≤ axis then .ok false
      else match seen[axis]? with
        | none => .error .fault
        | some true => .ok false
        | some false => scan rank (seen.set axis true) rest

/-- Look through a list of the right length, with no axis marked at first, and
report a list that is no shuffle. -/
def check (shuffle : List Nat) (rank : Nat) : Outcome Unit := do
  let valid ← if shuffle.length = rank then scan rank (List.replicate rank false) shuffle
    else .ok false
  if valid then .ok () else .error (.error (.invalidPermutation shuffle rank))

/-- To find an axis without a mark and mark it is to find it different from all
axes to come. -/
theorem unmarked_cons_iff {seen : List Bool} {axis : Nat} (hmark : seen[axis]? = some false)
    (rest : List Nat) :
    ((∀ a ∈ axis :: rest, seen[a]? = some false) ∧ (axis :: rest).Nodup) ↔
      (∀ a ∈ rest, (seen.set axis true)[a]? = some false) ∧ rest.Nodup := by
  have hlt : axis < seen.length := (List.getElem?_eq_some_iff.mp hmark).1
  have hset (a : Nat) : (seen.set axis true)[a]? = some false ↔ axis ≠ a ∧ seen[a]? = some false := by
    by_cases ha : axis = a
    · subst ha
      simp [List.getElem?_set_self hlt]
    · simp [List.getElem?_set_ne ha, ha]
  simp only [List.forall_mem_cons, List.nodup_cons, hset, hmark, true_and]
  constructor
  · rintro ⟨hrest, hnot, hnodup⟩
    exact ⟨fun a ha => ⟨fun heq => hnot (heq ▸ ha), hrest a ha⟩, hnodup⟩
  · rintro ⟨hrest, hnodup⟩
    exact ⟨fun a ha => (hrest a ha).2, fun hmem => (hrest axis hmem).1 rfl, hnodup⟩

/-- With a mark for every axis the scan looks at none outside, and it accepts the
lists of different axes without a mark. -/
theorem scan_eq {seen : List Bool} (hseen : seen.length = rank) (shuffle : List Nat) :
    scan rank seen shuffle
      = .ok (decide ((∀ a ∈ shuffle, seen[a]? = some false) ∧ shuffle.Nodup)) := by
  induction shuffle generalizing seen with
  | nil => simp [scan]
  | cons axis rest ih =>
      rw [scan]
      by_cases haxis : rank ≤ axis
      · have hnone : seen[axis]? = none := List.getElem?_eq_none (hseen ▸ haxis)
        simp [haxis, hnone]
      · have hlt : axis < seen.length := by omega
        rw [if_neg haxis]
        rcases hmark : seen[axis]? with _ | _ | _
        · exact absurd hmark (by simp [hlt])
        · rw [decide_eq_decide.mpr (unmarked_cons_iff hmark rest)]
          exact ih (by rw [List.length_set, hseen])
        · simp [hmark]

/-- The check accepts the shuffles of the rank, and reports every other list. -/
theorem check_eq (shuffle : List Nat) (rank : Nat) :
    check shuffle rank = if IsPermutation shuffle rank then .ok ()
      else .error (.error (.invalidPermutation shuffle rank)) := by
  have hunmarked (a : Nat) : (List.replicate rank false)[a]? = some false ↔ a < rank := by
    simp [List.getElem?_replicate]
  rw [check, scan_eq (by simp)]
  by_cases hlen : shuffle.length = rank
  · simp only [hunmarked, hlen, if_true, IsPermutation, true_and]
    show (if decide _ = true then _ else _) = _
    simp only [decide_eq_true_eq]
  · rw [if_neg hlen, if_neg fun h => hlen h.1]
    rfl

theorem check_ne_fault (shuffle : List Nat) (rank : Nat) : check shuffle rank ≠ .error .fault := by
  rw [check_eq]
  split
  · nofun
  · nofun

end Shuffle

/-- Accept the shuffles of rank `rank` and no other list. -/
def checkPermutation (shuffle : List Nat) (rank : Nat) : Except Error Unit :=
  Outcome.faultless (Shuffle.check shuffle rank) (Shuffle.check_ne_fault shuffle rank)

/-- The check decides whether a list is a shuffle. -/
theorem checkPermutation_eq (shuffle : List Nat) (rank : Nat) :
    checkPermutation shuffle rank = if IsPermutation shuffle rank then .ok ()
      else .error (.invalidPermutation shuffle rank) := by
  have hcheck := Shuffle.check_eq shuffle rank
  by_cases h : IsPermutation shuffle rank
  · rw [if_pos h] at hcheck ⊢
    exact Outcome.faultless_of_eq_ok hcheck _
  · rw [if_neg h] at hcheck ⊢
    exact Outcome.faultless_of_eq_error hcheck _

namespace Shuffle

/-! ### The inverse -/

/-- Write the place of every entry at the axis that the entry names, from `place`
on. -/
def writePlaces : (inverse : List Nat) → (place : Nat) → (shuffle : List Nat) →
    Outcome (List Nat)
  | inverse, _, [] => .ok inverse
  | inverse, place, axis :: rest =>
      if axis < inverse.length then writePlaces (inverse.set axis place) (place + 1) rest
      else .error .fault

/-- Check a list and write the place of every entry into a list of zeros. -/
def invert (shuffle : List Nat) : Outcome (List Nat) := do
  checkPermutation shuffle shuffle.length
  writePlaces (List.replicate shuffle.length 0) 0 shuffle

/-- Entries that are axes are written. -/
theorem exists_writePlaces {inverse : List Nat} (h : ∀ a ∈ shuffle, a < inverse.length)
    (place : Nat) : ∃ out, writePlaces inverse place shuffle = .ok out := by
  induction shuffle generalizing inverse place with
  | nil => exact ⟨inverse, rfl⟩
  | cons axis rest ih =>
      rw [writePlaces, if_pos (h axis (by simp))]
      exact ih (fun a ha => by rw [List.length_set]; exact h a (by simp [ha])) _

theorem invert_of_isPermutation (h : IsPermutation shuffle shuffle.length) :
    invert shuffle = writePlaces (List.replicate shuffle.length 0) 0 shuffle := by
  rw [invert, checkPermutation_eq, if_pos h]
  rfl

theorem invert_of_not_isPermutation (h : ¬ IsPermutation shuffle shuffle.length) :
    invert shuffle = .error (.error (.invalidPermutation shuffle shuffle.length)) := by
  rw [invert, checkPermutation_eq, if_neg h]
  rfl

theorem invert_ne_fault (shuffle : List Nat) : invert shuffle ≠ .error .fault := by
  by_cases h : IsPermutation shuffle shuffle.length
  · obtain ⟨out, hout⟩ : ∃ out, writePlaces (List.replicate shuffle.length 0) 0 shuffle = .ok out :=
      exists_writePlaces (by simpa using h.2.1) 0
    rw [invert_of_isPermutation h, hout]
    nofun
  · rw [invert_of_not_isPermutation h]
    nofun

end Shuffle

/-- The inverse of a shuffle: at the axis that entry `i` names stands `i`. -/
def inversePermutation (shuffle : List Nat) : Except Error (List Nat) :=
  Outcome.faultless (Shuffle.invert shuffle) (Shuffle.invert_ne_fault shuffle)

/-- The shape whose axis `i` is axis `shuffle[i]` of `s`. -/
def Shape.permute (s : Shape) (shuffle : List Nat) : Except Error Shape := do
  checkPermutation shuffle s.rank
  return ⟨shuffle.map fun i => s.dims.getD i 0⟩

end TensorProgram
