/-
TensorProgram/Proofs/Kernel/Rearrange.lean

What transposition and concatenation compute, as lists of writes over whole
coordinates.  A transposition writes at every coordinate of the output the
element of the input at the permuted-back coordinate.  A concatenation writes
every element of every block at its coordinate moved by the origin of the block;
the blocks leave no position of the output out.  The way back of either reads
the gradient of the output at the same places.
-/
import Mathlib.Algebra.BigOperators.Ring.List
import TensorProgram.Kernel.Rearrange
import TensorProgram.Proofs.Kernel.Elementwise
import TensorProgram.Proofs.Tensor.Boxes

namespace TensorProgram

variable {α : Type} [Scalar α]

open Context (shapeOf_eq floats_withoutWeight gradFloats_eq updateWeight_fills Deposits
  deposits_updateGrad)
open Run (Fills Performs liftM_check_ok)
open Shape (coordinatesIn flat)

/-! ### Storing by a policy -/

theorem written_of_fills {n : Nat} {f : Run (Vector α n) Unit} {out : Vector α n}
    (h : Fills f out) : written f = .ok out := by
  rw [written, h]

/-- What reports instead of writing is reported under either policy. -/
theorem GradientPolicy.store_report (policy : GradientPolicy)
    {f : (s : Shape) → Run (Vector α s.elemCount) Unit} {s : Shape} {e : Error}
    (h : f s = Run.report e) : policy.store f s = Run.report e := by
  cases policy with
  | replace => exact h
  | accumulate =>
      have hwritten : written (f s) = .error (.error e) := by rw [written, h, Run.report]
      rw [GradientPolicy.store, hwritten]
      rfl

/-- Storing what fills a buffer of zeros coordinate by coordinate performs the
same writes on the gradient. -/
theorem GradientPolicy.performs_store (policy : GradientPolicy)
    {f : (s : Shape) → Run (Vector α s.elemCount) Unit} {s : Shape} {v : List Nat → α}
    (h : Performs overwrite (f s) (coordinatewise s.dims v)) :
    Performs policy.combine (policy.store f s) (coordinatewise s.dims v) := by
  cases policy with
  | replace => exact h
  | accumulate =>
      rw [GradientPolicy.store, written_of_fills h.fills_coordinatewise, Run.liftM_ok, pure_bind]
      have hadd : Performs GradientPolicy.accumulate.combine
          ((View.mk s (filled _ (coordinatewise s.dims v))).addInto s)
          (pointwise s.elemCount (View.mk s (filled _ (coordinatewise s.dims v))).entry) :=
        View.performs_addInto rfl
      rwa [pointwise_filled] at hadd

/-! ### Transposition -/

namespace Transpose

variable (i : Transpose) {c : Context α} {src out : View α} {s : Shape}
  {old : Vector α s.elemCount}

/-- The output of a transposition. -/
theorem forward_eq (hsrc : c.weights[i.src]? = some src.tensor)
    (hdest : c.weights[i.dest]? = some ⟨s, .float old⟩) (hne : i.dest ≠ i.src)
    (hσ : IsPermutation i.shuffle src.shape.rank)
    (hs : s.dims = permuted i.shuffle src.shape.dims) :
    i.forward c = .ok () (c.setWeight i.dest ⟨s, .float (filled _ (coordinatewise s.dims
      fun c => src.elem (permuted (inverseShuffle i.shuffle) c)))⟩) := by
  apply updateWeight_fills hdest
  · rw [floats_withoutWeight hne hsrc, liftM_check_ok, pure_bind]
  · exact (View.performs_transposeInto hσ hs).fills_coordinatewise

/-- The contribution of a transposition: the gradient of the output at the
permuted coordinate. -/
theorem backward_eq (policy : GradientPolicy) {t : Shape} (hne : i.src ≠ i.dest)
    (hgrad : c.HasGrad i.src t) (hout : c.gradOrZeros i.dest = .ok out.tensor)
    (hσ : IsPermutation i.shuffle t.rank) (hs : out.shape.dims = permuted i.shuffle t.dims) :
    i.backward policy c = .ok () (c.deposits policy.combine
      [(i.dest, []), (i.src, coordinatewise t.dims fun c => out.elem (permuted i.shuffle c))]) := by
  have hrank : out.shape.rank = t.rank := by rw [Shape.rank, hs, length_permuted, hσ.1]
  rw [backward, hσ.inversePermutation_eq, liftM_check_ok, pure_bind]
  apply Deposits.backward hout
  apply deposits_updateGrad hne hgrad
  · intro c' _ hgrads
    rw [gradFloats_eq hgrads, liftM_check_ok, pure_bind]
  · apply GradientPolicy.performs_store
    have hinverse : IsPermutation (inverseShuffle i.shuffle) out.shape.rank := by
      rw [hrank]
      exact hσ.inverse
    have hdims : t.dims = permuted (inverseShuffle i.shuffle) out.shape.dims := by
      rw [hs, hσ.permuted_inverse rfl]
    have hback := View.performs_transposeInto hinverse hdims
    rwa [hσ.inverse_inverse] at hback

end Transpose

namespace Concat

/-- The operands, each with the place along the axis where its block begins, the
first at `start`. -/
def layFrom (extent : ValueId → Nat) : List ValueId → Nat → List (ValueId × Nat)
  | [], _ => []
  | id :: ids, start => (id, start) :: layFrom extent ids (start + extent id)

/-- The operand at a place begins behind those before it. -/
theorem getElem?_layFrom (extent : ValueId → Nat) (ids : List ValueId) (start k : Nat) :
    (layFrom extent ids start)[k]?
      = ids[k]?.map fun id => (id, start + ((ids.take k).map extent).sum) := by
  induction ids generalizing start k with
  | nil => rfl
  | cons id ids ih =>
      cases k with
      | zero => simp [layFrom]
      | succ k => simp [layFrom, ih, Nat.add_assoc]

theorem map_fst_layFrom (extent : ValueId → Nat) (ids : List ValueId) (start : Nat) :
    (layFrom extent ids start).map Prod.fst = ids := by
  induction ids generalizing start with
  | nil => rfl
  | cons id ids ih => rw [layFrom, List.map_cons, ih]

section Lay

variable {extent : ValueId → Nat} {ids : List ValueId} {start : Nat}

/-- Blocks end within the sum of their extents. -/
theorem le_of_mem_layFrom {p : ValueId × Nat} (hp : p ∈ layFrom extent ids start) :
    p.1 ∈ ids ∧ p.2 + extent p.1 ≤ start + (ids.map extent).sum := by
  induction ids generalizing start with
  | nil => simp [layFrom] at hp
  | cons id ids ih =>
      rw [List.map_cons, List.sum_cons]
      rcases List.mem_cons.mp hp with rfl | hp
      · exact ⟨by simp, by dsimp only; omega⟩
      · obtain ⟨hmem, hle⟩ := ih hp
        exact ⟨by simp [hmem], by omega⟩

/-- Blocks leave no place out. -/
theorem exists_mem_layFrom {x : Nat} (hstart : start ≤ x) (hx : x < start + (ids.map extent).sum) :
    ∃ p ∈ layFrom extent ids start, p.2 ≤ x ∧ x < p.2 + extent p.1 := by
  induction ids generalizing start with
  | nil =>
      rw [List.map_nil, List.sum_nil] at hx
      omega
  | cons id ids ih =>
      rw [List.map_cons, List.sum_cons] at hx
      by_cases hlt : x < start + extent id
      · exact ⟨(id, start), by simp [layFrom], hstart, hlt⟩
      · have hnext : start + extent id ≤ x := by omega
        obtain ⟨p, hp, h⟩ := ih hnext (by omega)
        exact ⟨p, by simp [layFrom, hp], h⟩

end Lay

variable (i : Concat) {c : Context α} {dest : Shape} {extent : Nat} {V : ValueId → View α}

/-- The extent of a block along the axis. -/
def blockExtent (V : ValueId → View α) (id : ValueId) : Nat := (V id).shape.dims.getD i.dim 0

/-- The operands with the places where their blocks begin. -/
def lay (V : ValueId → View α) : List (ValueId × Nat) := layFrom (i.blockExtent V) i.srcs 0

/-- The operands `V` of a concatenation fill its output. -/
structure Covers (dest : Shape) (V : ValueId → View α) : Prop where
  /-- Each agrees with the output on all other axes. -/
  agrees : ∀ id ∈ i.srcs, (V id).shape.agreesExcept dest i.dim = true
  /-- Along the axis they add up to it. -/
  extent : dest.dims[i.dim]? = some ((i.srcs.map (i.blockExtent V)).sum)

omit [Scalar α] in
/-- Operands of the declared shapes fill the output of a concatenation. -/
theorem covers_of_views {i : Concat} {u : Shape} {shape : ValueId → Shape} {V : ValueId → View α}
    (hV : ∀ id ∈ i.srcs, (V id).shape = shape id)
    (hagrees : ∀ id ∈ i.srcs, (shape id).agreesExcept u i.dim = true)
    (hextent : u.dims[i.dim]? = some ((i.srcs.map fun id => (shape id).dims.getD i.dim 0)).sum) :
    i.Covers u V := by
  have hmap : i.srcs.map (i.blockExtent V) = i.srcs.map fun id => (shape id).dims.getD i.dim 0 :=
    List.map_congr_left fun id hid => by rw [Concat.blockExtent, hV id hid]
  exact ⟨fun id hid => hV id hid ▸ hagrees id hid, by rw [hextent, hmap]⟩

omit [Scalar α] in
/-- The walk that lays the blocks puts one behind the other and ends behind the last. -/
theorem walk_eq (hsrcs : ∀ id ∈ i.srcs, c.shapeOf id = .ok (V id).shape) (hcover : i.Covers dest V)
    {ids : List ValueId} (hids : ∀ id ∈ ids, id ∈ i.srcs) (bs : List (ValueId × List Nat))
    (start : Nat) :
    ids.foldlM (fun (p : List (ValueId × List Nat) × Nat) id => do
      let next ← i.blockEnd dest (← c.shapeOf id) p.2
      return (p.1 ++ [(id, i.origin dest.rank p.2)], next)) (bs, start)
      = (.ok (bs ++ (layFrom (i.blockExtent V) ids start).map
          (fun p => (p.1, i.origin dest.rank p.2)),
        start + (ids.map (i.blockExtent V)).sum) : Except Error _) := by
  induction ids generalizing bs start with
  | nil => simp [layFrom]
  | cons id ids ih =>
      have hid : id ∈ i.srcs := hids id (by simp)
      rw [List.foldlM_cons, hsrcs id hid, Except.ok_bind, blockEnd, if_pos (hcover.agrees id hid),
        Except.ok_bind, Except.pure_eq_ok, Except.ok_bind, ih fun j hj => hids j (by simp [hj])]
      simp [layFrom, blockExtent, Nat.add_assoc]

omit [Scalar α] in
theorem blocks_eq (hdest : c.shapeOf i.dest = .ok dest)
    (hsrcs : ∀ id ∈ i.srcs, c.shapeOf id = .ok (V id).shape) (hcover : i.Covers dest V) :
    i.blocks c = .ok ((i.lay V).map fun p => (p.1, i.origin dest.rank p.2)) := by
  have hdim : dest.dim i.dim = .ok ((i.srcs.map (i.blockExtent V)).sum) := by
    rw [Shape.dim, hcover.extent]
  rw [blocks, hdest, Except.ok_bind, hdim, Except.ok_bind,
    i.walk_eq hsrcs hcover (fun _ h => h) [] 0, Except.ok_bind, List.nil_append, Nat.zero_add]
  exact if_pos rfl

/-- What a concatenation writes. -/
def writes (dest : Shape) (V : ValueId → View α) : List (Nat × α) :=
  (i.lay V).flatMap fun p => (coordinatesIn (V p.1).shape.dims).map fun c =>
    (flat dest.dims (shift i.dim p.2 c), (V p.1).elem c)

variable {i}

omit [Scalar α] in
/-- Along the axis every coordinate of the output falls into a block. -/
theorem exists_block (hcover : i.Covers dest V) {coord : List Nat} (hc : coord ∈ dest.coordinates) :
    ∃ x, coord[i.dim]? = some x ∧ ∃ p ∈ i.lay V, p.2 ≤ x ∧ x < p.2 + i.blockExtent V p.1 := by
  obtain ⟨x, hlt, hx⟩ := Shape.exists_entry hc hcover.extent
  exact ⟨x, hx, exists_mem_layFrom (Nat.zero_le x) (by rwa [Nat.zero_add])⟩

omit [Scalar α] in
/-- A coordinate that falls into a block, moved back by its start, is one of the
operand. -/
theorem back_mem (hcover : i.Covers dest V) {coord : List Nat} (hc : coord ∈ dest.coordinates)
    {x : Nat} (hx : coord[i.dim]? = some x) {p : ValueId × Nat} (hp : p ∈ i.lay V)
    (hle : p.2 ≤ x) (hlt : x < p.2 + i.blockExtent V p.1) :
    coord.set i.dim (x - p.2) ∈ (V p.1).shape.coordinates ∧
      shift i.dim p.2 (coord.set i.dim (x - p.2)) = coord := by
  obtain ⟨hlen, hin⟩ := Shape.mem_coordinatesIn.mp hc
  obtain ⟨hback, hshift⟩ := hin.shift_back hlen hx hle hlt
  have hdims := Shape.dims_of_agreesExcept (hcover.agrees p.1 (le_of_mem_layFrom hp).1)
  refine ⟨Shape.mem_coordinatesIn.mpr ⟨?_, ?_⟩, hshift⟩
  · rw [hdims, List.length_set, List.length_set, hlen]
  · rw [hdims]
    exact hback

variable (i)

/-- A concatenation leaves no position of its output out. -/
theorem mem_fst_writes (hcover : i.Covers dest V) {k : Nat} (hk : k < dest.elemCount) :
    k ∈ (i.writes dest V).map Prod.fst := by
  obtain ⟨coord, hlen, hin, rfl⟩ := Shape.exists_coordinate hk
  have hc : coord ∈ dest.coordinates := Shape.mem_coordinatesIn.mpr ⟨hlen, hin⟩
  obtain ⟨x, hx, p, hp, hle, hlt⟩ := exists_block hcover hc
  obtain ⟨hback, hshift⟩ := back_mem hcover hc hx hp hle hlt
  have hwrite : (flat dest.dims coord, (V p.1).elem (coord.set i.dim (x - p.2))) ∈
      i.writes dest V :=
    List.mem_flatMap.mpr ⟨p, hp, List.mem_map.mpr ⟨_, hback, by rw [hshift]⟩⟩
  exact List.mem_map_of_mem hwrite

/-- A concatenation has as many writes as its output has elements. -/
theorem length_writes (hcover : i.Covers dest V) :
    (i.writes dest V).length = dest.elemCount := by
  obtain ⟨r, hvolume, hset⟩ := Shape.exists_volume_set hcover.extent
  have hblock : ∀ id ∈ i.srcs, Shape.volume (V id).shape.dims = i.blockExtent V id * r := by
    intro id hid
    rw [← hset, blockExtent, ← Shape.dims_of_agreesExcept (hcover.agrees id hid)]
  have hlen : (i.writes dest V).length
      = (((i.lay V).map Prod.fst).map fun id => Shape.volume (V id).shape.dims).sum := by
    rw [writes, List.length_flatMap, List.map_map]
    simp only [List.length_map, Shape.length_coordinatesIn]
    rfl
  rw [hlen, lay, map_fst_layFrom, List.map_congr_left hblock, List.sum_map_mul_right, ← hvolume]
  rfl

/-- A concatenation writes every position of its output once. -/
theorem perm_writes (hcover : i.Covers dest V) :
    ((i.writes dest V).map Prod.fst).Perm (List.range dest.elemCount) :=
  perm_range_of_cover (fun _ hk => i.mem_fst_writes hcover hk)
    (by rw [List.length_map, i.length_writes hcover])

/-- The output of a concatenation. -/
theorem forward_eq (hsrcs : ∀ id ∈ i.srcs, c.weights[id]? = some (V id).tensor)
    {old : Vector α dest.elemCount} (hdest : c.weights[i.dest]? = some ⟨dest, .float old⟩)
    (hne : ∀ id ∈ i.srcs, i.dest ≠ id) (hcover : i.Covers dest V) :
    i.forward c = .ok () (c.setWeight i.dest ⟨dest, .float (filled _ (i.writes dest V))⟩) := by
  have hblocks : i.blocks c = .ok ((i.lay V).map fun p => (p.1, i.origin dest.rank p.2)) :=
    i.blocks_eq (shapeOf_eq hdest) (fun id hid => shapeOf_eq (hsrcs id hid)) hcover
  rw [forward, Run.get_bind_apply, hblocks, liftM_check_ok, pure_bind]
  apply updateWeight_fills hdest rfl
  refine Performs.fills ?_ fun k hk => i.mem_fst_writes hcover hk
  rw [Run.forM_map]
  refine Performs.forM fun p hp => ?_
  obtain ⟨hmem, hle⟩ := le_of_mem_layFrom hp
  dsimp only
  rw [floats_withoutWeight (hne _ hmem) (hsrcs _ hmem), liftM_check_ok, pure_bind]
  exact View.performs_insertInto (Shape.dims_of_agreesExcept (hcover.agrees _ hmem)) hcover.extent
    (by rwa [Nat.zero_add] at hle)

/-- The contributions of a concatenation: to every operand the block of the
output's gradient that it filled. -/
theorem backward_eq (policy : GradientPolicy) {out : View α} {t : Tensor α}
    (hsrcs : ∀ id ∈ i.srcs, c.weights[id]? = some (V id).tensor)
    (hdest : c.weights[i.dest]? = some t) (ht : t.shape = dest)
    (hne : ∀ id ∈ i.srcs, id ≠ i.dest) (hgrads : ∀ id ∈ i.srcs, c.HasGrad id (V id).shape)
    (hcover : i.Covers dest V) (hout : c.gradOrZeros i.dest = .ok out.tensor)
    (houts : out.shape = dest) :
    i.backward policy c = .ok () (c.deposits policy.combine ((i.dest, []) ::
      (i.lay V).map fun p => (p.1, coordinatewise (V p.1).shape.dims
        fun c => out.elem (shift i.dim p.2 c)))) := by
  have hblocks : i.blocks c = .ok ((i.lay V).map fun p => (p.1, i.origin dest.rank p.2)) :=
    i.blocks_eq (ht ▸ shapeOf_eq hdest) (fun id hid => shapeOf_eq (hsrcs id hid)) hcover
  rw [backward, Run.get_bind_apply, hblocks, liftM_check_ok, pure_bind]
  apply Deposits.backward hout
  rw [Run.forM_map, List.map_eq_flatMap]
  refine Deposits.forM fun p hp => ?_
  obtain ⟨hmem, hle⟩ := le_of_mem_layFrom hp
  apply deposits_updateGrad (hne _ hmem) (hgrads _ hmem)
  · intro c' _ hgrad
    rw [gradFloats_eq hgrad, liftM_check_ok, pure_bind]
  · apply GradientPolicy.performs_store
    subst houts
    exact View.performs_extractInto (Shape.dims_of_agreesExcept (hcover.agrees _ hmem))
      hcover.extent (by rwa [Nat.zero_add] at hle)

end Concat

end TensorProgram
