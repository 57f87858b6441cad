/-
TensorProgram/Proofs/Kernel/Concatenation.lean

A concatenation is a partition.  Along its axis the operands lie one behind the
other, each from the sum of the extents before it (`Concat.startOf`), so the
coordinates of the output fall into exactly one block each
(`Concat.eq_of_mem_blocks`), and the windows of the blocks are walked over every
position of the output once (`Concat.exists_windows`).

The way back reads the same blocks.  Where the gradient of the output is the
output itself, every visit finds the operand again; an operand that is laid out
several times is visited as often, which replaces its gradient by one and the
same value and accumulates that value as many times
(`Context.grads_deposits_map`).
-/
import TensorProgram.Proofs.Scalar.Exact
import TensorProgram.Proofs.Kernel.Atomicity

namespace TensorProgram

variable {α : Type} [Scalar α]

open Shape (coordinatesIn flat)

/-! ### Visiting values several times -/

/-- Every visit to a value makes the same deposit, so its gradient goes through
as many rounds as the value is listed. -/
theorem Context.grads_deposits_map {c : Context α} {combine : α → α → α} {id : ValueId}
    {ids : List ValueId} {s : Shape} {data : Vector α s.elemCount}
    (w : ValueId → List (Nat × α)) (h : c.gradOrZeros id = .ok ⟨s, .float data⟩)
    (hid : id ∈ ids) :
    (c.deposits combine (ids.map fun j => (j, w j))).grads[id]?
      = some ⟨s, .float ((applyWrites combine (w id))^[ids.count id] data)⟩ := by
  induction ids generalizing c data with
  | nil => cases hid
  | cons j ids ih =>
      rw [List.map_cons, deposits_cons]
      by_cases hj : j = id
      · subst hj
        have hbound : (c.deposit combine (j, w j)).grads[j]? = some _ := grads_deposit_self (w j) h
        rw [List.count_cons_self, Function.iterate_succ_apply]
        -- the induction hypothesis asks for a visit among the rest, so the last one is apart
        by_cases hrest : j ∈ ids
        · exact ih (gradOrZeros_of_grad hbound) hrest
        · rw [List.count_eq_zero_of_not_mem hrest, grads_deposits_of_ne, hbound]
          · rfl
          · rintro d hd rfl
            obtain ⟨k, hk, rfl⟩ := List.mem_map.mp hd
            exact hrest hk
      · rw [List.count_cons_of_ne hj]
        exact ih ((gradOrZeros_deposit_of_ne hj).trans h) (by simpa [Ne.symm hj] using hid)

/-- Repeated overwriting leaves what was written. -/
theorem iterate_overwrite {v : View α} (data : Vector α v.shape.elemCount) {n : Nat} (hn : n ≠ 0) :
    (applyWrites overwrite (coordinatewise v.shape.dims v.elem))^[n] data = v.data := by
  obtain ⟨m, rfl⟩ := Nat.exists_eq_succ_of_ne_zero hn
  rw [Function.iterate_succ_apply', applyWrites_coordinatewise, View.filled_elem]

/-- Repeated accumulation adds as many multiples. -/
theorem getElem_iterate_accumulate {K : Type} [ExactScalar K] {v : View K}
    (data : Vector K v.shape.elemCount) (n : Nat) {k : Nat} (hk : k < v.shape.elemCount) :
    ((applyWrites accumulate (coordinatewise v.shape.dims v.elem))^[n] data)[k]
      = data[k] + n * v.data[k] := by
  obtain ⟨c, hc, helem⟩ := View.exists_elem K hk
  rw [← helem, ← helem, ← helem]
  induction n with
  | zero => simp
  | succ n ih =>
      rw [Function.iterate_succ_apply', View.elem_applyWrites accumulate _ _ hc, ih, accumulate]
      push_cast
      ring

namespace Concat

variable {i : Concat} {c c' : Context α} {dest : Shape} {V : ValueId → View α}

/-! ### Which block a coordinate falls into -/

/-- Where the block of the operand at place `k` begins: behind the extents of the
operands before it. -/
def startOf (i : Concat) (V : ValueId → View α) (k : Nat) : Nat :=
  ((i.srcs.take k).map (i.blockExtent V)).sum

omit [Scalar α] in
/-- The blocks are those of the operands, each at its place. -/
theorem mem_lay_iff {p : ValueId × Nat} :
    p ∈ i.lay V ↔ ∃ k : Nat, i.srcs[k]? = some p.1 ∧ i.startOf V k = p.2 := by
  rw [List.mem_iff_getElem?]
  refine exists_congr fun k => ?_
  rw [lay, getElem?_layFrom, startOf]
  rcases i.srcs[k]? with - | id
  · simp
  · simp [Prod.ext_iff]

omit [Scalar α] in
/-- A block ends before the later ones begin. -/
theorem startOf_add_le {j k : Nat} {id : ValueId} (hj : i.srcs[j]? = some id) (hjk : j < k) :
    i.startOf V j + i.blockExtent V id ≤ i.startOf V k := by
  have hnext : i.startOf V j + i.blockExtent V id = i.startOf V (j + 1) := by
    rw [startOf, startOf, List.take_add_one, hj, List.map_append, List.sum_append]
    simp
  obtain ⟨d, rfl⟩ := Nat.exists_eq_add_of_le (Nat.succ_le_of_lt hjk)
  rw [hnext, startOf, startOf, List.take_add (i := j + 1), List.map_append, List.sum_append]
  exact Nat.le_add_right _ _

omit [Scalar α] in
/-- Two blocks with an entry along the axis in common are one. -/
theorem eq_of_mem_blocks {j k x : Nat} {id id' : ValueId} (hk : i.srcs[k]? = some id)
    (hj : i.srcs[j]? = some id') (hlek : i.startOf V k ≤ x)
    (hltk : x < i.startOf V k + i.blockExtent V id) (hlej : i.startOf V j ≤ x)
    (hltj : x < i.startOf V j + i.blockExtent V id') : j = k := by
  rcases Nat.lt_trichotomy j k with hlt | heq | hgt
  · have hend := startOf_add_le (V := V) hj hlt
    omega
  · exact heq
  · have hend := startOf_add_le (V := V) hk hgt
    omega

/-- Every write of a concatenation stays. -/
theorem elem_of_mem_writes (hcover : i.Covers dest V) {coord : List Nat} {a : α}
    (hwrite : (flat dest.dims coord, a) ∈ i.writes dest V) :
    (View.mk dest (filled _ (i.writes dest V))).elem coord = a := by
  have hperm := i.perm_writes hcover
  have hpos : flat dest.dims coord < dest.elemCount :=
    List.mem_range.mp (hperm.mem_iff.mp (List.mem_map_of_mem hwrite))
  exact View.entry_filled (hperm.nodup_iff.mpr List.nodup_range) hwrite hpos

/-- An element of the output is the one of its block. -/
theorem elem_filled (hcover : i.Covers dest V) {coord : List Nat} (hc : coord ∈ dest.coordinates)
    {x : Nat} (hx : coord[i.dim]? = some x) {p : ValueId × Nat} (hp : p ∈ i.lay V)
    (hle : p.2 ≤ x) (hlt : x < p.2 + i.blockExtent V p.1) :
    (View.mk dest (filled _ (i.writes dest V))).elem coord
      = (V p.1).elem (coord.set i.dim (x - p.2)) := by
  obtain ⟨hback, hshift⟩ := back_mem hcover hc hx hp hle hlt
  apply elem_of_mem_writes hcover
  exact List.mem_flatMap.mpr ⟨p, hp, List.mem_map.mpr ⟨_, hback, by rw [hshift]⟩⟩

/-- An element of a block is found again in the output. -/
theorem elem_shift (hcover : i.Covers dest V) {p : ValueId × Nat} (hp : p ∈ i.lay V)
    {coord : List Nat} (hc : coord ∈ (V p.1).shape.coordinates) :
    (View.mk dest (filled _ (i.writes dest V))).elem (shift i.dim p.2 coord)
      = (V p.1).elem coord :=
  elem_of_mem_writes hcover (List.mem_flatMap.mpr ⟨p, hp, List.mem_map_of_mem hc⟩)

omit [Scalar α] in
/-- The window of a block is walked over the coordinates of the operand, each
moved by the start of the block. -/
theorem exists_window (hcover : i.Covers dest V) {p : ValueId × Nat} (hp : p ∈ i.lay V) :
    ∃ view, (Layout.contiguous dest).window (V p.1).shape (i.origin dest.rank p.2) = .ok view ∧
      view.indices = (coordinatesIn (V p.1).shape.dims).map
        fun c => flat dest.dims (shift i.dim p.2 c) := by
  obtain ⟨hmem, hend⟩ := le_of_mem_layFrom hp
  have hdims := Shape.dims_of_agreesExcept (hcover.agrees _ hmem)
  have hroom := Shape.hasRoom_origin hdims hcover.extent (by rwa [Nat.zero_add] at hend)
  obtain ⟨view, hview, -, hindices⟩ := Layout.exists_window hroom
  refine ⟨view, hview, ?_⟩
  rw [hindices]
  exact List.map_congr_left fun c hc => congrArg _ (zipWith_replicate_set hc hroom.rank)

/-- The windows of the blocks are walked over every position of the output once. -/
theorem exists_windows (hcover : i.Covers dest V) :
    ∃ views, (((i.lay V).map fun p => (p.1, i.origin dest.rank p.2)).mapM fun b =>
        (Layout.contiguous dest).window (V b.1).shape b.2) = .ok views ∧
      (views.flatMap Layout.indices).Perm (List.range dest.elemCount) := by
  have hwindow : ∀ p : ValueId × Nat, ∃ view, p ∈ i.lay V →
      (Layout.contiguous dest).window (V p.1).shape (i.origin dest.rank p.2) = .ok view ∧
        view.indices = (coordinatesIn (V p.1).shape.dims).map
          fun c => flat dest.dims (shift i.dim p.2 c) := by
    intro p
    -- a layout is chosen for every pair, for those of no block an arbitrary one
    by_cases hp : p ∈ i.lay V
    · obtain ⟨view, hview⟩ := exists_window hcover hp
      exact ⟨view, fun _ => hview⟩
    · exact ⟨Layout.contiguous dest, fun hmem => absurd hmem hp⟩
  choose view hview using hwindow
  refine ⟨(i.lay V).map view, ?_, ?_⟩
  · rw [List.mapM_map]
    exact Outcome.mapM_eq_ok fun p hp => (hview p hp).1
  · have hwalk : ((i.lay V).map view).flatMap Layout.indices
        = (i.writes dest V).map Prod.fst := by
      rw [List.flatMap_map, writes, List.map_flatMap]
      refine List.flatMap_congr fun p hp => ?_
      rw [(hview p hp).2, List.map_map]
      rfl
    rw [hwalk]
    exact i.perm_writes hcover

/-- What a concatenation that succeeds has found and left. -/
theorem of_forward_ok (hrun : i.forward c = .ok () c') :
    ∃ (old : View α) (V : ValueId → View α), c.weights[i.dest]? = some old.tensor ∧
      (∀ id ∈ i.srcs, c.weights[id]? = some (V id).tensor) ∧ (∀ id ∈ i.srcs, i.dest ≠ id) ∧
      i.Covers old.shape V ∧
      i.blocks c = .ok ((i.lay V).map fun p => (p.1, i.origin old.shape.rank p.2)) ∧
      c' = c.setWeight i.dest
        (View.mk old.shape (filled _ (i.writes old.shape V))).tensor := by
  have hopened := hrun
  rw [forward, Run.get_bind_apply] at hopened
  obtain ⟨blocks, hblocks, hupdate⟩ := Run.exists_of_check_ok hopened
  obtain ⟨dest, shape, hdest, hsrcs, hcover, rfl⟩ := covers_of_blocks hblocks
  obtain ⟨t, t', ht, hinner, -⟩ := Context.of_updateWeight_ok hupdate
  obtain ⟨s, old, new, rfl, hloop, -⟩ := Tensor.of_onFloats_ok hinner
  obtain rfl : s = dest := Context.shape_eq hdest ht
  rw [Run.forM_map] at hloop
  -- every operand was looked up while the output was out
  have hfound : ∀ id ∈ i.srcs, i.dest ≠ id ∧
      ∃ v : View α, c.weights[id]? = some v.tensor ∧ v.shape = (shape id).shape := by
    intro id hid
    rw [← map_fst_layFrom (i.blockExtent shape) i.srcs 0] at hid
    obtain ⟨p, hp, rfl⟩ := List.mem_map.mp hid
    obtain ⟨_, _, hvisit⟩ := Run.exists_of_forM_ok hloop p hp
    obtain ⟨v, hv, -⟩ := Run.exists_of_check_ok hvisit
    obtain ⟨hne, hv⟩ := Context.weights_of_floats_without hv
    exact ⟨hne, v, hv, Context.shape_eq (hsrcs _ (le_of_mem_layFrom hp).1) hv⟩
  obtain ⟨V, hV⟩ := Context.exists_views fun id hid => (hfound id hid).2
  have hcover : i.Covers s V :=
    covers_of_views (fun id hid => (hV id hid).2) hcover.agrees hcover.extent
  have hne : ∀ id ∈ i.srcs, i.dest ≠ id := fun id hid => (hfound id hid).1
  refine ⟨⟨s, old⟩, V, ht, fun id hid => (hV id hid).1, hne, hcover, ?_, ?_⟩
  · exact i.blocks_eq hdest (fun id hid => Context.shapeOf_eq (hV id hid).1) hcover
  · rw [i.forward_eq (fun id hid => (hV id hid).1) ht hne hcover] at hrun
    exact (EStateM.Result.ok.inj hrun).2.symm

/-! ### The way back from the output itself -/

/-- Where the gradient of the output is the output, every operand receives itself,
once for every time it is laid out. -/
theorem backward_of_filled (policy : GradientPolicy) (hcover : i.Covers dest V) {b : Context α}
    (hsrcs : ∀ id ∈ i.srcs, b.weights[id]? = some (V id).tensor)
    (hne : ∀ id ∈ i.srcs, i.dest ≠ id)
    (hdest : b.weights[i.dest]? = some (View.mk dest (filled _ (i.writes dest V))).tensor)
    (hgrad : b.grads[i.dest]? = some (View.mk dest (filled _ (i.writes dest V))).tensor)
    (hgrads : ∀ id ∈ i.srcs, b.HasGrad id (V id).shape) :
    ∃ r, i.backward policy b = .ok () r ∧ ∀ id ∈ i.srcs,
      ∀ old : Vector α (V id).shape.elemCount, b.gradOrZeros id = .ok ⟨(V id).shape, .float old⟩ →
        r.grads[id]? = some ⟨(V id).shape, .float ((applyWrites policy.combine
          (coordinatewise (V id).shape.dims (V id).elem))^[i.srcs.count id] old)⟩ := by
  have hrun := i.backward_eq policy hsrcs hdest rfl (fun id hid => (hne id hid).symm) hgrads hcover
    (Context.gradOrZeros_of_grad hgrad) rfl
  have hdeposits : ((i.lay V).map fun p => ((p.1, coordinatewise (V p.1).shape.dims fun c =>
        (View.mk dest (filled _ (i.writes dest V))).elem (shift i.dim p.2 c)) : Deposit α))
      = i.srcs.map fun id => (id, coordinatewise (V id).shape.dims (V id).elem) := by
    rw [← map_fst_layFrom (i.blockExtent V) i.srcs 0, List.map_map]
    refine List.map_congr_left fun p hp => ?_
    rw [coordinatewise_congr fun c hc => elem_shift hcover hp hc]
    rfl
  rw [hdeposits] at hrun
  refine ⟨_, hrun, fun id hid old hold => ?_⟩
  rw [Context.deposits_cons]
  exact Context.grads_deposits_map (fun j => coordinatewise (V j).shape.dims (V j).elem)
    ((Context.gradOrZeros_deposit_of_ne (hne id hid)).trans hold) hid

/-- **A concatenation is a partition of its output.**  After a concatenation that
succeeds, the windows of its blocks have been walked over every position of the
output once, and every coordinate falls into the block of exactly one operand and
has the element found there.  The way back from the output as its own gradient then
succeeds; it replaces the gradient of every operand by the operand, and adds the
operand, computed exactly, as often as it is laid out. -/
theorem partitions (hrun : i.forward c = .ok () c') :
    ∃ (dest : View α) (V : ValueId → View α) (blocks : List (ValueId × List Nat))
      (views : List Layout), c' = c.setWeight i.dest dest.tensor ∧
      (∀ id ∈ i.srcs, c.weights[id]? = some (V id).tensor) ∧
      i.blocks c = .ok blocks ∧
      (blocks.mapM fun b => (Layout.contiguous dest.shape).window (V b.1).shape b.2)
        = .ok views ∧
      (views.flatMap Layout.indices).Perm (List.range dest.shape.elemCount) ∧
      (∀ coord ∈ dest.shape.coordinates, ∃ k id x, i.srcs[k]? = some id ∧
        coord[i.dim]? = some x ∧ i.startOf V k ≤ x ∧ x < i.startOf V k + i.blockExtent V id ∧
        (∀ j id', i.srcs[j]? = some id' → i.startOf V j ≤ x →
          x < i.startOf V j + i.blockExtent V id' → j = k) ∧
        ∃ a, dest.get coord = .ok a ∧
          (V id).get (coord.set i.dim (x - i.startOf V k)) = .ok a) ∧
      ∀ b : Context α, b.weights = c'.weights → b.grads[i.dest]? = some dest.tensor →
        (∀ id ∈ i.srcs, b.HasGrad id (V id).shape) →
        (∃ r, i.backward .replace b = .ok () r ∧
          ∀ id ∈ i.srcs, r.grads[id]? = some (V id).tensor) ∧
        ∃ r, i.backward .accumulate b = .ok () r ∧ (Scalar.Exact α → ∀ id ∈ i.srcs,
          ∃ old new : Vector α (V id).shape.elemCount,
            b.gradOrZeros id = .ok (View.mk (V id).shape old).tensor ∧
            r.grads[id]? = some (View.mk (V id).shape new).tensor ∧
            ∀ k (hk : k < (V id).shape.elemCount),
              new[k] = old[k] + Scalar.ofNat (i.srcs.count id) * (V id).data[k]) := by
  obtain ⟨old, V, hold, hsrcs, hne, hcover, hblocks, rfl⟩ := of_forward_ok hrun
  obtain ⟨views, hviews, hperm⟩ := exists_windows hcover
  refine ⟨⟨old.shape, filled _ (i.writes old.shape V)⟩, V, _, views, rfl, hsrcs, hblocks, hviews,
    hperm, fun coord hc => ?_, fun b hb hgrad hgrads => ?_⟩
  · obtain ⟨x, hx, p, hp, hle, hlt⟩ := exists_block hcover hc
    obtain ⟨k, hk, hstart⟩ := mem_lay_iff.mp hp
    rw [← hstart] at hle hlt
    refine ⟨k, p.1, x, hk, hx, hle, hlt,
      fun j id' hj hlej hltj => eq_of_mem_blocks hk hj hle hlt hlej hltj, _,
      View.get_of_mem ⟨old.shape, _⟩ hc, ?_⟩
    rw [hstart] at hle hlt ⊢
    rw [elem_filled hcover hc hx hp hle hlt,
      View.get_of_mem (V p.1) (back_mem hcover hc hx hp hle hlt).1]
  · have hdest : b.weights[i.dest]?
        = some (View.mk old.shape (filled _ (i.writes old.shape V))).tensor := by
      rw [hb, Context.weights_setWeight_self]
    -- the output is no operand, so the operands are as before the concatenation
    have hread : ∀ id ∈ i.srcs, b.weights[id]? = some (V id).tensor := fun id hid => by
      rw [hb, Context.weights_setWeight_of_ne (hne id hid), hsrcs id hid]
    have hback (policy : GradientPolicy) :=
      backward_of_filled policy hcover hread hne hdest hgrad hgrads
    constructor
    · obtain ⟨r, hr, hleft⟩ := hback .replace
      refine ⟨r, hr, fun id hid => ?_⟩
      obtain ⟨data, hdata⟩ := hgrads id hid
      -- an operand is laid out at least once, and replacing twice is replacing once
      have hcount : i.srcs.count id ≠ 0 := (List.count_pos_iff.mpr hid).ne'
      rw [hleft id hid data hdata]
      exact congrArg (fun d => some (Tensor.mk (V id).shape (.float d)))
        (iterate_overwrite data hcount)
    · obtain ⟨r, hr, hleft⟩ := hback .accumulate
      refine ⟨r, hr, fun ⟨exact, hexact⟩ id hid => ?_⟩
      subst hexact
      obtain ⟨data, hdata⟩ := hgrads id hid
      refine ⟨data, (applyWrites accumulate (coordinatewise (V id).shape.dims
        (V id).elem))^[i.srcs.count id] data, hdata, hleft id hid data hdata, fun k hk => ?_⟩
      rw [ExactScalar.ofNat_eq]
      exact getElem_iterate_accumulate data _ hk

/-- Rational numbers, with zero for what would leave them. -/
local instance rationals : ExactScalar ℚ :=
  exactScalars (fun _ => 0) (fun _ => 0) (fun _ _ => 0) fun _ _ _ => 0

/-- A column, no column, two columns and the first one again. -/
def columns : Concat := ⟨0, [1, 2, 3, 1], 1⟩

/-- The columns, room for their table, and a gradient for the first. -/
def fourColumns : Context ℚ :=
  ((((({} : Context ℚ).setWeight 0 ⟨⟨[2, 4]⟩, .float #v[0, 0, 0, 0, 0, 0, 0, 0]⟩).setWeight 1
    ⟨⟨[2, 1]⟩, .float #v[8, 2]⟩).setWeight 2 ⟨⟨[2, 0]⟩, .float #v[]⟩).setWeight 3
    ⟨⟨[2, 2]⟩, .float #v[3, 4, 5, 6]⟩).setGrad 1 ⟨⟨[2, 1]⟩, .float #v[50, 30]⟩

/-- Their table. -/
def table : View ℚ := ⟨⟨[2, 4]⟩, #v[8, 3, 4, 8, 2, 5, 6, 2]⟩

theorem partitions_fourColumns :
    ∃ (c' replaced accumulated : Context ℚ) (new : Vector ℚ 2),
      columns.forward fourColumns = .ok () c' ∧ c'.weights[(0 : ValueId)]? = some table.tensor ∧
      columns.backward .replace (c'.setGrad 0 table.tensor) = .ok () replaced ∧
      replaced.grads[(3 : ValueId)]? = fourColumns.weights[(3 : ValueId)]? ∧
      columns.backward .accumulate (c'.setGrad 0 table.tensor) = .ok () accumulated ∧
      accumulated.grads[(1 : ValueId)]? = some ⟨⟨[2, 1]⟩, .float new⟩ ∧
      new[0] = 50 + 2 * 8 ∧ new[1] = 30 + 2 * 2 := by
  obtain ⟨c', hrun, hfilled⟩ : ∃ c', columns.forward fourColumns = .ok () c' ∧
      c'.weights[(0 : ValueId)]? = some table.tensor := ⟨_, rfl, rfl⟩
  obtain ⟨dest, V, blocks, views, rfl, hsrcs, -, -, -, -, hback⟩ := partitions hrun
  have hself : (fourColumns.setWeight columns.dest dest.tensor).weights[(0 : ValueId)]?
      = some dest.tensor := Context.weights_setWeight_self
  obtain rfl : dest = table :=
    View.tensor_inj (Option.some.inj (hself.symm.trans hfilled))
  have hfirst : ⟨⟨[2, 1]⟩, #v[8, 2]⟩ = V 1 :=
    Except.ok.inj (Context.floats_eq (hsrcs 1 (by decide)))
  have hnone : ⟨⟨[2, 0]⟩, #v[]⟩ = V 2 :=
    Except.ok.inj (Context.floats_eq (hsrcs 2 (by decide)))
  have hsecond : ⟨⟨[2, 2]⟩, #v[3, 4, 5, 6]⟩ = V 3 :=
    Except.ok.inj (Context.floats_eq (hsrcs 3 (by decide)))
  let filled := (fourColumns.setWeight columns.dest table.tensor).setGrad 0 table.tensor
  have hgrads : ∀ id ∈ columns.srcs, filled.HasGrad id (V id).shape := by
    intro id hid
    obtain rfl | rfl | rfl | rfl : id = 1 ∨ id = 2 ∨ id = 3 ∨ id = 1 := by simpa [columns] using hid
    · rw [← hfirst]
      exact ⟨#v[50, 30], rfl⟩
    · rw [← hnone]
      exact ⟨_, rfl⟩
    · rw [← hsecond]
      exact ⟨_, rfl⟩
    · rw [← hfirst]
      exact ⟨#v[50, 30], rfl⟩
  obtain ⟨⟨replaced, hreplaced, hsame⟩, accumulated, haccumulated, hsum⟩ :=
    hback filled rfl Context.grads_setGrad_self hgrads
  have hadded := hsum Scalar.exact 1 (by decide)
  rw [← hfirst] at hadded
  obtain ⟨old, new, hold, hnew, hmultiples⟩ := hadded
  have hbound : filled.gradOrZeros 1 = .ok (View.mk ⟨[2, 1]⟩ #v[50, 30]).tensor := rfl
  obtain rfl : #v[50, 30] = old := Tensor.float_inj (Except.ok.inj (hbound.symm.trans hold))
  refine ⟨_, replaced, accumulated, new, hrun, hfilled, hreplaced, ?_, haccumulated, hnew,
    hmultiples 0 (by decide), hmultiples 1 (by decide)⟩
  rw [hsame 3 (by decide), hsrcs 3 (by decide)]

end Concat

end TensorProgram
