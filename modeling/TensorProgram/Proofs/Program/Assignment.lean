/-
TensorProgram/Proofs/Program/Assignment.lean

The form of the programs that a builder constructs.  Values are assigned once:
an activation is allocated by one instruction and written by one, which stands
right after the allocations of all that it overwrites, and the only other values
that are ever written are running statistics, each by the normalization that
owns it.  The builder's list of live activations is what was allocated and not
given up, and no activation is given up twice.

Everything is an induction on the assembly of the builder.  A new block writes
names that no instruction so far uses, so it disturbs no earlier assignment
(`Program.WrittenOnce.append`) and no earlier instruction assigns what is new.

Main statement: every builder has this form, and a layer that does not fit
leaves it as it was (`Builder.assigns_once`).
-/
import TensorProgram.Proofs.Kernel.Frame
import TensorProgram.Proofs.Program.Construction
import TensorProgram.Scalar.Binary32

namespace TensorProgram

variable {α : Type}

/-! ### Instructions -/

namespace Instruction

variable {i : Instruction α} {id : ValueId}

/-- The activation that the instruction gives up. -/
def ended : Instruction α → List ValueId
  | dealloc src => [src]
  | _ => []

/-- Only running statistics are changed in place. -/
theorem update_mem_iff :
    (id, .update) ∈ i.operands ↔ ∃ q, i = .batchNorm q ∧ id ∈ [q.mean, q.var] := by
  cases i <;> simp [operands]

theorem named_of_ended (hid : id ∈ i.ended) : id ∈ i.operands.map Prod.fst := by
  cases i with
  | dealloc src => simpa [ended, operands] using hid
  | _ => cases hid

variable {n : Nat} {outs : List ValueId}

/-- An instruction that extends a program overwrites its outputs, in order. -/
theorem Extends.overwritten_eq (h : i.Extends n outs) : i.overwritten = outs := by
  rw [← h.outputs]
  cases i with
  | pool q =>
      obtain ⟨kind, dest, src, coords, win⟩ := q
      cases kind with
      | max => cases coords <;> simp [overwritten, operands, Instruction.outputs]
      | avg =>
          cases coords with
          | none => simp [overwritten, operands, Instruction.outputs]
          | some coords =>
              -- coordinates that no output has room for would be the output itself, named twice
              have hcoords : coords ∈ outs := h.writes coords (by simp [operands])
              rw [← h.outputs] at hcoords
              obtain rfl : coords = dest := by simpa [Instruction.outputs] using hcoords
              have hcount := h.separate coords (mem_written.mpr (.inl (by simp [operands])))
              simp [operands, List.count_cons] at hcount
  | alloc | dealloc => cases h.works
  | _ => simp [overwritten, operands, Instruction.outputs]

/-- It is no allocation. -/
theorem Extends.ne_alloc (h : i.Extends n outs) : i ≠ .alloc id := by
  rintro rfl
  cases h.works

/-- It gives nothing up. -/
theorem Extends.ended_eq (h : i.Extends n outs) : i.ended = [] := by
  cases i with
  | dealloc => cases h.works
  | _ => rfl

/-- It writes its outputs, and a normalization its running statistics. -/
theorem Extends.mem_written (h : i.Extends n outs) :
    id ∈ i.written ↔ id ∈ outs ∨ ∃ q, i = .batchNorm q ∧ id ∈ [q.mean, q.var] := by
  rw [Instruction.mem_written, ← mem_overwritten, h.overwritten_eq, update_mem_iff]

end Instruction

/-! ### Assignments -/

namespace Program

variable {p q : Program α} {id : ValueId} {rest : List (Instruction α)}

/-- The activations that a program gives up, in order. -/
def ended (p : Program α) : List ValueId := p.instructions.flatMap (·.ended)

/-- The activations of a program, in the order of their declaration. -/
def activations (p : Program α) : List ValueId :=
  (p.values.filter fun v => v.role == .activation).map (·.id)

/-- The value is the running mean or variance of a normalization. -/
def IsStatistic (p : Program α) (id : ValueId) : Prop :=
  ∃ q, .batchNorm q ∈ p.instructions ∧ id ∈ [q.mean, q.var]

/-- One instruction allocates the value, before all others that name it. -/
def AllocatedOnce (p : Program α) (id : ValueId) : Prop :=
  ∃ before after, p.instructions = before ++ .alloc id :: after ∧
    (∀ i ∈ before, id ∉ i.operands.map Prod.fst) ∧ .alloc id ∉ after

/-- One instruction that is no lifecycle instruction writes the value.  It comes
right after the allocations of everything that it overwrites. -/
def WrittenOnce (p : Program α) (id : ValueId) : Prop :=
  ∃ before i after, p.instructions = before ++ i.overwritten.map .alloc ++ i :: after ∧
    i.isLifecycle = false ∧ id ∈ i.written ∧
    ∀ j ∈ before ++ after, j.isLifecycle = false → id ∉ j.written

section Growth

variable {vs us : List (Value α)} {is js : List (Instruction α)} {v : Value α} {ids : List ValueId}
  {i : Instruction α} {n : Nat} {outs : List ValueId}

/-- A weight is no activation. -/
theorem activations_weight (role : v.role = .weight) :
    activations ⟨vs ++ [v], is⟩ = activations ⟨vs, js⟩ := by
  have hnone : [v].filter (fun v => v.role == .activation) = [] := by simp [role]
  rw [activations, List.filter_append, hnone, List.append_nil, activations]

/-- A block declares its activations. -/
theorem activations_block (roles : ∀ u ∈ us, u.role = .activation) :
    activations ⟨vs ++ us, is⟩ = activations ⟨vs, js⟩ ++ us.map (·.id) := by
  have hall : us.filter (fun u => u.role == .activation) = us :=
    List.filter_eq_self.mpr fun u hu => by simp [roles u hu]
  rw [activations, List.filter_append, hall, List.map_append, activations]

/-- It brings them to life. -/
theorem enlivened_block (writer : i.Extends n outs) :
    enlivened ⟨vs ++ us, is ++ us.map (fun u => .alloc u.id) ++ [i]⟩ =
      enlivened ⟨vs, is⟩ ++ us.map (·.id) := by
  have hallocs : (us.map fun u => Instruction.alloc (α := α) u.id).flatMap (·.enlivened) =
      us.map (·.id) := by
    rw [List.flatMap_map, List.map_eq_flatMap]
    rfl
  rw [enlivened, List.flatMap_append, List.flatMap_append, hallocs, List.flatMap_singleton,
    Instruction.enlivened_of_works writer.works, List.append_nil, enlivened]

/-- It gives nothing up. -/
theorem ended_block (writer : i.Extends n outs) :
    ended ⟨vs ++ us, is ++ us.map (fun u => .alloc u.id) ++ [i]⟩ = ended ⟨vs, is⟩ := by
  have hallocs : (us.map fun u => Instruction.alloc (α := α) u.id).flatMap (·.ended) = [] := by
    simp [List.flatMap_map, Instruction.ended]
  rw [ended, List.flatMap_append, List.flatMap_append, hallocs, List.flatMap_singleton,
    writer.ended_eq, List.append_nil, List.append_nil, ended]

/-- Deallocations bring nothing to life. -/
theorem enlivened_dealloc : enlivened ⟨vs, is ++ ids.map .dealloc⟩ = enlivened ⟨vs, is⟩ := by
  simp [enlivened, Instruction.enlivened, List.flatMap_map]

/-- They give their values up. -/
theorem ended_dealloc : ended ⟨vs, is ++ ids.map .dealloc⟩ = ended ⟨vs, is⟩ ++ ids := by
  have hdeallocs : (ids.map (Instruction.dealloc (α := α))).flatMap (·.ended) = ids := by
    rw [List.flatMap_map]
    exact List.flatMap_singleton' ids
  rw [ended, List.flatMap_append, hdeallocs, ended]

end Growth

theorem mem_activations : id ∈ p.activations ↔ ∃ v ∈ p.values, v.role = .activation ∧ v.id = id := by
  simp [activations, and_assoc]

/-- A weight is no activation. -/
theorem Placed.notMem_activations (hp : p.Placed) {v : Value α} (hv : v ∈ p.weights) :
    v.id ∉ p.activations := by
  intro hid
  obtain ⟨u, hu, hrole, huv⟩ := mem_activations.mp hid
  exact hp.activation_ne hu hrole hv huv

/-- Later instructions that do not allocate the value disturb nothing. -/
theorem AllocatedOnce.append (h : p.AllocatedOnce id) (hq : q.instructions = p.instructions ++ rest)
    (hrest : .alloc id ∉ rest) : q.AllocatedOnce id := by
  obtain ⟨before, after, heq, hbefore, hafter⟩ := h
  refine ⟨before, after ++ rest, ?_, hbefore, ?_⟩
  · rw [hq, heq, List.append_assoc, List.cons_append]
  · exact fun hmem => (List.mem_append.mp hmem).elim hafter hrest

/-- Nor do later instructions that do not write it. -/
theorem WrittenOnce.append (h : p.WrittenOnce id) (hq : q.instructions = p.instructions ++ rest)
    (hrest : ∀ j ∈ rest, j.isLifecycle = false → id ∉ j.written) : q.WrittenOnce id := by
  obtain ⟨before, i, after, heq, hlife, hwritten, hothers⟩ := h
  refine ⟨before, i, after ++ rest, ?_, hlife, hwritten, fun j hj => ?_⟩
  · rw [hq, heq, List.append_assoc, List.cons_append]
  · rw [← List.append_assoc] at hj
    exact (List.mem_append.mp hj).elim (hothers j) (hrest j)

theorem IsStatistic.append (h : p.IsStatistic id) (hq : q.instructions = p.instructions ++ rest) :
    q.IsStatistic id := by
  obtain ⟨i, hi, hid⟩ := h
  exact ⟨i, hq ▸ List.mem_append_left rest hi, hid⟩

end Program

/-! ### Builders -/

namespace Builder

/-- Values are assigned once and activations live once. -/
structure SingleAssignment (b : Builder α) : Prop where
  /-- The value at position `k` is named `k`. -/
  placed : b.program.Placed
  /-- Every activation is allocated once, before everything else that names it. -/
  allocated : ∀ id ∈ b.program.activations, b.program.AllocatedOnce id
  /-- Every activation and every running statistic is written once. -/
  written : ∀ id, id ∈ b.program.activations ∨ b.program.IsStatistic id → b.program.WrittenOnce id
  /-- No other weight is written. -/
  constant : ∀ v ∈ b.program.weights, ∀ i ∈ b.program.instructions,
    v.id ∈ i.written → b.program.IsStatistic v.id
  /-- Activations are allocated in the order of their declaration. -/
  ordered : b.program.enlivened = b.program.activations
  /-- What is given up is an activation. -/
  ended : ∀ id ∈ b.program.ended, id ∈ b.program.activations
  /-- No activation is given up twice; its allocation comes before that. -/
  endedOnce : b.program.ended.Nodup
  /-- The live activations are those not yet given up, in order of allocation. -/
  live : b.live = b.program.enlivened.filter (· ∉ b.program.ended)
  /-- Giving up all that live appends them in the opposite order. -/
  released : b.deallocateActive = ⟨⟨b.program.values, b.program.instructions ++
    (b.program.enlivened.filter (· ∉ b.program.ended)).reverse.map .dealloc⟩, []⟩

variable {b : Builder α} {id : ValueId}

/-- A later block names what no instruction so far names. -/
theorem Assembled.notMem_named (h : b.Assembled) {us : List (Value α)}
    (named : us.map (·.id) = List.range' b.program.values.length us.length)
    (hid : id ∈ us.map (·.id)) {j : Instruction α} (hj : j ∈ b.program.instructions) :
    id ∉ j.operands.map Prod.fst := fun hnamed =>
  Nat.not_lt.mpr (Program.le_of_mem_block named hid) (h.named_lt.1 j hj id hnamed)

theorem Assembled.notMem_block (h : b.Assembled) {us : List (Value α)}
    (named : us.map (·.id) = List.range' b.program.values.length us.length)
    {v : Value α} (hv : v ∈ b.program.values) : v.id ∉ us.map (·.id) := fun hid =>
  Nat.not_lt.mpr (Program.le_of_mem_block named hid) (h.grown.id_lt hv)

/-! ### Lifetimes -/

/-- Activations are allocated in the order of their declaration. -/
theorem Assembled.enlivened_eq (h : b.Assembled) : b.program.enlivened = b.program.activations := by
  induction h with
  | empty => rfl
  | weight _ _ role ih => exact ih.trans (Program.activations_weight role).symm
  | @block b us i _ _ roles writer _ ih =>
      rw [Program.enlivened_block writer, Program.activations_block roles, ← ih]
  | released _ ih => exact Program.enlivened_dealloc.trans ih

/-- Activations are declared once. -/
theorem Assembled.nodup_activations (h : b.Assembled) : b.program.activations.Nodup := by
  have hsub : b.program.activations.Sublist (b.program.values.map (·.id)) :=
    List.filter_sublist.map _
  rw [h.grown.map_id] at hsub
  exact hsub.nodup List.nodup_range

/-- Giving up all that live appends to what was given up. -/
theorem ended_deallocateActive (b : Builder α) :
    b.deallocateActive.program.ended = b.program.ended ++ b.live.reverse :=
  Program.ended_dealloc

/-- What is alive is what was allocated and not given up. -/
theorem Assembled.live_eq (h : b.Assembled) :
    b.live = b.program.activations.filter (· ∉ b.program.ended) := by
  induction h with
  | empty => rfl
  | weight _ _ role ih => rwa [Program.activations_weight role]
  | @block b us i before named roles writer _ ih =>
      -- nothing gave up the new activations
      have hkept : (us.map (·.id)).filter (· ∉ b.program.ended) = us.map (·.id) := by
        refine List.filter_eq_self.mpr fun id hid => decide_eq_true fun hmem => ?_
        obtain ⟨j, hj, hjid⟩ := List.mem_flatMap.mp hmem
        exact before.notMem_named named hid hj (Instruction.named_of_ended hjid)
      rw [Program.ended_block writer, Program.activations_block roles, List.filter_append]
      show b.live ++ us.map (·.id) = b.program.activations.filter (· ∉ b.program.ended) ++
        (us.map (·.id)).filter (· ∉ b.program.ended)
      rw [hkept, ← ih]
  | @released b _ ih =>
      rw [ended_deallocateActive]
      refine (List.filter_eq_nil_iff.mpr fun id hid => ?_).symm
      rw [decide_eq_true_eq, not_not, List.mem_append, List.mem_reverse, ih]
      -- what was not given up before is alive
      by_cases hended : id ∈ b.program.ended
      · exact .inl hended
      · exact .inr (List.mem_filter.mpr ⟨hid, decide_eq_true hended⟩)

/-- What is alive is an activation that was not given up. -/
theorem Assembled.mem_live (h : b.Assembled) (hid : id ∈ b.live) :
    id ∈ b.program.activations ∧ id ∉ b.program.ended := by
  rw [h.live_eq, List.mem_filter, decide_eq_true_eq] at hid
  exact hid

/-- Activations are given up, each once. -/
theorem Assembled.ended (h : b.Assembled) :
    (∀ id ∈ b.program.ended, id ∈ b.program.activations) ∧ b.program.ended.Nodup := by
  induction h with
  | empty => exact ⟨nofun, List.nodup_nil⟩
  | weight _ _ role ih => rwa [Program.activations_weight role]
  | @block b us i _ _ roles writer _ ih =>
      obtain ⟨hmem, hnodup⟩ := ih
      rw [Program.activations_block roles, Program.ended_block writer]
      exact ⟨fun id hid => List.mem_append_left _ (hmem id hid), hnodup⟩
  | @released b before ih =>
      obtain ⟨hmem, hnodup⟩ := ih
      rw [ended_deallocateActive]
      constructor
      · intro id hid
        rcases List.mem_append.mp hid with hid | hid
        · exact hmem id hid
        · exact (before.mem_live (List.mem_reverse.mp hid)).1
      · -- the live activations are distinct, and none of them was given up before
        have hlive : b.live.Nodup := before.live_eq ▸ before.nodup_activations.filter _
        refine List.nodup_append.mpr ⟨hnodup, List.nodup_reverse.mpr hlive, ?_⟩
        rintro id hid _ hid' rfl
        exact (before.mem_live (List.mem_reverse.mp hid')).2 hid

/-! ### Single assignment -/

section Block

variable {us : List (Value α)} {i : Instruction α}
  (named : us.map (·.id) = List.range' b.program.values.length us.length)
  (writer : i.Extends b.program.values.length (us.map (·.id)))

include named writer

/-- A block allocates its activations, each once. -/
theorem Assembled.allocatedOnce_block (h : b.Assembled) (hid : id ∈ us.map (·.id)) :
    Program.AllocatedOnce ⟨b.program.values ++ us,
      b.program.instructions ++ us.map (fun u => .alloc u.id) ++ [i]⟩ id := by
  obtain ⟨u, hu, rfl⟩ := List.mem_map.mp hid
  obtain ⟨us₁, us₂, rfl⟩ := List.append_of_mem hu
  -- the names of a block are distinct
  have hnodup : ((us₁ ++ u :: us₂).map (·.id)).Nodup := named ▸ List.nodup_range'
  rw [List.map_append, List.map_cons, List.nodup_middle, List.nodup_cons, List.mem_append,
    not_or] at hnodup
  obtain ⟨⟨hbefore, hafter⟩, -⟩ := hnodup
  refine ⟨b.program.instructions ++ us₁.map (fun u => .alloc u.id),
    us₂.map (fun u => .alloc u.id) ++ [i], by simp, ?_, ?_⟩
  · intro j hj
    rcases List.mem_append.mp hj with hj | hj
    · exact h.notMem_named named hid hj
    · obtain ⟨w, hw, rfl⟩ := List.mem_map.mp hj
      intro hnamed
      obtain heq : u.id = w.id := by simpa [Instruction.operands] using hnamed
      exact hbefore (heq ▸ List.mem_map_of_mem hw)
  · intro hmem
    rcases List.mem_append.mp hmem with hmem | hmem
    · obtain ⟨w, hw, halloc⟩ := List.mem_map.mp hmem
      obtain heq := Instruction.alloc.inj halloc
      exact hafter (heq ▸ List.mem_map_of_mem hw)
    · exact writer.ne_alloc (List.mem_singleton.mp hmem).symm

/-- It allocates no activation again. -/
theorem Assembled.notMem_alloc_block (h : b.Assembled) (hid : id ∈ b.program.activations) :
    .alloc id ∉ us.map (fun u => .alloc u.id) ++ [i] := by
  obtain ⟨v, hv, -, rfl⟩ := Program.mem_activations.mp hid
  intro hmem
  rcases List.mem_append.mp hmem with hmem | hmem
  · obtain ⟨u, hu, halloc⟩ := List.mem_map.mp hmem
    obtain heq := Instruction.alloc.inj halloc
    exact h.notMem_block named hv (heq ▸ List.mem_map_of_mem hu)
  · exact writer.ne_alloc (List.mem_singleton.mp hmem).symm

variable (fresh : ∀ q, i = .batchNorm q → ∀ id ∈ [q.mean, q.var],
  ∀ j ∈ b.program.instructions, id ∉ j.operands.map Prod.fst)

include fresh

/-- The instruction of a block writes nothing that an earlier one names. -/
theorem Assembled.spares_named (h : b.Assembled) {j : Instruction α}
    (hj : j ∈ b.program.instructions) (hid : id ∈ j.operands.map Prod.fst) : id ∉ i.written := by
  intro hwritten
  rcases writer.mem_written.mp hwritten with hout | ⟨q, hq, hstatistic⟩
  · exact h.notMem_named named hout hj hid
  · exact fresh q hq id hstatistic j hj hid

/-- So what it writes is written once. -/
theorem Assembled.writtenOnce_block (h : b.Assembled) (hid : id ∈ i.written) :
    Program.WrittenOnce ⟨b.program.values ++ us,
      b.program.instructions ++ us.map (fun u => .alloc u.id) ++ [i]⟩ id := by
  refine ⟨b.program.instructions, i, [], ?_, writer.works, hid, fun j hj _ hjid => ?_⟩
  · rw [writer.overwritten_eq, List.map_map]
    rfl
  · rw [List.append_nil] at hj
    exact h.spares_named named writer fresh hj (j.written_subset hjid) hid

end Block

/-- Every activation is allocated once, before everything else that names it. -/
theorem Assembled.allocatedOnce (h : b.Assembled) :
    ∀ id ∈ b.program.activations, b.program.AllocatedOnce id := by
  induction h with
  | empty => exact nofun
  | weight _ _ role ih => rwa [Program.activations_weight role]
  | block before named roles writer _ ih =>
      intro id hid
      rw [Program.activations_block roles] at hid
      rcases List.mem_append.mp hid with hid | hid
      · exact (ih id hid).append (List.append_assoc ..)
          (before.notMem_alloc_block named writer hid)
      · exact before.allocatedOnce_block named writer hid
  | released _ ih =>
      intro id hid
      exact (ih id hid).append rfl (by simp)

/-- Every activation and every running statistic is written once. -/
theorem Assembled.writtenOnce (h : b.Assembled) (id : ValueId) :
    id ∈ b.program.activations ∨ b.program.IsStatistic id → b.program.WrittenOnce id := by
  induction h with
  | empty =>
      rintro (hid | ⟨q, hq, -⟩)
      · cases hid
      · cases hq
  | weight _ _ role ih => rwa [Program.activations_weight role]
  | @block b us i before named roles writer fresh ih =>
      intro hid
      by_cases hwritten : id ∈ i.written
      · exact before.writtenOnce_block named writer fresh hwritten
      -- it is assigned already, and the block does not write it
      have hold : id ∈ b.program.activations ∨ b.program.IsStatistic id := by
        rcases hid with hid | ⟨q, hq, hstatistic⟩
        · rw [Program.activations_block roles] at hid
          rcases List.mem_append.mp hid with hid | hid
          · exact .inl hid
          · exact absurd (writer.mem_written.mpr (.inl hid)) hwritten
        · simp only [List.append_assoc, List.mem_append, List.mem_map, List.mem_singleton] at hq
          rcases hq with hq | ⟨u, -, hq⟩ | hq
          · exact .inr ⟨q, hq, hstatistic⟩
          · cases hq
          · exact absurd (writer.mem_written.mpr (.inr ⟨q, hq.symm, hstatistic⟩)) hwritten
      refine (ih hold).append (List.append_assoc ..) fun j hj hlife => ?_
      rcases List.mem_append.mp hj with hj | hj
      · obtain ⟨u, -, rfl⟩ := List.mem_map.mp hj
        cases hlife
      · obtain rfl := List.mem_singleton.mp hj
        exact hwritten
  | @released b _ ih =>
      intro hid
      have hold : id ∈ b.program.activations ∨ b.program.IsStatistic id := by
        refine hid.imp_right fun ⟨q, hq, hstatistic⟩ => ⟨q, ?_, hstatistic⟩
        rcases List.mem_append.mp hq with hq | hq
        · exact hq
        · obtain ⟨_, -, hq⟩ := List.mem_map.mp hq
          cases hq
      refine (ih hold).append rfl fun j hj hlife => ?_
      obtain ⟨_, -, rfl⟩ := List.mem_map.mp hj
      cases hlife

/-- No weight but a running statistic is written. -/
theorem Assembled.constant (h : b.Assembled) : ∀ v ∈ b.program.weights,
    ∀ i ∈ b.program.instructions, v.id ∈ i.written → b.program.IsStatistic v.id := by
  induction h with
  | empty => exact nofun
  | @weight b w before named role ih =>
      intro v hv i hi hid
      obtain ⟨hv, hrole⟩ := Program.mem_weights.mp hv
      rcases List.mem_append.mp hv with hv | hv
      · exact ih v (Program.mem_weights.mpr ⟨hv, hrole⟩) i hi hid
      · -- the new weight is named by no instruction so far
        obtain rfl := List.mem_singleton.mp hv
        have hlt := before.named_lt.1 i hi v.id (i.written_subset hid)
        exact absurd hlt (Nat.not_lt.mpr named.ge)
  | @block b us i before named roles writer _ ih =>
      intro v hv j hj hid
      obtain ⟨hv, hrole⟩ := Program.mem_weights.mp hv
      have hold : v ∈ b.program.values := by
        refine (List.mem_append.mp hv).resolve_right fun hu => ?_
        cases hrole.symm.trans (roles v hu)
      simp only [List.append_assoc, List.mem_append, List.mem_map, List.mem_singleton] at hj
      rcases hj with hj | ⟨u, hu, rfl⟩ | rfl
      · exact (ih v (Program.mem_weights.mpr ⟨hold, hrole⟩) j hj hid).append
          (List.append_assoc ..)
      · obtain heq : v.id = u.id := by simpa [Instruction.written, Instruction.operands] using hid
        exact absurd (heq ▸ List.mem_map_of_mem hu) (before.notMem_block named hold)
      · rcases writer.mem_written.mp hid with hout | ⟨q, rfl, hstatistic⟩
        · exact absurd hout (before.notMem_block named hold)
        · exact ⟨q, by simp, hstatistic⟩
  | @released b before ih =>
      intro v hv j hj hid
      rcases List.mem_append.mp hj with hj | hj
      · exact (ih v hv j hj hid).append rfl
      · -- only activations are given up
        obtain ⟨dead, hdead, rfl⟩ := List.mem_map.mp hj
        obtain rfl : v.id = dead := by simpa [Instruction.written, Instruction.operands] using hid
        have hactivation := (before.mem_live (List.mem_reverse.mp hdead)).1
        exact absurd hactivation (before.grown.placed.notMem_activations hv)

variable [Scalar α]

/-- **Programs are in single assignment form**, and so are those of builders that
are not finished, after failing calls as well: a call that fails leaves the
program and the live activations as they were. -/
theorem assigns_once (hb : b.Constructed) : b.SingleAssignment ∧
    ∀ (name : String) (l : Layer α) (e : Error) (b' : Builder α),
      attach name l b = .error e b' → b' = b := by
  have h := hb.assembled
  have hlive : b.live = b.program.enlivened.filter (· ∉ b.program.ended) := by
    rw [h.enlivened_eq, ← h.live_eq]
  refine ⟨?_, fun name l e b' hfail => atomic_attach name l hfail⟩
  exact {
    placed := h.grown.placed
    allocated := h.allocatedOnce
    written := h.writtenOnce
    constant := h.constant
    ordered := h.enlivened_eq
    ended := h.ended.1
    endedOnce := h.ended.2
    live := hlive
    released := by rw [deallocateActive, hlive] }

/-- Images are pooled and normalized, after a convolution that does not fit; then
all activations are given up and one more is declared. -/
def pooledBatch : Builder Float32 :=
  (((((Builder.step {} (.layer "x" (.input .float ⟨[1, 2, 2, 1]⟩))).step
    (.layer "conv" (.convolution 0 3 ⟨5, 1, 0⟩))).step
    (.layer "pool" (.pool .max 0 ⟨2, 2, 0⟩))).step
    (.layer "norm" (.batchNorm 1 3 0 1))).step
    .deallocateActive).step
    (.layer "relu" (.activation .relu 0))

theorem assigns_once_pooledBatch : pooledBatch.Constructed ∧
    pooledBatch.program.enlivened = [1, 2, 7, 8] ∧ pooledBatch.program.ended = [7, 2, 1] ∧
    pooledBatch.live = [8] ∧ pooledBatch.SingleAssignment ∧
    ∀ (name : String) (l : Layer Float32) (e : Error) (b' : Builder Float32),
      attach name l pooledBatch = .error e b' → b' = pooledBatch := by
  have hb : pooledBatch.Constructed := by
    refine .step (.step (.step (.step (.step (.step .empty ?_) ?_) ?_) ?_) ?_) ?_ <;> decide
  exact ⟨hb, by decide, by decide, by decide, assigns_once hb⟩

end Builder

end TensorProgram
