/-
TensorProgram/Proofs/Kernel/Frame.lean

What the list of operands says about a kernel.  Running forward changes the
weights of the listed outputs, and in training those that are listed to be
updated in place; it changes no gradient but that of an activation which it
brings to life.  Running backward changes gradients of operands only.

Main statement: all this holds of every instruction on every context, however
the kernel ends (`Instruction.keeps_to_operands`).
-/
import TensorProgram.Proofs.Context.Deposits
import TensorProgram.Proofs.Kernel.Footprint

namespace TensorProgram

variable {α : Type}

open Context (Evolves)
open Run (Moves)

namespace Instruction

/-- The values that the instruction is listed to overwrite. -/
def overwritten (i : Instruction α) : List ValueId :=
  (i.operands.filter fun o => o.2 = .write).map Prod.fst

theorem mem_overwritten {i : Instruction α} {id : ValueId} :
    id ∈ i.overwritten ↔ (id, .write) ∈ i.operands := by
  simp [overwritten]

theorem mem_written {i : Instruction α} {id : ValueId} :
    id ∈ i.written ↔ (id, .write) ∈ i.operands ∨ (id, .update) ∈ i.operands := by
  constructor
  · intro hid
    obtain ⟨⟨id, access⟩, ho, rfl⟩ := List.mem_map.mp hid
    obtain ⟨ho, haccess⟩ := List.mem_filter.mp ho
    cases access with
    | read => simp at haccess
    | write => exact .inl ho
    | update => exact .inr ho
  · rintro (ho | ho)
    · exact List.mem_map.mpr ⟨_, List.mem_filter.mpr ⟨ho, by simp⟩, rfl⟩
    · exact List.mem_map.mpr ⟨_, List.mem_filter.mpr ⟨ho, by simp⟩, rfl⟩

theorem written_subset (i : Instruction α) : i.written ⊆ i.operands.map Prod.fst :=
  fun _ hid => by
    obtain ⟨o, ho, rfl⟩ := List.mem_map.mp hid
    exact List.mem_map_of_mem (List.mem_filter.mp ho).1

/-- If nothing is listed to be updated in place, writing is overwriting. -/
theorem written_eq_overwritten {i : Instruction α} (h : ∀ o ∈ i.operands, o.2 ≠ .update) :
    i.written = i.overwritten := by
  rw [written, overwritten]
  congr 1
  refine List.filter_congr fun o ho => ?_
  have hupdate := h o ho
  cases haccess : o.2 with
  | read => rfl
  | write => rfl
  | update => exact absurd haccess hupdate

/-- Gradients are made and changed for operands. -/
theorem receivers_subset (i : Instruction α) : i.receivers ⊆ i.operands.map Prod.fst := by
  cases i with
  | concat i => simp [receivers, operands, Function.comp_def]
  | _ => simp [receivers, operands]

variable [Scalar α]

/-- Outside training nothing is updated in place. -/
theorem moves_infer (i : Instruction α) :
    Moves (Evolves i.overwritten i.enlivened) (i.forward false) := by
  by_cases hupdate : ∀ o ∈ i.operands, o.2 ≠ .update
  · rw [← written_eq_overwritten hupdate]
    exact i.moves_forward false
  · -- only a normalization by running statistics updates in place
    cases i with
    | batchNorm i =>
        refine .bind Run.moves_get fun _ => .bind (Run.moves_check _) fun _ => ?_
        exact i.moves_normalize (by simp [overwritten, operands])
    | pool i => exact absurd (by rcases hc : i.coords <;> simp [operands, hc]) hupdate
    | concat i => exact absurd (by simp [operands]) hupdate
    | _ => exact absurd (by simp [operands]) hupdate

/-! ### The frame of a kernel -/

/-- The gradient of a declared activation that can be allocated is zeroed, or zeros are
made as declared. -/
inductive Cleared (c c' : Context α) (dest : ValueId) : Prop
  /-- It is not declared. -/
  | kept (undeclared : c.declared[dest]? = none) (same : c'.grads[dest]? = c.grads[dest]?)
  /-- It is too large, which is a fault. -/
  | fault (d : Declaration) (declared : c.declared[dest]? = some d) (large : ¬ d.Allocatable α)
      (same : c'.grads[dest]? = c.grads[dest]?)
  /-- The gradient is zeroed. -/
  | zeroed (g : Tensor α) (before : c.grads[dest]? = some g)
      (after : c'.grads[dest]? = some g.zerosLike)
  /-- A gradient is made. -/
  | made (d : Declaration) (before : c.grads[dest]? = none) (declared : c.declared[dest]? = some d)
      (after : c'.grads[dest]? = some (.zeros d.kind d.shape))

/-- Running forward, in training or not, keeps to the operands. -/
structure ForwardFrame (i : Instruction α) (train : Bool) (c c' : Context α) : Prop where
  /-- No declaration changes. -/
  declared : c'.declared = c.declared
  /-- A weight changes, is bound or unbound only if it is listed as written. -/
  weights : ∀ id, (id, .write) ∉ i.operands → (id, .update) ∉ i.operands →
    c'.weights[id]? = c.weights[id]?
  /-- Outside training nothing is updated in place. -/
  infer : train = false → ∀ id, (id, .write) ∉ i.operands → c'.weights[id]? = c.weights[id]?
  /-- Gradients stay. -/
  grads : ∀ id, i ≠ .alloc id → c'.grads[id]? = c.grads[id]?
  /-- But that of an activation that comes to life is cleared. -/
  alloc : ∀ id, i = .alloc id → Cleared c c' id

/-- Running backward keeps to the operands. -/
structure BackwardFrame (i : Instruction α) (c c' : Context α) : Prop where
  /-- No declaration changes. -/
  declared : c'.declared = c.declared
  /-- No weight changes. -/
  weights : c'.weights = c.weights
  /-- No gradient is unbound. -/
  bound : ∀ id : ValueId, (c.grads[id]?).isSome → (c'.grads[id]?).isSome
  /-- Only gradients of operands change or are made. -/
  grads : ∀ id, id ∉ i.operands.map Prod.fst → c'.grads[id]? = c.grads[id]?

/-- Bringing an activation to life clears its gradient. -/
theorem cleared_enliven (c : Context α) (dest : ValueId) :
    Cleared c ((Context.enliven dest).after c) dest := by
  rcases hd : c.declared[dest]? with - | d
  · exact .kept hd (by rw [Run.after_of_error (Context.enliven_of_undeclared hd)])
  by_cases hfits : d.Allocatable α
  case neg =>
    exact .fault d hd hfits (by rw [Run.after_of_error (Context.enliven_of_not_allocatable hd hfits)])
  obtain ⟨t, ht⟩ : ∃ t, c.allocated dest = .ok t := by
    rw [Context.allocated, Context.declaration, hd, Except.ok_bind]
    split
    · split <;> exact ⟨_, rfl⟩
    · exact ⟨_, rfl⟩
  -- the weight that is bound now fits the declaration, and so do zeros like it
  have hdecl := Context.declaration_allocated ht
  have hafter (g : Tensor α) (hg : (c.setWeight dest t).gradOrZeros dest = .ok g) :
      ((Context.enliven dest).after c).grads[dest]? = some g.zerosLike := by
    have hrun : Context.enliven dest c = .ok () ((c.setWeight dest t).setGrad dest g.zero) := by
      rw [Context.enliven_of_allocatable hd hfits]
      refine Context.change_of_ok ?_
      rw [Context.enlivened, Context.allocate, ht, Except.ok_bind, Except.pure_eq_ok, Except.ok_bind, hg,
        Except.ok_bind, Except.pure_eq_ok]
    rw [Run.after_of_ok hrun, Context.grads_setGrad_self, Tensor.zero]
  rcases hg : c.grads[dest]? with - | g
  · refine .made t.declaration hg hdecl ?_
    rw [hafter t.zerosLike, Tensor.zerosLike, Tensor.kind_zerosLike, Tensor.shape_zerosLike]
    · rfl
    · rw [Context.gradOrZeros, Context.grads_setWeight, hg, Context.weights_setWeight_self]
  · exact .zeroed g hg (hafter g (Context.gradOrZeros_of_grad hg))

theorem forwardFrame (i : Instruction α) (train : Bool) (c : Context α) :
    i.ForwardFrame train c ((i.forward train).after c) := by
  have hmove := i.moves_forward train c
  refine ⟨hmove.declared, fun id hwrite hupdate => hmove.weights ?_, ?_, fun id hne => hmove.grads ?_,
    ?_⟩
  · rw [mem_written, not_or]
    exact ⟨hwrite, hupdate⟩
  · rintro rfl id hwrite
    exact (i.moves_infer c).weights (mem_overwritten.not.mpr hwrite)
  · intro hid
    cases i with
    | alloc dest => exact hne (by rw [List.mem_singleton.mp hid])
    | _ => cases hid
  · rintro id rfl
    exact cleared_enliven c id

theorem backwardFrame (i : Instruction α) (config : Config α) (c : Context α) :
    i.BackwardFrame c ((i.backward config).after c) := by
  have hmove := i.moves_backward config c
  refine ⟨hmove.declared, Std.ExtTreeMap.ext_getElem? fun id => hmove.weights (by simp),
    fun id => hmove.gradBound, fun id hid => hmove.grads fun hmem => hid (i.receivers_subset hmem)⟩

/-- **Kernels keep to their operands**, on every context and however they
end. -/
theorem keeps_to_operands (i : Instruction α) (train : Bool) (config : Config α) (c : Context α) :
    i.ForwardFrame train c ((i.forward train).after c) ∧
      i.BackwardFrame c ((i.backward config).after c) :=
  ⟨i.forwardFrame train c, i.backwardFrame config c⟩

end Instruction

end TensorProgram
