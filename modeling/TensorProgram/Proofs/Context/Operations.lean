/-
TensorProgram/Proofs/Context/Operations.lean

Sequences of operations on a context, and what they do to the pairing of weights
and gradients.

A gradient comes into being with kind and shape of its weight, and writing
elements changes neither.  A weight is bound by looking at declarations alone:
inserting over an undeclared value, or allocating after another declaration,
puts a weight beside a gradient that no longer fits it.  The pairing is lost by
such operations and by no other (`Context.mirrored_throughout_iff`).
-/
import Mathlib.Data.List.Induction
import TensorProgram.Proofs.Context.Mirror
import TensorProgram.Scalar.Binary32

namespace TensorProgram.Context

variable {α : Type}

/-! ### Operations -/

/-- What an update does with the tensors it takes out of the context: it may
read the rest, and `R` relates the tensors before to those after. -/
structure Writer (α τ : Type) (R : τ → τ → Prop) where
  /-- The call on the tensors. -/
  run : Context α → Run τ Unit
  /-- How it changes them, also if it fails. -/
  moves : ∀ c, Run.Moves R (run c)

/-- The operations on a context.  Updates only write elements. -/
inductive Operation (α : Type) where
  /-- Declare kind and shape. -/
  | declare (id : ValueId) (d : Declaration)
  /-- Bind a weight that fits the declaration. -/
  | allocate (id : ValueId)
  /-- Bind this weight. -/
  | insert (id : ValueId) (t : Tensor α)
  /-- Unbind weight and gradient. -/
  | remove (id : ValueId)
  /-- Bind a missing gradient. -/
  | ensureGrad (id : ValueId)
  /-- Bind missing gradients. -/
  | ensureGrads (ids : List ValueId)
  /-- Write a weight. -/
  | updateWeight (id : ValueId) (f : Writer α (Tensor α) Tensor.Alike)
  /-- Write two weights together. -/
  | updateWeightPair (a b : ValueId) (f : Writer α (Tensor α × Tensor α) Tensor.AlikePair)
  /-- Write a gradient. -/
  | updateGrad (id : ValueId) (f : Writer α (Tensor α) Tensor.Alike)

section Keeping

variable {β : Type} {c : Context α} {id a b : ValueId}

/-- An insertion that succeeds binds the tensor. -/
theorem eq_of_insert {c' : Context α} {t : Tensor α} (h : c.insert id t = .ok c') :
    c' = c.setWeight id t := by
  rw [insert] at h
  split at h
  · exact (Except.ok.inj h).symm
  · split_ifs at h
    exact (Except.ok.inj h).symm

/-- Writing a weight keeps a context mirrored. -/
theorem Mirrored.updateWeight {f : Context α → Run (Tensor α) β} (hc : c.Mirrored)
    (hf : ∀ c, Run.Moves Tensor.Alike (f c)) : ((updateWeight id f).after c).Mirrored := by
  rcases after_updateWeight_cases f with hsame | ⟨t, ht, hafter⟩
  · rw [hsame]
    exact hc
  · have halike : Tensor.Alike t _ := hf (c.withoutWeight id) t
    rw [hafter]
    exact hc.setWeight_iff.mpr fun g hg => (hc ht hg).trans halike.symm

/-- Writing two weights keeps a context mirrored. -/
theorem Mirrored.updateWeightPair {f : Context α → Run (Tensor α × Tensor α) β} (hc : c.Mirrored)
    (hf : ∀ c, Run.Moves Tensor.AlikePair (f c)) :
    ((updateWeightPair a b f).after c).Mirrored := by
  rcases after_updateWeightPair_cases f with hsame | ⟨t, u, -, ht, hu, hafter⟩
  · rw [hsame]
    exact hc
  · obtain ⟨hfirst, hsecond⟩ : Tensor.AlikePair (t, u) _ :=
      hf ((c.withoutWeight a).withoutWeight b) (t, u)
    have hmirrored : (c.setWeight a _).Mirrored :=
      hc.setWeight_iff.mpr fun g hg => (hc ht hg).trans hfirst.symm
    rw [hafter]
    exact hmirrored.setWeight_iff.mpr fun g hg => (hc hu hg).trans hsecond.symm

end Keeping

variable [Scalar α] {c : Context α}

namespace Operation

/-- Perform an operation. -/
def perform : Operation α → Run (Context α) Unit
  | declare id d => change fun c => .ok (c.declare id d)
  | allocate id => change (·.allocate id)
  | insert id t => change (·.insert id t)
  | remove id => change fun c => .ok (c.remove id)
  | ensureGrad id => change (·.ensureGrad id)
  | ensureGrads ids => Context.ensureGrads ids
  | updateWeight id f => Context.updateWeight id f.run
  | updateWeightPair a b f => Context.updateWeightPair a b f.run
  | updateGrad id f => Context.updateGrad id f.run

/-- The weight that an operation binds, and for which value. -/
def binds : Operation α → Context α → Option (ValueId × Tensor α)
  | allocate id, c => (c.allocated id).toOption.map (id, ·)
  | insert id t, c => (c.insert id t).toOption.map fun _ => (id, t)
  | _, _ => none

/-- The operation binds a weight beside a gradient of another kind or shape. -/
def Outgrows (op : Operation α) (c : Context α) : Prop :=
  ∃ id t g, op.binds c = some (id, t) ∧ c.grads[id]? = some g ∧ g.declaration ≠ t.declaration

variable {op : Operation α} {id : ValueId} {t : Tensor α}

/-- An operation that binds a weight does nothing else. -/
theorem after_of_binds (h : op.binds c = some (id, t)) : op.perform.after c = c.setWeight id t := by
  cases op with
  | allocate j =>
      rw [perform, Run.after, change, Context.allocate]
      rcases ht : c.allocated j with e | u
      · simp [binds, ht, Except.toOption] at h
      · obtain ⟨rfl, rfl⟩ : j = id ∧ u = t := by simpa [binds, ht, Except.toOption] using h
        rfl
  | insert j u =>
      rw [perform, Run.after, change]
      rcases hins : c.insert j u with e | c'
      · simp [binds, hins, Except.toOption] at h
      · obtain ⟨rfl, rfl⟩ : j = id ∧ u = t := by simpa [binds, hins, Except.toOption] using h
        exact eq_of_insert hins
  | _ => cases h

/-- An operation that binds no weight keeps a context mirrored. -/
theorem mirrored_after (hc : c.Mirrored) (h : op.binds c = none) :
    (op.perform.after c).Mirrored := by
  cases op with
  | declare id d => exact hc
  | allocate id =>
      -- an allocation that binds nothing has failed, and then it changes nothing
      rw [perform, Run.after, change, Context.allocate]
      rcases ht : c.allocated id with e | t
      · exact hc
      · simp [binds, ht, Except.toOption] at h
  | insert id t =>
      rw [perform, Run.after, change]
      rcases hins : c.insert id t with e | c'
      · exact hc
      · simp [binds, hins, Except.toOption] at h
  | remove id => exact hc.withoutWeight.withoutGrad
  | ensureGrad id => exact (lands_ensureGrad hc.mirrors id).after.mirrored
  | ensureGrads ids =>
      have hlands : (Context.ensureGrads ids).Lands (Mirrors c) c :=
        Run.lands_forM (fun id _ c' hc' => lands_ensureGrad hc' id) hc.mirrors
      exact hlands.after.mirrored
  | updateWeight id f => exact hc.updateWeight f.moves
  | updateWeightPair a b f => exact hc.updateWeightPair f.moves
  | updateGrad id f => exact (mirrors_updateGrad hc.mirrors fun g _ => f.moves _ g).mirrored

/-- **One step.**  From a mirrored context an operation leads to a mirrored
context unless it outgrows a gradient. -/
theorem mirrored_after_iff (hc : c.Mirrored) :
    (op.perform.after c).Mirrored ↔ ¬ op.Outgrows c := by
  rcases hb : op.binds c with - | ⟨id, t⟩
  · refine ⟨fun _ ⟨id, t, g, ht, _⟩ => ?_, fun _ => mirrored_after hc hb⟩
    rw [hb] at ht
    cases ht
  · rw [after_of_binds hb, hc.setWeight_iff]
    constructor
    · rintro h ⟨j, u, g, hu, hg, hne⟩
      obtain ⟨rfl, rfl⟩ := Prod.mk.inj (Option.some.inj (hb.symm.trans hu))
      exact hne (h g hg)
    · intro h g hg
      by_contra hne
      exact h ⟨id, t, g, hb, hg, hne⟩

end Operation

/-! ### Sequences -/

/-- The context after these operations, successful or failing. -/
def performAll (ops : List (Operation α)) (c : Context α) : Context α :=
  ops.foldl (fun c op => op.perform.after c) c

theorem performAll_append (ops : List (Operation α)) (op : Operation α) :
    performAll (ops ++ [op]) c = op.perform.after (performAll ops c) := by
  rw [performAll, List.foldl_append]
  rfl

omit [Scalar α] in
theorem mirrored_empty : ({} : Context α).Mirrored := by
  intro id t g ht
  cases ht

/-- **When weights and gradients stay paired.**  From the empty context, along
any operations, every gradient has kind and shape of the weight beside it as
long as no operation binds a weight of another kind or shape beside a gradient,
and no longer. -/
theorem mirrored_throughout_iff (ops : List (Operation α)) :
    (∀ pre, pre <+: ops → (performAll pre {}).Mirrored) ↔
      ∀ pre op, pre ++ [op] <+: ops → ¬ op.Outgrows (performAll pre {}) := by
  constructor
  · intro h pre op hpre
    have hbefore := h pre ((List.prefix_append pre [op]).trans hpre)
    have hafter := h (pre ++ [op]) hpre
    rw [performAll_append] at hafter
    exact (Operation.mirrored_after_iff hbefore).mp hafter
  · intro h pre
    -- along the prefix from its end: the last operation met a mirrored context
    induction pre using List.reverseRecOn with
    | nil => exact fun _ => mirrored_empty
    | append_singleton pre op ih =>
        intro hpre
        rw [performAll_append]
        have hbefore := ih ((List.prefix_append pre [op]).trans hpre)
        exact (Operation.mirrored_after_iff hbefore).mpr (h pre op hpre)

/-- A vector of two elements and its gradient; then the vector is replaced by one
of three elements. -/
def lengthenedVector : List (Operation Float32) :=
  [.insert 0 (.full 1 ⟨[2]⟩), .ensureGrad 0, .insert 0 (.full 1 ⟨[3]⟩)]

/-- The gradient of the vector that was replaced stays. -/
theorem not_mirrored_lengthenedVector : ¬ (performAll lengthenedVector {}).Mirrored := by
  intro h
  have hsame : (Tensor.zeros .float ⟨[2]⟩ : Tensor Float32).declaration
      = (Tensor.full 1 ⟨[3]⟩ : Tensor Float32).declaration := @h 0 _ _ rfl rfl
  exact absurd hsame (by decide)

end TensorProgram.Context
