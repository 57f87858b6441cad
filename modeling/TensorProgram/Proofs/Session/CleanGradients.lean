/-
TensorProgram/Proofs/Session/CleanGradients.lean

Backward sweeps of training start from gradients of zero.  A gradient that is
not zero belongs to a weight or to an activation that the program brings to
life.  The former are reset at the end of every training step, the latter by
the forward sweep, and there are no others (`Program.receivers_covered`).

Main statement: after loads, forward sweeps and training steps that succeeded,
a forward sweep that succeeds leaves no gradient but zeros
(`Session.gradients_start_clean`).
-/
import TensorProgram.Proofs.Kernel.Frame
import TensorProgram.Proofs.Program.Check
import TensorProgram.Proofs.Session.Invariant

namespace TensorProgram

variable {α : Type} [Scalar α]

open Context (Evolves)

/-! ### Zeros -/

/-- Every element is zero. -/
def Tensor.IsZero : Tensor α → Prop
  | ⟨_, .float data⟩ => ∀ x ∈ data, x = 0
  | ⟨_, .index data⟩ => ∀ x ∈ data, x = 0

theorem Tensor.isZero_zeros (kind : ElemKind) (s : Shape) : (zeros kind s : Tensor α).IsZero := by
  cases kind with
  | float => exact fun x hx => (Vector.mem_replicate.mp hx).2
  | index => exact fun x hx => (Vector.mem_replicate.mp hx).2

namespace Context

/-- Gradients are zero but for those of these values. -/
def Clean (c : Context α) (S : List ValueId) : Prop :=
  ∀ id ∉ S, ∀ g, c.grads[id]? = some g → g.IsZero

variable {c c' : Context α} {S T W G : List ValueId}

theorem Clean.mono (h : c.Clean S) (hST : S ⊆ T) : c.Clean T :=
  fun id hid => h id fun hmem => hid (hST hmem)

/-- Gradients of other values stay zero. -/
theorem Clean.evolves (h : c.Clean S) (hmove : Evolves W G c c') (hG : G ⊆ S) : c'.Clean S := by
  intro id hid g hg
  rw [hmove.grads fun hmem => hid (hG hmem)] at hg
  exact h id hid g hg

end Context

/-! ### A forward sweep -/

/-- An instruction that brings an activation to life cleans its gradient. -/
theorem Context.Clean.step {i : Instruction α} {train : Bool} {c c' : Context α}
    {S : List ValueId} (h : c.Clean (i.enlivened ++ S)) (hrun : i.forward train c = .ok () c') :
    c'.Clean S := by
  have hframe : i.ForwardFrame train c c' := Run.after_of_ok hrun ▸ i.forwardFrame train c
  intro id hid g hg
  -- an allocation writes zeros, and no other instruction touches a gradient
  by_cases halloc : i = .alloc id
  · subst halloc
    cases hframe.alloc id rfl with
    | kept undeclared =>
        cases (Context.enliven_of_undeclared undeclared).symm.trans hrun
    | fault d declared large =>
        cases (Context.enliven_of_not_allocatable declared large).symm.trans hrun
    | zeroed g' _ after =>
        obtain rfl := Option.some.inj (after.symm.trans hg)
        exact Tensor.isZero_zeros ..
    | made d _ _ after =>
        obtain rfl := Option.some.inj (after.symm.trans hg)
        exact Tensor.isZero_zeros ..
  · rw [hframe.grads id halloc] at hg
    refine h id (fun hmem => ?_) g hg
    rcases List.mem_append.mp hmem with hlive | hmem
    · cases i with
      | alloc dest => exact halloc (by rw [List.mem_singleton.mp hlive])
      | _ => cases hlive
    · exact hid hmem

/-- A forward sweep cleans the gradients of all that it brings to life. -/
theorem Context.Clean.sweep {is : List (Instruction α)} {train : Bool} {c c' : Context α}
    {S : List ValueId} (h : c.Clean (is.flatMap (·.enlivened) ++ S))
    (hrun : is.forM (·.forward train) c = .ok () c') : c'.Clean S := by
  induction is generalizing c with
  | nil =>
      obtain ⟨-, rfl⟩ := EStateM.Result.ok.inj hrun
      exact h
  | cons i is ih =>
      rw [Run.forM_cons] at hrun
      obtain ⟨_, c₁, hi, hrest⟩ := Run.exists_of_bind_ok hrun
      rw [List.flatMap_cons, List.append_assoc] at h
      exact ih (h.step hi) hrest

/-! ### The step of training -/

namespace Trainer

variable {p : Program α}

/-- Resetting gradients cleans them. -/
theorem clean_clearGrads {vs : List (Value α)} {c : Context α} {S : List ValueId}
    (h : c.Clean (vs.map (·.id) ++ S)) :
    (vs.foldl (fun c v => clearGrad c v.id) c).Clean S := by
  intro id hid g hg
  rw [(clearGrads_fields vs c).2.2 id] at hg
  by_cases hreset : id ∈ vs.map (·.id)
  · rw [if_pos hreset] at hg
    obtain ⟨g', -, rfl⟩ := Option.map_eq_some_iff.mp hg
    exact Tensor.isZero_zeros ..
  · rw [if_neg hreset] at hg
    exact h id (fun hmem => (List.mem_append.mp hmem).elim hreset hid) g hg

/-- The step of training cleans the gradients of weights. -/
theorem clean_step {s s' : State α} {S : List ValueId}
    (h : s.2.Clean (p.weights.map (·.id) ++ S)) (hrun : step p s = .ok () s') : s'.2.Clean S := by
  obtain ⟨_, s₁, hmoves, hclear⟩ := Run.exists_of_bind_ok hrun
  obtain ⟨-, rfl⟩ := EStateM.Result.ok.inj hclear
  have hadvances : Advances p s s₁ := by
    have hall : Run.Moves (Advances p) (p.trainable.forM fun v => moveIfNeeded v.id) :=
      .forM fun v hv => moves_moveIfNeeded hv
    exact Run.after_of_ok hmoves ▸ hall s
  exact clean_clearGrads (h.evolves hadvances.context (List.subset_append_left _ _))

end Trainer

/-! ### Programs -/

namespace Program

variable {p : Program α}

omit [Scalar α] in
/-- What is allocated where an instruction stands was brought to life before. -/
theorem Checks.admits_enlivened {allocated : List ValueId} {is : List (Instruction α)}
    (h : p.Checks allocated is) : ∀ i ∈ is, ∃ earlier, p.Admits earlier i ∧
      earlier ⊆ is.flatMap (·.enlivened) ++ allocated := by
  induction h with
  | nil => simp
  | @cons allocated i rest head _ ih =>
      refine List.forall_mem_cons.mpr ⟨⟨allocated, head, by simp⟩, fun j hj => ?_⟩
      obtain ⟨earlier, hadmits, hearlier⟩ := ih j hj
      refine ⟨earlier, hadmits, fun id hid => ?_⟩
      have hmem := hearlier hid
      -- only the beginning of a life allocates
      have hafter : id ∈ allocatedAfter allocated i → id ∈ i.enlivened ∨ id ∈ allocated := by
        intro h
        cases i with
        | alloc dest => exact (List.mem_cons.mp h).imp_left List.mem_singleton.mpr
        | _ => exact .inr h
      simp only [List.flatMap_cons, List.mem_append] at hmem ⊢
      rcases hmem with hmem | hmem
      · exact .inl (.inr hmem)
      · exact (hafter hmem).imp_left .inl

omit [Scalar α] in
/-- Running backward makes and changes gradients of weights and of activations
that come to life. -/
theorem receivers_covered (hp : p.Placed) (hchecks : p.Checks [] p.instructions) :
    p.receivers ⊆ p.weights.map (·.id) ++ p.enlivened := by
  intro id hid
  obtain ⟨i, hi, hid⟩ := List.mem_flatMap.mp hid
  obtain ⟨earlier, hadmits, hearlier⟩ := hchecks.admits_enlivened i hi
  have hlife : i.isLifecycle = false := Instruction.works_of_mem_receivers hid
  obtain ⟨v, hv, hactive⟩ := hadmits.used hlife id (i.receivers_subset hid)
  obtain rfl := hp hv
  rcases hrole : v.role with - | -
  · exact List.mem_append_left _
      (List.mem_map_of_mem (mem_weights.mpr ⟨List.mem_of_getElem? hv, hrole⟩))
  · have hmem := hearlier (hactive hrole)
    rw [List.append_nil] at hmem
    exact List.mem_append_right _ hmem

end Program

/-! ### Sessions -/

namespace Session

variable {p : Program α} {config : Config α} {words : UInt64 → Nat → UInt32} {s₀ s s' : Session α}

/-- The session was reached by loads and forward sweeps, successful or failing,
and by training steps that succeeded. -/
inductive Trains (s₀ : Session α) : Session α → Prop
  /-- Nothing happened yet. -/
  | start : Trains s₀ s₀
  /-- The contents of a value were bound. -/
  | load {s : Session α} (before : Trains s₀ s) (id : ValueId) (t : Tensor α) :
      Trains s₀ ((load id t).after s)
  /-- A forward sweep was run. -/
  | forward {s : Session α} (before : Trains s₀ s) (train : Bool) :
      Trains s₀ ((forward train).after s)
  /-- A forward sweep outside training was run. -/
  | infer {s : Session α} (before : Trains s₀ s) : Trains s₀ (infer.after s)
  /-- A training step succeeded. -/
  | trainStep {s s' : Session α} (before : Trains s₀ s) (succeeds : trainStep s = .ok () s') :
      Trains s₀ s'

/-- Between calls, gradients are zero but for those of activations that come to
life. -/
structure Tidy (p : Program α) (s : Session α) : Prop where
  /-- The session runs the program. -/
  program : s.program = p
  /-- Gradients are zero. -/
  clean : s.context.Clean p.enlivened

theorem Tidy.forward (h : Tidy p s) (train : Bool) : Tidy p ((forward train).after s) := by
  rw [after_forward, h.program]
  exact ⟨rfl, h.clean.evolves (p.moves_forward train s.context) (List.Subset.refl _)⟩

/-- A forward sweep that succeeds leaves zeros. -/
theorem Tidy.clean_forward (h : Tidy p s) {train : Bool} (hrun : Session.forward train s = .ok () s') :
    s'.program = p ∧ s'.context.Clean [] := by
  have hprogram := (moves_forward train s).program
  rw [Run.after_of_ok hrun, h.program] at hprogram
  refine ⟨hprogram, ?_⟩
  rw [forward_apply, h.program, onContext] at hrun
  rcases hsweep : p.instructions.forM (·.forward train) s.context with ⟨_, c⟩ | ⟨e, c⟩
  · rw [hsweep] at hrun
    obtain ⟨-, rfl⟩ := EStateM.Result.ok.inj hrun
    exact Context.Clean.sweep (by rw [List.append_nil]; exact h.clean) hsweep
  · rw [hsweep] at hrun
    cases hrun

/-- So does a training step, up to activations. -/
theorem Tidy.trainStep (hcovered : p.receivers ⊆ p.weights.map (·.id) ++ p.enlivened)
    (h : Tidy p s) (hrun : Session.trainStep s = .ok () s') : Tidy p s' := by
  obtain ⟨_, s₁, hforward, hrun⟩ := Run.exists_of_bind_ok hrun
  obtain ⟨_, s₂, hbackward, hrun⟩ := Run.exists_of_bind_ok hrun
  obtain ⟨_, s₃, hlearn, hrun⟩ := Run.exists_of_bind_ok hrun
  obtain ⟨-, rfl⟩ := EStateM.Result.ok.inj hrun
  obtain ⟨hprogram, hclean⟩ := h.clean_forward hforward
  -- the backward sweep touches weights and activations that come to life
  have hclean₂ : s₂.program = p ∧ s₂.context.Clean (p.weights.map (·.id) ++ p.enlivened) := by
    rw [← Run.after_of_ok hbackward, after_backward, hprogram]
    exact ⟨rfl, (hclean.mono (List.nil_subset _)).evolves (p.moves_backward _ s₁.context) hcovered⟩
  -- the step of training cleans the weights
  rw [learn, hclean₂.1] at hlearn
  rcases hstep : Trainer.step p (s₂.trainer, s₂.context) with ⟨_, t, c⟩ | ⟨e, t, c⟩
  · rw [hstep] at hlearn
    obtain ⟨-, rfl⟩ := EStateM.Result.ok.inj hlearn
    exact ⟨rfl, Trainer.clean_step hclean₂.2 hstep⟩
  · rw [hstep] at hlearn
    cases hlearn

/-- A run of training is tidy at any time. -/
theorem Trains.tidy (hcovered : p.receivers ⊆ p.weights.map (·.id) ++ p.enlivened)
    (hrun : Trains s₀ s) (h : Tidy p s₀) : Tidy p s := by
  induction hrun with
  | start => exact h
  | @load s before id t ih =>
      rw [Session.load, after_onContext]
      exact ⟨ih.program, ih.clean.evolves (evolves_load id t s.context) (List.nil_subset _)⟩
  | forward before train ih => exact ih.forward train
  | infer before ih => exact ih.forward false
  | trainStep before succeeds ih => exact ih.trainStep hcovered succeeds

/-- **Gradients start clean.**  When a training step enters its backward sweep,
which is when its forward sweep succeeded, every gradient is zero. -/
theorem gradients_start_clean {values : List (Value α)} {instructions : List (Instruction α)}
    (hp : Program.ofParts values instructions = .ok p) (hs : begin p config words = .ok s₀)
    (hrun : Trains s₀ s) (hforward : Session.forward true s = .ok () s') :
    ∀ (id : ValueId) (g : Tensor α), s'.context.grads[id]? = some g → g.IsZero := by
  have hplaced := Program.placed_of_ofParts hp
  have hcovered := p.receivers_covered hplaced (Program.checks_of_verify (verify_of_begin hs))
  have hbegin : Tidy p s₀ := by
    refine ⟨(begin_fields hs).1, fun id _ g hg => ?_⟩
    rw [(begun_of_begin hplaced hs).grads id] at hg
    cases hg
  intro id g hg
  exact ((hrun.tidy hcovered hbegin).clean_forward hforward).2 id (by simp) g hg

/-- An input that is not trained and its copy. -/
def frozenCopy : Program Float32 where
  values :=
    [⟨0, "x", .float, ⟨[2]⟩, .weight, false, .zero⟩, ⟨1, "y", .float, ⟨[2]⟩, .activation, false, .zero⟩]
  instructions := [.alloc 1, .copy ⟨1, 0⟩]

/-- After a training step, a load that fails and inference, a training step
starts from zeros. -/
theorem gradients_start_clean_frozenCopy : ∃ s₀ s s', begin frozenCopy .default = .ok s₀ ∧
    Trains s₀ s ∧ Session.forward true s = .ok () s' ∧
    ∀ (id : ValueId) (g : Tensor Float32), s'.context.grads[id]? = some g → g.IsZero := by
  have hp : Program.ofParts frozenCopy.values frozenCopy.instructions = .ok frozenCopy := rfl
  obtain ⟨s₀, hbegin, s₁, htrain, s', hforward⟩ :
      ∃ s₀, begin frozenCopy .default = .ok s₀ ∧ ∃ s₁, Session.trainStep s₀ = .ok () s₁ ∧
        ∃ s', Session.forward true (infer.after ((load 0 (.zeros .index ⟨[3]⟩)).after s₁))
          = .ok () s' := ⟨_, rfl, _, rfl, _, rfl⟩
  have hrun : Trains s₀ (infer.after ((load 0 (.zeros .index ⟨[3]⟩)).after s₁)) :=
    ((Trains.start.trainStep htrain).load 0 _).infer
  exact ⟨s₀, _, s', hbegin, hrun, hforward, gradients_start_clean hp hbegin hrun hforward⟩

end Session

end TensorProgram
