/-
TensorProgram/Proofs/Session/Independence.lean

Activations carry nothing from one sweep to the next.  Two sessions of a
constructed program that agree on weights, on gradients of weights and on
momentum buffers end a sweep or a training step alike and agree again,
whatever activations they had bound; if the call succeeds, they agree on all
activations too (`Session.activations_carry_nothing`).  Nothing is asked of the
scalar operations, so this holds bit for bit.
-/
import TensorProgram.Proofs.Program.Lockstep
import TensorProgram.Proofs.Session.Safety

namespace TensorProgram

variable {α : Type}

open Context (Agree)
open Run (Alike)

/-! ### The training step on two states -/

namespace Trainer

/-- Two states have one trainer and agree on the values of `W`. -/
structure Same (W : ValueId → Prop) (s t : State α) : Prop where
  /-- The trainers are equal. -/
  trainer : t.1 = s.1
  /-- The contexts agree. -/
  agree : Agree W W s.2 t.2

variable [Scalar α] {W : ValueId → Prop} {p : Program α} {s t : State α} {id : ValueId}

omit [Scalar α] in
theorem Same.setWeight {trainer : Trainer α} {c d : Context α} (h : Agree W W c d)
    (w : Tensor α) : Same W (trainer, c.setWeight id w) (trainer, d.setWeight id w) :=
  ⟨rfl, (h.setWeight id w).mono (fun _ hj => .inl hj) fun _ hj => hj⟩

theorem alike_moveWeight (hid : W id) (grad : View α) (h : Same W s t) :
    Alike (Same W) (Same W) (moveWeight id grad s) (moveWeight id grad t) := by
  obtain ⟨trainer, c⟩ := s
  obtain ⟨trainer', d⟩ := t
  obtain rfl : trainer' = trainer := h.trainer
  have hsame : Same W (trainer', c) (trainer', d) := h
  have hweight : d.weight id = c.weight id := by
    rw [Context.weight, Context.weight, show d.weights[id]? = _ from h.agree.weights id hid]
  -- both runs read one weight and one buffer, so they compute the same
  rw [moveWeight, moveWeight, writeWeight, writeWeight, hweight]
  rcases hw : c.weight id with e | w
  · split <;> exact .error hsame
  · split
    · rcases hr : descendWith trainer'.config grad (w, trainer'.bufferOrZeros id w)
        with ⟨_, q⟩ | ⟨e, q⟩
      · simp only [hr]
        exact .ok (.setWeight h.agree q.1)
      · simp only [hr]
        exact .error (.setWeight h.agree q.1)
    · rcases hr : descend trainer'.config grad w with ⟨_, w'⟩ | ⟨e, w'⟩
      · simp only [hr]
        exact .ok (.setWeight h.agree w')
      · simp only [hr]
        exact .error (.setWeight h.agree w')

theorem alike_moveIfNeeded (hid : W id) (h : Same W s t) :
    Alike (Same W) (Same W) ((moveIfNeeded id : Run (State α) Unit) s)
      ((moveIfNeeded id : Run (State α) Unit) t) := by
  have hgrad : t.2.grads[id]? = s.2.grads[id]? := h.agree.grads id hid
  rw [moveIfNeeded, Run.get_bind_apply, Run.get_bind_apply]
  dsimp only
  rw [hgrad]
  rcases hg : s.2.grads[id]? with - | g
  · exact .ok h
  · dsimp only
    rcases hview : g.floats with e | grad
    · exact .error h
    · simp only [Run.liftM_check_ok, pure_bind]
      exact alike_moveWeight hid grad h

theorem agree_clearGrads {c d : Context α} (h : Agree W W c d) (vs : List (Value α)) :
    Agree W W (vs.foldl (fun c v => clearGrad c v.id) c)
      (vs.foldl (fun c v => clearGrad c v.id) d) := by
  obtain ⟨hweights, -, hgrads⟩ := clearGrads_fields vs c
  obtain ⟨hweights', -, hgrads'⟩ := clearGrads_fields vs d
  refine ⟨fun id hid => ?_, fun id hid => ?_⟩
  · rw [hweights, hweights', h.weights id hid]
  · rw [hgrads, hgrads', h.grads id hid]

/-- The training step ends alike on states that agree on the weights. -/
theorem alike_step (hW : ∀ v ∈ p.weights, W v.id) (h : Same W s t) :
    Alike (Same W) (Same W) (step p s) (step p t) := by
  have hmoves : Alike (Same W) (Same W)
      ((p.trainable.forM fun v => moveIfNeeded v.id : Run (State α) Unit) s)
      ((p.trainable.forM fun v => moveIfNeeded v.id : Run (State α) Unit) t) := by
    refine Run.alike_forM (fun v hv s' t' hst => ?_) h
    exact alike_moveIfNeeded (hW v (Program.mem_weights_of_mem_trainable hv)) hst
  exact hmoves.bind fun _ _ _ hst => .ok ⟨hst.trainer, agree_clearGrads hst.agree _⟩

end Trainer

/-! ### Constructed programs -/

namespace Program

variable {p : Program α} {id : ValueId}

/-- The value lives for the whole session. -/
def IsWeight (p : Program α) (id : ValueId) : Prop := id ∈ p.weights.map (·.id)

/-- The value is declared. -/
def IsValue (p : Program α) (id : ValueId) : Prop := id ∈ p.values.map (·.id)

theorem isValue_of_isWeight (h : p.IsWeight id) : p.IsValue id := by
  obtain ⟨v, hv, rfl⟩ := List.mem_map.mp h
  exact List.mem_map_of_mem (mem_weights.mp hv).1

/-- The operands of a sound program are declared. -/
theorem Sound.isValue_of_operand (hp : p.Sound) {i : Instruction α} (hi : i ∈ p.instructions)
    (hid : id ∈ i.operands.map Prod.fst) : p.IsValue id := by
  obtain ⟨earlier, h⟩ := hp.checks.admits i hi
  obtain ⟨v, hv⟩ : ∃ v, p.values[id]? = some v := by
    rcases hlife : i.isLifecycle with - | -
    · obtain ⟨v, hv, -⟩ := h.used hlife id hid
      exact ⟨v, hv⟩
    · obtain ⟨v, hv, -⟩ := h.lives hlife id hid
      exact ⟨v, hv⟩
  rw [IsValue, ← hp.placed hv]
  exact List.mem_map_of_mem (List.mem_of_getElem? hv)

/-- In a grown program a declared value is a weight, or it is an activation that
is brought to life and written. -/
theorem Grown.isWeight_or (h : Grown p.values p.instructions) (hid : p.IsValue id) :
    p.IsWeight id ∨ id ∈ p.instructions.flatMap (·.outputs) ∧
      id ∈ p.instructions.flatMap (·.enlivened) := by
  obtain ⟨v, hv, rfl⟩ := List.mem_map.mp hid
  rcases hrole : v.role with - | -
  · exact .inl (List.mem_map_of_mem (mem_weights.mpr ⟨hv, hrole⟩))
  · exact .inr (h.covers v hv hrole).symm

/-- No instruction of a grown program overwrites a weight. -/
theorem Grown.notMem_outputs (h : Grown p.values p.instructions) (hid : p.IsWeight id) :
    id ∉ p.instructions.flatMap (·.outputs) := by
  intro hout
  obtain ⟨v, hv, rfl⟩ := List.mem_map.mp hid
  obtain ⟨i, hi, hout⟩ := List.mem_flatMap.mp hout
  have hlife : i.isLifecycle = false := Instruction.works_of_mem_outputs hout
  obtain ⟨n, outs, hext, houts⟩ := h.extends i hi hlife
  obtain ⟨u, hu, huid, hactive⟩ := houts v.id (hext.outputs ▸ hout)
  exact h.placed.activation_ne hu hactive hv huid

end Program

namespace Session

/-- Two sessions agree on weights, on gradients of weights and on momentum
buffers. -/
structure SameWeights (p : Program α) (s t : Session α) : Prop where
  /-- The weights. -/
  weights : ∀ v ∈ p.weights, t.context.weights[v.id]? = s.context.weights[v.id]?
  /-- Their gradients. -/
  grads : ∀ v ∈ p.weights, t.context.grads[v.id]? = s.context.grads[v.id]?
  /-- The momentum buffers. -/
  buffers : t.trainer.buffers = s.trainer.buffers

/-- Two sessions agree on activations and on their gradients. -/
structure SameActivations (p : Program α) (s t : Session α) : Prop where
  /-- The activations. -/
  weights : ∀ v ∈ p.values, v.role = .activation →
    t.context.weights[v.id]? = s.context.weights[v.id]?
  /-- Their gradients. -/
  grads : ∀ v ∈ p.values, v.role = .activation →
    t.context.grads[v.id]? = s.context.grads[v.id]?

variable {p : Program α} {s t : Session α} {W : ValueId → Prop}

/-- Two sessions of one program and configuration have one trainer and agree on
the values of `W`. -/
structure Matches (p : Program α) (config : Config α) (W : ValueId → Prop) (s t : Session α) :
    Prop where
  /-- The program of the first. -/
  left : s.program = p ∧ s.config = config
  /-- The program of the second. -/
  right : t.program = p ∧ t.config = config
  /-- The trainers are equal. -/
  trainer : t.trainer = s.trainer
  /-- The contexts agree. -/
  agree : Agree W W s.context t.context

variable {config : Config α}

theorem Matches.sameWeights (h : Matches p config W s t) (hW : ∀ id, p.IsWeight id → W id) :
    SameWeights p s t where
  weights v hv := h.agree.weights v.id (hW _ (List.mem_map_of_mem hv))
  grads v hv := h.agree.grads v.id (hW _ (List.mem_map_of_mem hv))
  buffers := by rw [h.trainer]

theorem Matches.sameActivations (h : Matches p config p.IsValue s t) : SameActivations p s t where
  weights v hv _ := h.agree.weights v.id (List.mem_map_of_mem hv)
  grads v hv _ := h.agree.grads v.id (List.mem_map_of_mem hv)

/-- Sessions whose contexts were exchanged match where the new contexts agree. -/
theorem Matches.exchanged {W' : ValueId → Prop} {s' t' : Session α} (h : Matches p config W s t)
    (hs : s' = { s with context := s'.context }) (ht : t' = { t with context := t'.context })
    (hagree : Agree W' W' s'.context t'.context) : Matches p config W' s' t' where
  left := by rw [hs]; exact h.left
  right := by rw [ht]; exact h.right
  trainer := by rw [hs, ht]; exact h.trainer
  agree := hagree

/-- Calls on the contexts of two sessions. -/
theorem alike_onContext {β : Type} {f : Run (Context α) β} {R E : Context α → Context α → Prop}
    (hf : Alike R E (f s.context) (f t.context)) :
    Alike (fun s' t' => R s'.context t'.context ∧ s' = { s with context := s'.context } ∧
        t' = { t with context := t'.context })
      (fun s' t' => E s'.context t'.context ∧ s' = { s with context := s'.context } ∧
        t' = { t with context := t'.context })
      (Session.onContext f s) (Session.onContext f t) := by
  rw [Session.onContext, Session.onContext]
  generalize f s.context = x at hf
  generalize f t.context = y at hf
  cases hf with
  | ok related => exact .ok ⟨related, rfl, rfl⟩
  | error related => exact .error ⟨related, rfl, rfl⟩

variable [Scalar α]

/-- Two forward sweeps end alike. -/
theorem Matches.forward (hp : p.Sound) (hgrown : Program.Grown p.values p.instructions)
    (h : Matches p config p.IsWeight s t) (hs : Guarded p s) (ht : Guarded p t) (train : Bool) :
    ∃ later, Alike
      (fun s' t' => Matches p config p.IsValue s' t' ∧
        p.Paired later p.instructions.reverse p.IsValue p.IsValue s'.context t'.context)
      (Matches p config p.IsWeight) (Session.forward train s) (Session.forward train t) := by
  have hfed : Program.Fed (p.weights.map (·.id)) p.instructions := hgrown.fed
  obtain ⟨later, hsweep⟩ := hp.checks.lockstep hfed hp.placed hp.separate
    (fun i hi j hj => hp.spares i hi j (by simpa using hj)) ⟨hs.swept, ht.swept, h.agree⟩ train
  refine ⟨later, ?_⟩
  rw [forward_apply, forward_apply, h.left.1, h.right.1]
  rw [List.append_nil] at hsweep
  refine (alike_onContext hsweep).mono ?_ ?_
  · rintro s' t' ⟨hpaired, hs', ht'⟩
    have hagree : Agree p.IsValue p.IsValue s'.context t'.context := by
      refine hpaired.agree.mono (fun id hid => ?_) fun id hid => ?_
      · exact (hgrown.isWeight_or hid).imp_right And.left
      · exact (hgrown.isWeight_or hid).imp_right And.right
    exact ⟨h.exchanged hs' ht' hagree, hpaired.left, hpaired.right, hagree⟩
  · -- no instruction has a weight among its outputs, so a sweep that fails keeps them
    rintro s' t' ⟨hagree, hs', ht'⟩
    exact h.exchanged hs' ht' (hagree.mono (fun id hid => ⟨hid, hgrown.notMem_outputs hid⟩)
      fun _ hid => hid)

/-- Two backward sweeps end alike after forward sweeps that did. -/
theorem Matches.backward (hp : p.Sound) (h : Matches p config p.IsValue s t)
    {later : List ValueId}
    (hpaired : p.Paired later p.instructions.reverse p.IsValue p.IsValue s.context t.context) :
    Alike (Matches p config p.IsValue) (Matches p config p.IsValue) (Session.backward s)
      (Session.backward t) := by
  have hsweep := Program.Swept.backward_alike hpaired config (fun i hi => hi)
    (fun i hi => hp.separate i (List.mem_reverse.mp hi))
    fun i hi id hid => hp.isValue_of_operand (List.mem_reverse.mp hi) hid
  rw [backward_apply, backward_apply, h.left.1, h.right.1, h.left.2, h.right.2]
  exact (alike_onContext hsweep).mono (fun _ _ ⟨hagree, hs', ht'⟩ => h.exchanged hs' ht' hagree)
    fun _ _ ⟨hagree, hs', ht'⟩ => h.exchanged hs' ht' hagree

/-- Learning ends alike. -/
theorem Matches.learn (h : Matches p config W s t) (hW : ∀ id, p.IsWeight id → W id) :
    Alike (Matches p config W) (Matches p config W) (Session.learn s) (Session.learn t) := by
  have hstep := Trainer.alike_step (p := p) (fun v hv => hW v.id (List.mem_map_of_mem hv))
    (show Trainer.Same W (s.trainer, s.context) (t.trainer, t.context) from ⟨h.trainer, h.agree⟩)
  rw [Session.learn, Session.learn, h.left.1, h.right.1]
  generalize Trainer.step p (s.trainer, s.context) = x at hstep
  generalize Trainer.step p (t.trainer, t.context) = y at hstep
  cases hstep with
  | ok related => exact .ok ⟨⟨rfl, h.left.2⟩, ⟨rfl, h.right.2⟩, related.trainer, related.agree⟩
  | error related => exact .error ⟨⟨rfl, h.left.2⟩, ⟨rfl, h.right.2⟩, related.trainer, related.agree⟩

/-- Two training steps end alike. -/
theorem Matches.trainStep (hp : p.Sound) (hgrown : Program.Grown p.values p.instructions)
    (h : Matches p config p.IsWeight s t) (hs : Guarded p s) (ht : Guarded p t) :
    Alike (Matches p config p.IsValue) (Matches p config p.IsWeight) (Session.trainStep s)
      (Session.trainStep t) := by
  obtain ⟨later, hforward⟩ := h.forward hp hgrown hs ht true
  have hweights : ∀ s' t', Matches p config p.IsValue s' t' → Matches p config p.IsWeight s' t' :=
    fun _ _ h' => ⟨h'.left, h'.right, h'.trainer,
      h'.agree.mono (fun _ => Program.isValue_of_isWeight) fun _ => Program.isValue_of_isWeight⟩
  refine hforward.bind fun _ s₁ t₁ h₁ => ?_
  refine ((h₁.1.backward hp h₁.2).mono (fun _ _ h' => h') hweights).bind fun _ s₂ t₂ h₂ => ?_
  refine ((h₂.learn fun _ => Program.isValue_of_isWeight).mono (fun _ _ h' => h')
    hweights).bind fun _ s₃ t₃ h₃ => ?_
  exact .ok ⟨h₃.left, h₃.right, h₃.trainer, h₃.agree⟩

/-- **Activations carry nothing.**  Two sessions of a constructed program, after
any calls, that agree on weights, on gradients of weights and on momentum
buffers infer and train alike and agree again.  If the call succeeds they agree
on activations as well. -/
theorem activations_carry_nothing {b : Builder α} (hb : b.Constructed) (hp : b.build = .ok p)
    (hs : begin p config words = .ok s) (calls calls' : List (Call α))
    (h : SameWeights p (s.performAll calls) (s.performAll calls')) {call : Call α}
    (hcall : call = .infer ∨ call = .trainStep) :
    Alike (fun s' t' => SameWeights p s' t' ∧ SameActivations p s' t') (SameWeights p)
      (perform call (s.performAll calls)) (perform call (s.performAll calls')) := by
  obtain ⟨_, hverify, hp⟩ := Except.bind_eq_ok.mp hp
  obtain rfl := Except.ok.inj hp
  have hgrown : Program.Grown b.program.values b.program.instructions := hb.grown
  have hsound := hgrown.sound hverify
  have hguarded (calls : List (Call α)) : Guarded b.program (s.performAll calls) :=
    (guarded_begin hsound.placed hs).performAll hsound calls
  obtain ⟨hprogram, hconfig, -⟩ := begin_fields hs
  have hfields (calls : List (Call α)) : (s.performAll calls).program = b.program ∧
      (s.performAll calls).config = config :=
    ⟨(hguarded calls).program, (continues_performAll s calls).config.trans hconfig⟩
  have hmatches : Matches b.program config b.program.IsWeight (s.performAll calls)
      (s.performAll calls') := by
    refine ⟨hfields calls, hfields calls', ?_, fun id hid => ?_, fun id hid => ?_⟩
    · -- the parameters of training are those the session began with
      have htraining : (s.performAll calls').trainer.config = (s.performAll calls).trainer.config :=
        (continues_performAll s calls').training.trans
          (continues_performAll s calls).training.symm
      have hbuffers := h.buffers
      generalize (s.performAll calls').trainer = x at htraining hbuffers
      generalize (s.performAll calls).trainer = y at htraining hbuffers
      cases x
      cases y
      cases htraining
      cases hbuffers
      rfl
    · obtain ⟨v, hv, rfl⟩ := List.mem_map.mp hid
      exact h.weights v hv
    · obtain ⟨v, hv, rfl⟩ := List.mem_map.mp hid
      exact h.grads v hv
  have hgood : ∀ s' t', Matches b.program config b.program.IsValue s' t' →
      SameWeights b.program s' t' ∧ SameActivations b.program s' t' := fun _ _ h' =>
    ⟨h'.sameWeights fun _ => Program.isValue_of_isWeight, h'.sameActivations⟩
  rcases hcall with rfl | rfl
  · obtain ⟨later, hforward⟩ :=
      hmatches.forward hsound hgrown (hguarded calls) (hguarded calls') false
    exact hforward.mono (fun s' t' h' => hgood s' t' h'.1) fun _ _ h' => h'.sameWeights fun _ h => h
  · exact (hmatches.trainStep hsound hgrown (hguarded calls) (hguarded calls')).mono hgood
      fun _ _ h' => h'.sameWeights fun _ h => h

/-- An input and its copy. -/
def copiedInput : Builder Float32 :=
  (Builder.step {} (.layer "x" (.input .float ⟨[2]⟩))).step (.layer "y" (.copy 0))

/-- A session that inferred before and one that did not train alike. -/
theorem activations_carry_nothing_copiedInput :
    ∃ s, begin copiedInput.program .default = .ok s ∧
      Alike (fun s' t' => SameWeights copiedInput.program s' t' ∧
          SameActivations copiedInput.program s' t') (SameWeights copiedInput.program)
        (perform .trainStep (s.performAll [.infer])) (perform .trainStep (s.performAll [])) := by
  have hb : copiedInput.Constructed := by
    refine .step (.step .empty ?_) ?_
    · simp [Builder.Step.Scoped, Layer.arguments]
    · intro id hid
      obtain rfl := List.mem_singleton.mp hid
      decide
  have hs : begin copiedInput.program .default = .ok _ := rfl
  refine ⟨_, hs, activations_carry_nothing hb rfl hs [.infer] [] ⟨?_, ?_, rfl⟩ (.inr rfl)⟩
  · intro v hv
    obtain rfl := List.mem_singleton.mp (show v ∈ [_] from hv)
    rfl
  · intro v hv
    obtain rfl := List.mem_singleton.mp (show v ∈ [_] from hv)
    rfl

end Session

end TensorProgram
