/-
TensorProgram/Proofs/Training.lean

The training step succeeds.  It asks that trainable weights are bound, that
bindings and momentum buffers fit, and that a trainable weight with a gradient
is one of scalars (`Trainer.Prepared`).  Moving a weight keeps this and touches
no gradient, so the loop over the weights goes through, and the step as a whole
makes no gradient that was not there (`Trainer.step_ok`).
-/
import TensorProgram.Proofs.Session.Evolution

namespace TensorProgram

variable {α : Type}

namespace Trainer

/-- What the training step asks of the state. -/
structure Prepared (p : Program α) (s : State α) : Prop extends Ready p s where
  /-- Trainable weights are bound. -/
  bound : ∀ v ∈ p.trainable, (s.2.weights[v.id]?).isSome
  /-- A trainable weight with a gradient is one of scalars. -/
  floats : ∀ v ∈ p.trainable, (s.2.grads[v.id]?).isSome → v.kind = .float

/-- It survives an advance that keeps the gradients. -/
theorem Prepared.of_advances {p : Program α} {s s' : State α} (h : Prepared p s)
    (hs : Advances p s s') (hgrads : s'.2.grads = s.2.grads) : Prepared p s' where
  declared v hv := (congrArg (·[v.id]?) hs.context.declared).trans (h.declared v hv)
  typed := hs.context.typed h.typed
  buffers := hs.ready h.toReady
  bound v hv := hs.context.weightBound (h.bound v hv)
  floats v hv hgrad := h.floats v hv (hgrads ▸ hgrad)

variable [Scalar α] {p : Program α} {grad : View α}

/-- A weight after a step without momentum. -/
def descended (config : TrainingConfig α) (grad w : View α) : View α :=
  ⟨w.shape, applyWrites (fun x step => x - step) (pointwise grad.size fun k =>
    config.learningRate * config.slope (w.entry k) (grad.entry k)) w.data⟩

/-- The step of every element with momentum, after the previous steps. -/
def steps (config : TrainingConfig α) (grad w previous : View α) : List (Nat × α) :=
  pointwise grad.size fun k => config.stepWith (previous.entry k) (w.entry k) (grad.entry k)

/-- A weight after a step with momentum. -/
def carried (config : TrainingConfig α) (grad w previous : View α) : View α :=
  ⟨w.shape, applyWrites accumulate (steps config grad w previous) w.data⟩

/-- The buffer after it. -/
def buffered (config : TrainingConfig α) (grad w previous : View α) : View α :=
  ⟨previous.shape, applyWrites overwrite (steps config grad w previous) previous.data⟩

/-- Without momentum a weight with the size of its gradient moves. -/
theorem descend_eq (config : TrainingConfig α) {w : View α} (hw : w.size = grad.size) :
    descend config grad w.tensor = .ok () (descended config grad w).tensor := by
  refine Tensor.onFloats_of_ok ((performs_pointwise (fun k hk => ?_)
    (Nat.le_of_eq hw.symm)).run w.data)
  rw [View.raw_eq (View.mk w.shape w.data) (Nat.lt_of_lt_of_eq hk hw.symm), Except.ok_bind,
    View.raw_eq grad hk, Except.ok_bind]
  rfl

/-- With momentum a weight and a buffer with the size of its gradient move. -/
theorem descendWith_eq (config : TrainingConfig α) {w previous : View α}
    (hw : w.size = grad.size) (hprevious : previous.size = grad.size) :
    descendWith config grad (w.tensor, previous.tensor) = .ok ()
      ((carried config grad w previous).tensor, (buffered config grad w previous).tensor) := by
  have hstep {n : Nat} (hn : n = grad.size) {combine : α → α → α} :
      Run.Performs combine (scatter combine (List.range grad.size) atPosition (fun k => do
        return config.stepWith (← previous.raw k) (← w.raw k) (← grad.raw k)) :
        Run (Vector α n) Unit) (steps config grad w previous) := by
    refine performs_pointwise (fun k hk => ?_) (Nat.le_of_eq hn.symm)
    rw [View.raw_eq previous (Nat.lt_of_lt_of_eq hk hprevious.symm), Except.ok_bind,
      View.raw_eq w (Nat.lt_of_lt_of_eq hk hw.symm), Except.ok_bind, View.raw_eq grad hk,
      Except.ok_bind]
    rfl
  apply Tensor.onFloatPair_of_ok
  dsimp only
  -- the buffer is written first, and the weight by the same steps
  exact (Run.bind_of_ok (Run.onSnd_of_ok ((hstep hprevious).run previous.data))).trans
    (Run.onFst_of_ok ((hstep hw).run w.data))

/-- Without momentum a weight moves alone. -/
theorem moveWeight_plain {id : ValueId} {trainer : Trainer α} {ctx : Context α} {w : View α}
    (hm : Scalar.lt 0 trainer.config.momentum = false) (hw : ctx.weights[id]? = some w.tensor)
    (hsize : w.size = grad.size) : moveWeight id grad (trainer, ctx)
      = .ok () (trainer, ctx.setWeight id (descended trainer.config grad w).tensor) := by
  rw [moveWeight, writeWeight, Context.weight_eq hw]
  simp only [hm, descend_eq trainer.config hsize, Bool.false_eq_true, if_false]

/-- With momentum it moves together with its buffer. -/
theorem moveWeight_momentum {id : ValueId} {trainer : Trainer α} {ctx : Context α}
    {w previous : View α} (hm : Scalar.lt 0 trainer.config.momentum = true)
    (hw : ctx.weights[id]? = some w.tensor) (hsize : w.size = grad.size)
    (hbuffer : trainer.bufferOrZeros id w.tensor = previous.tensor)
    (hprevious : previous.size = grad.size) : moveWeight id grad (trainer, ctx) = .ok ()
      ({ trainer with
          buffers := trainer.buffers.insert id (buffered trainer.config grad w previous).tensor },
        ctx.setWeight id (carried trainer.config grad w previous).tensor) := by
  rw [moveWeight, Context.weight_eq hw]
  simp only [hm, hbuffer, descendWith_eq trainer.config hsize hprevious, if_true]

/-- A trainable weight of scalars moves, and all gradients stay. -/
theorem moveWeight_ok {v : Value α} (hv : v ∈ p.trainable) {s : State α} (h : Prepared p s)
    (hfloat : v.kind = .float) (hshape : grad.shape = v.shape) :
    ∃ s', moveWeight v.id grad s = .ok () s' ∧ s'.2.grads = s.2.grads := by
  obtain ⟨trainer, ctx⟩ := s
  obtain ⟨w, hw⟩ := Option.isSome_iff_exists.mp (h.bound v hv)
  have hdecl : v.declaration = ⟨.float, grad.shape⟩ := by rw [Value.declaration, hfloat, hshape]
  have hfits : w.declaration = v.declaration := h.typed.weight (h.declared v hv) hw
  obtain ⟨data, rfl⟩ := Tensor.eq_float (hfits.trans hdecl)
  have hview : ctx.weights[v.id]? = some (View.mk grad.shape data).tensor := hw
  cases hm : Scalar.lt 0 trainer.config.momentum with
  | true =>
      have hbuffer := declaration_bufferOrZeros hv h.toReady hfloat hw
      rw [← hshape] at hbuffer
      obtain ⟨buffer, hbuffer⟩ := Tensor.eq_float hbuffer
      have hprevious : trainer.bufferOrZeros v.id (View.mk grad.shape data).tensor
          = (View.mk grad.shape buffer).tensor := hbuffer
      exact ⟨_, moveWeight_momentum hm hview rfl hprevious rfl, rfl⟩
  | false => exact ⟨_, moveWeight_plain hm hview rfl, rfl⟩

/-- A trainable weight moves if it has a gradient. -/
theorem moveIfNeeded_ok {v : Value α} (hv : v ∈ p.trainable) {s : State α} (h : Prepared p s) :
    ∃ s', moveIfNeeded v.id s = .ok () s' ∧ s'.2.grads = s.2.grads := by
  rw [moveIfNeeded, Run.get_bind_apply]
  rcases hg : s.2.grads[v.id]? with - | g
  · simp only [hg]
    exact ⟨s, rfl, rfl⟩
  · have hfloat : v.kind = .float := h.floats v hv (by rw [hg]; rfl)
    have hfits : g.declaration = ⟨.float, v.shape⟩ := by
      rw [← hfloat]
      exact h.typed.grad (h.declared v hv) hg
    obtain ⟨data, rfl⟩ := Tensor.eq_float hfits
    have hview : (⟨v.shape, .float data⟩ : Tensor α).floats = .ok ⟨v.shape, data⟩ := rfl
    simp only [hg, hview, Run.liftM_check_ok, pure_bind]
    exact moveWeight_ok hv h hfloat rfl

/-- All trainable weights move. -/
theorem forM_moveIfNeeded_ok {vs : List (Value α)} (hvs : ∀ v ∈ vs, v ∈ p.trainable)
    {s : State α} (h : Prepared p s) :
    ∃ s', vs.forM (fun v => moveIfNeeded v.id) s = .ok () s' ∧ s'.2.grads = s.2.grads := by
  induction vs generalizing s with
  | nil => exact ⟨s, rfl, rfl⟩
  | cons v vs ih =>
      have hv : v ∈ p.trainable := hvs v (by simp)
      obtain ⟨s', hs', hgrads⟩ := moveIfNeeded_ok hv h
      have hadvances : Advances p s s' := Run.after_of_ok hs' ▸ moves_moveIfNeeded hv s
      obtain ⟨s'', hs'', hgrads'⟩ :=
        ih (fun u hu => hvs u (by simp [hu])) (h.of_advances hadvances hgrads)
      rw [Run.forM_cons, Run.bind_of_ok hs']
      exact ⟨s'', hs'', hgrads'.trans hgrads⟩

/-- Resetting gradients makes none. -/
theorem isSome_clearGrads (vs : List (Value α)) (ctx : Context α) (id : ValueId) :
    ((vs.foldl (fun ctx v => clearGrad ctx v.id) ctx).grads[id]?).isSome
      = (ctx.grads[id]?).isSome := by
  rw [(clearGrads_fields vs ctx).2.2 id]
  split
  · exact Option.isSome_map
  · rfl

/-- **The training step succeeds**, and the values with a gradient stay the
same. -/
theorem step_ok {s : State α} (h : Prepared p s) : ∃ s', step p s = .ok () s' ∧
    ∀ id : ValueId, (s'.2.grads[id]?).isSome = (s.2.grads[id]?).isSome := by
  obtain ⟨s', hs', hgrads⟩ := forM_moveIfNeeded_ok (fun v hv => hv) h
  rw [step, Run.bind_of_ok hs']
  refine ⟨_, rfl, fun id => ?_⟩
  rw [← hgrads]
  exact isSome_clearGrads p.weights s'.2 id

end Trainer

end TensorProgram
