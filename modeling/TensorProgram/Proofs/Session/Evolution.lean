/-
TensorProgram/Proofs/Session/Evolution.lean

What a call on a session can change.  No call changes the program or the
parameters, none unbinds a tensor, and all keep the bindings that fit their
declarations (`Session.moves_perform`).  The momentum buffers belong to the
training step alone; one step keeps every buffer a tensor of scalars with the
shape of its weight (`Trainer.moves_step`).
-/
import TensorProgram.Session
import TensorProgram.Proofs.Program.Values

namespace TensorProgram

variable {α : Type}

open Context (Evolves Keeps)
open Run (Moves)

namespace Program

variable [Scalar α] (p : Program α)

/-- A forward sweep changes what the instructions are listed to write. -/
theorem moves_forward (train : Bool) :
    Moves (Evolves p.written p.enlivened) (p.instructions.forM (·.forward train)) := by
  refine .forM fun i hi ctx => (i.moves_forward train ctx).mono ?_ ?_
  · exact fun id hid => List.mem_flatMap.mpr ⟨i, hi, hid⟩
  · exact fun id hid => List.mem_flatMap.mpr ⟨i, hi, hid⟩

/-- A backward sweep changes the gradients of the receivers. -/
theorem moves_backward (config : Config α) :
    Moves (Evolves [] p.receivers) (p.instructions.reverse.forM (·.backward config)) := by
  refine .forM fun i hi ctx => (i.moves_backward config ctx).mono (List.nil_subset _) ?_
  exact fun id hid => List.mem_flatMap.mpr ⟨i, List.mem_reverse.mp hi, hid⟩

end Program

/-! ### The training step -/

namespace Trainer

/-- Every momentum buffer belongs to a trainable weight and is a buffer of
scalars of its shape. -/
def Fits (p : Program α) (trainer : Trainer α) : Prop :=
  ∀ ⦃id : ValueId⦄ ⦃t : Tensor α⦄, trainer.buffers[id]? = some t →
    ∃ v ∈ p.trainable, v.id = id ∧ t.declaration = ⟨.float, v.shape⟩

/-- The trainable weights are declared, and the tensors fit what is declared. -/
structure Ready (p : Program α) (s : State α) : Prop where
  /-- Trainable weights are declared. -/
  declared : ∀ v ∈ p.trainable, s.2.declared[v.id]? = some v.declaration
  /-- Bindings fit. -/
  typed : s.2.Typed
  /-- Buffers fit. -/
  buffers : Fits p s.1

/-- How a part of the training step changes the state: parameters stay, only the
weights that are trained change, only the gradients of weights change, and
buffers that fit still do. -/
structure Advances (p : Program α) (s s' : State α) : Prop where
  /-- The parameters stay. -/
  config : s'.1.config = s.1.config
  /-- The context evolves. -/
  context : Evolves (p.trainable.map (·.id)) (p.weights.map (·.id)) s.2 s'.2
  /-- Buffers still fit. -/
  ready : Ready p s → Fits p s'.1

variable {p : Program α}

theorem Advances.refl (s : State α) : Advances p s s := ⟨rfl, .refl _ _ _, fun h => h.buffers⟩

theorem Advances.trans {s s' s'' : State α} (h : Advances p s s') (h' : Advances p s' s'') :
    Advances p s s'' where
  config := h'.config.trans h.config
  context := h.context.trans h'.context
  ready hs := by
    refine h'.ready ⟨fun v hv => ?_, h.context.typed hs.typed, h.ready hs⟩
    rw [h.context.declared]
    exact hs.declared v hv

instance : Std.Refl (Advances p) := ⟨Advances.refl⟩

instance : Trans (Advances p) (Advances p) (Advances p) := ⟨Advances.trans⟩

/-- A step that binds an alike weight and keeps the buffers. -/
theorem advances_setWeight {v : Value α} (hv : v ∈ p.trainable) {trainer : Trainer α}
    {ctx : Context α} {w w' : Tensor α} (hw : ctx.weights[v.id]? = some w)
    (halike : Tensor.Alike w w') :
    Advances p (trainer, ctx) (trainer, ctx.setWeight v.id w') where
  config := rfl
  context := Context.evolves_setWeight (List.mem_map_of_mem hv)
    fun hc _ hd => halike.trans (hc.weight hd hw)
  ready h := h.buffers

/-- A step that binds an alike weight and a buffer of scalars of its shape. -/
theorem advances_setBuffer {v : Value α} (hv : v ∈ p.trainable) {trainer : Trainer α}
    {ctx : Context α} {w w' b : Tensor α} (hw : ctx.weights[v.id]? = some w)
    (halike : Tensor.Alike w w')
    (hb : Ready p (trainer, ctx) → b.declaration = ⟨.float, v.shape⟩) :
    Advances p (trainer, ctx)
      ({ trainer with buffers := trainer.buffers.insert v.id b }, ctx.setWeight v.id w') where
  config := rfl
  context := Context.evolves_setWeight (List.mem_map_of_mem hv)
    fun hc _ hd => halike.trans (hc.weight hd hw)
  ready h := by
    intro id t ht
    by_cases hid : v.id = id
    · rw [Std.ExtTreeMap.getElem?_insert, if_pos (by simpa using hid)] at ht
      obtain rfl := Option.some.inj ht
      exact ⟨v, hv, hid, hb h⟩
    · rw [Std.ExtTreeMap.getElem?_insert, if_neg (by simpa using hid)] at ht
      exact h.buffers ht

variable [Scalar α]

theorem moves_descend (config : TrainingConfig α) (grad : View α) :
    Moves Tensor.Alike (descend config grad) := Tensor.moves_onFloats _

theorem moves_descendWith (config : TrainingConfig α) (grad : View α) :
    Moves Tensor.AlikePair (descendWith config grad) := Tensor.moves_onFloatPair _

/-- The buffer that a weight moves with is one of scalars of its shape. -/
theorem declaration_bufferOrZeros {v : Value α} (hv : v ∈ p.trainable) {trainer : Trainer α}
    {ctx : Context α} (h : Ready p (trainer, ctx)) (hfloat : v.kind = .float) {w : Tensor α}
    (hw : ctx.weights[v.id]? = some w) :
    (trainer.bufferOrZeros v.id w).declaration = ⟨.float, v.shape⟩ := by
  rw [bufferOrZeros]
  rcases hb : trainer.buffers[v.id]? with - | b
  · have hfits : w.declaration = v.declaration := h.typed.weight (h.declared v hv) hw
    rw [Option.getD_none, Tensor.declaration_zerosLike, hfits, Value.declaration, hfloat]
  · -- an old buffer belongs to a value of this name, which is declared alike
    obtain ⟨u, hu, hid, hdecl⟩ := h.buffers hb
    have hu' : ctx.declared[v.id]? = some u.declaration := hid ▸ h.declared u hu
    rw [h.declared v hv] at hu'
    rw [Option.getD_some, hdecl, (Declaration.mk.inj (Option.some.inj hu')).2]

/-- Moving a weight, given that a gradient of scalars makes it one of scalars. -/
theorem moveWeight_advances {v : Value α} (hv : v ∈ p.trainable) (grad : View α) (s : State α)
    (hfloat : Ready p s → v.kind = .float) : Advances p s ((moveWeight v.id grad).after s) := by
  obtain ⟨trainer, ctx⟩ := s
  -- with momentum the buffer changes too, and must fit the weight
  by_cases hm : Scalar.lt 0 trainer.config.momentum = true
  · rcases hw : ctx.weights[v.id]? with - | w
    · rw [Run.after, moveWeight]
      simp only [hm, if_true, Context.weight, hw]
      exact .refl _
    · have hpair := moves_descendWith trainer.config grad (w, trainer.bufferOrZeros v.id w)
      rw [Run.after] at hpair
      rw [Run.after, moveWeight]
      simp only [hm, if_true, Context.weight_eq hw]
      rcases hr : descendWith trainer.config grad (w, trainer.bufferOrZeros v.id w)
        with ⟨_, w', b⟩ | ⟨_, w', b⟩ <;>
        simp only [hr] at hpair ⊢ <;>
        exact advances_setBuffer hv hw hpair.1 fun h =>
          Eq.trans hpair.2 (declaration_bufferOrZeros hv h (hfloat h) hw)
  · rcases hw : ctx.weights[v.id]? with - | w
    · rw [Run.after, moveWeight]
      simp only [hm, writeWeight, Context.weight, hw]
      exact .refl _
    · have halike := moves_descend trainer.config grad w
      rw [Run.after] at halike
      rw [Run.after, moveWeight]
      simp only [hm, writeWeight, Context.weight_eq hw]
      rcases hr : descend trainer.config grad w with ⟨_, w'⟩ | ⟨_, w'⟩ <;>
        simp only [hr] at halike ⊢ <;> exact advances_setWeight hv hw halike

/-- Moving a trainable weight if it has a gradient. -/
theorem moves_moveIfNeeded {v : Value α} (hv : v ∈ p.trainable) :
    Moves (Advances p) (moveIfNeeded v.id : Run (State α) Unit) := by
  intro s
  rw [Run.after, moveIfNeeded, Run.get_bind_apply]
  rcases hg : s.2.grads[v.id]? with - | g
  · simp only [hg]
    exact .refl s
  · rcases hview : g.floats with e | grad
    · simp only [hg, hview]
      exact .refl s
    · simp only [hg, hview, Run.liftM_check_ok, pure_bind]
      refine moveWeight_advances hv grad s fun h => ?_
      -- the gradient fits the declaration, and it is one of scalars
      have hfits : g.declaration = v.declaration := h.typed.grad (h.declared v hv) hg
      obtain ⟨shape, data | data⟩ := g
      · exact (Declaration.mk.inj hfits).1.symm
      · cases hview

/-- Resetting a gradient makes zeros of it and changes nothing else. -/
theorem clearGrad_fields (ctx : Context α) (id : ValueId) :
    (clearGrad ctx id).weights = ctx.weights ∧ (clearGrad ctx id).declared = ctx.declared ∧
      ∀ j : ValueId, (clearGrad ctx id).grads[j]?
        = if id = j then (ctx.grads[j]?).map (·.zero) else ctx.grads[j]? := by
  rw [clearGrad]
  rcases hg : ctx.grads[id]? with - | g
  · refine ⟨rfl, rfl, fun j => ?_⟩
    dsimp only
    split
    · rename_i hid
      rw [← hid, hg]
      rfl
    · rfl
  · refine ⟨rfl, rfl, fun j => ?_⟩
    dsimp only
    rw [Context.grads_setGrad]
    split
    · rename_i hid
      rw [← hid, hg]
      rfl
    · rfl

/-- Resetting all gradients of a list of values. -/
theorem clearGrads_fields (vs : List (Value α)) (ctx : Context α) :
    let ctx' := vs.foldl (fun ctx v => clearGrad ctx v.id) ctx
    ctx'.weights = ctx.weights ∧ ctx'.declared = ctx.declared ∧
      ∀ j : ValueId, ctx'.grads[j]?
        = if j ∈ vs.map (·.id) then (ctx.grads[j]?).map (·.zero) else ctx.grads[j]? := by
  induction vs generalizing ctx with
  | nil => exact ⟨rfl, rfl, fun j => rfl⟩
  | cons v vs ih =>
      obtain ⟨hweights, hdeclared, hgrads⟩ := ih (clearGrad ctx v.id)
      obtain ⟨hweights₁, hdeclared₁, hgrads₁⟩ := clearGrad_fields ctx v.id
      refine ⟨hweights.trans hweights₁, hdeclared.trans hdeclared₁, fun j => (hgrads j).trans ?_⟩
      rw [hgrads₁, List.map_cons]
      -- zeros that are reset again stay zeros
      have hzero (g : Tensor α) : g.zero.zero = g.zero := by
        show Tensor.zeros (Tensor.zerosLike g).kind _ = Tensor.zeros g.kind g.shape
        rw [Tensor.kind_zerosLike]
        rfl
      by_cases hv : v.id = j
      · rw [if_pos hv, if_pos (List.mem_cons.mpr (.inl hv.symm))]
        split
        · rw [Option.map_map]
          exact congrArg (Option.map · _) (funext hzero)
        · rfl
      · have hmem : j ∈ v.id :: vs.map (·.id) ↔ j ∈ vs.map (·.id) :=
          List.mem_cons.trans (or_iff_right (Ne.symm hv))
        rw [if_neg hv, if_congr hmem rfl rfl]

/-- Resetting a gradient keeps its kind and shape. -/
theorem evolves_clearGrad {W G : List ValueId} (ctx : Context α) {id : ValueId}
    (hid : id ∈ G) : Evolves W G ctx (clearGrad ctx id) := by
  rw [clearGrad]
  rcases hg : ctx.grads[id]? with - | g
  · exact .refl W G ctx
  · refine Context.evolves_setGrad hid fun hc d hd => ?_
    rw [Tensor.zero, Tensor.declaration_zerosLike]
    exact hc.grad hd hg

/-- Resetting the gradients of some values. -/
theorem evolves_clearGrads {W G : List ValueId} {vs : List (Value α)} (hvs : ∀ v ∈ vs, v.id ∈ G)
    (ctx : Context α) : Evolves W G ctx (vs.foldl (fun ctx v => clearGrad ctx v.id) ctx) := by
  induction vs generalizing ctx with
  | nil => exact .refl W G ctx
  | cons v vs ih =>
      refine (evolves_clearGrad ctx (hvs v (by simp))).trans ?_
      exact ih (fun u hu => hvs u (by simp [hu])) (clearGrad ctx v.id)

/-- The training step changes the weights it trains, their buffers and the
gradients of weights. -/
theorem moves_step (p : Program α) : Moves (Advances p) (step p) := by
  refine .bind (.forM fun v hv => moves_moveIfNeeded hv) fun _ s => ?_
  refine ⟨rfl, ?_, fun h => h.buffers⟩
  exact evolves_clearGrads (fun v hv => List.mem_map_of_mem hv) s.2

end Trainer

/-! ### Every call -/

namespace Session

/-- A call keeps the program and the parameters, unbinds nothing, and keeps the
bindings that fit. -/
structure Continues (s s' : Session α) : Prop where
  /-- The program stays. -/
  program : s'.program = s.program
  /-- The parameters stay. -/
  config : s'.config = s.config
  /-- The parameters of training stay. -/
  training : s'.trainer.config = s.trainer.config
  /-- The bindings are kept. -/
  context : Keeps s.context s'.context

theorem Continues.refl (s : Session α) : Continues s s := ⟨rfl, rfl, rfl, .refl _⟩

theorem Continues.trans {s s' s'' : Session α} (h : Continues s s') (h' : Continues s' s'') :
    Continues s s'' where
  program := h'.program.trans h.program
  config := h'.config.trans h.config
  training := h'.training.trans h.training
  context := h.context.trans h'.context

instance : Std.Refl (Continues (α := α)) := ⟨Continues.refl⟩

instance : Trans (Continues (α := α)) Continues Continues := ⟨Continues.trans⟩

/-- A call on the context leaves the rest of the session alone. -/
theorem after_onContext {β : Type} (f : Run (Context α) β) (s : Session α) :
    (onContext f).after s = { s with context := f.after s.context } := by
  rw [Run.after, Run.after, onContext]
  rcases f s.context with ⟨b, c⟩ | ⟨e, c⟩ <;> rfl

theorem moves_onContext {β : Type} {f : Run (Context α) β} (h : Moves Keeps f) :
    Moves Continues (onContext f) := by
  intro s
  rw [after_onContext]
  exact ⟨rfl, rfl, rfl, h s.context⟩

/-- Binding the contents of a value. -/
theorem evolves_load (id : ValueId) (t : Tensor α) :
    Moves (Evolves [id] []) (Context.change fun c : Context α => c.insert id t) := by
  intro c
  rw [Run.after, Context.change, Context.insert]
  -- an undeclared value takes anything, a declared one what it was declared as
  rcases hd : c.declared[id]? with - | d
  · refine Context.evolves_setWeight (by simp) fun _ d hd' => ?_
    rw [hd] at hd'
    cases hd'
  · by_cases hk : t.kind = d.kind
    · by_cases hs : t.shape = d.shape
      · simp only [hk, hs, ne_eq, not_true_eq_false, if_false]
        refine Context.evolves_setWeight (by simp) fun _ d' hd' => ?_
        rw [hd] at hd'
        rw [← Option.some.inj hd', Tensor.declaration, hk, hs]
      · simp only [hk, hs, ne_eq, not_true_eq_false, not_false_eq_true, if_false, if_true]
        exact .refl _ _ c
    · simp only [hk, ne_eq, not_false_eq_true, if_true]
      exact .refl _ _ c

theorem moves_load (id : ValueId) (t : Tensor α) : Moves Continues (load id t) :=
  moves_onContext fun c => (evolves_load id t c).toKeeps

variable [Scalar α]

/-- A forward sweep is a call on the context. -/
theorem forward_apply (train : Bool) (s : Session α) :
    forward train s = onContext (s.program.instructions.forM (·.forward train)) s := by
  rw [forward, Run.get_bind_apply]

/-- A backward sweep is a call on the context. -/
theorem backward_apply (s : Session α) :
    backward s = onContext (s.program.instructions.reverse.forM (·.backward s.config)) s := by
  rw [backward, Run.get_bind_apply]

/-- What a forward sweep leaves of the session. -/
theorem after_forward (train : Bool) (s : Session α) :
    (forward train).after s
      = { s with context := (s.program.instructions.forM (·.forward train)).after s.context } := by
  rw [← after_onContext, Run.after, Run.after, forward_apply]

/-- What a backward sweep leaves of the session. -/
theorem after_backward (s : Session α) :
    backward.after s = { s with
      context := (s.program.instructions.reverse.forM (·.backward s.config)).after s.context } := by
  rw [← after_onContext, Run.after, Run.after, backward_apply]

theorem moves_forward (train : Bool) :
    Moves Continues (forward train : Run (Session α) Unit) := by
  intro s
  rw [after_forward]
  exact ⟨rfl, rfl, rfl, (s.program.moves_forward train s.context).toKeeps⟩

theorem moves_backward : Moves Continues (backward : Run (Session α) Unit) := by
  intro s
  rw [after_backward]
  exact ⟨rfl, rfl, rfl, (s.program.moves_backward s.config s.context).toKeeps⟩

/-- What the step of training leaves of the rest of the session. -/
theorem after_learn (s : Session α) :
    learn.after s = { s with
      trainer := ((Trainer.step s.program).after (s.trainer, s.context)).1
      context := ((Trainer.step s.program).after (s.trainer, s.context)).2 } := by
  rw [Run.after, Run.after, learn]
  rcases Trainer.step s.program (s.trainer, s.context) with ⟨_, t, c⟩ | ⟨_, t, c⟩ <;> rfl

theorem moves_learn : Moves Continues (learn : Run (Session α) Unit) := by
  intro s
  have h := Trainer.moves_step s.program (s.trainer, s.context)
  rw [after_learn]
  exact ⟨rfl, rfl, h.config, h.context.toKeeps⟩

theorem moves_trainStep : Moves Continues (trainStep : Run (Session α) Unit) :=
  .bind (moves_forward true) fun _ => .bind moves_backward fun _ => .bind moves_learn fun _ _ =>
    ⟨rfl, rfl, rfl, .refl _⟩

/-- Every call, successful or failing. -/
theorem moves_perform (call : Call α) : Moves Continues (perform call) := by
  cases call with
  | load id t => exact moves_load id t
  | forward train => exact moves_forward train
  | infer => exact moves_forward false
  | backward => exact moves_backward
  | learn => exact moves_learn
  | trainStep => exact moves_trainStep

end Session

end TensorProgram
