/-
TensorProgram/Proofs/Session/Constancy.lean

What changes the weights of a session.  A constructed program overwrites no
weight and updates in place only running statistics (`Program.Protects`), so a
forward sweep changes a weight only in training and only if it is a statistic; a
backward sweep changes gradients.  The training step changes trainable weights
that have a gradient: moving one weight leaves all others and all gradients, so
a weight without gradient stays (`Trainer.moves_leaves`).

`Session.MayChange` lists these occasions.  Along a run a weight that differs
from what it began with was changed on one of them (`Session.changed_by_call`).

Main statement: a run and every call of it, successful or failing, changes weights
on these occasions only; inference changes no weight, no gradient of one and no
momentum buffer, and a backward sweep nothing but gradients
(`Session.weights_are_constant`).
-/
import TensorProgram.Proofs.Program.Assignment
import TensorProgram.Proofs.Session.Invariant
import TensorProgram.Proofs.Training

namespace TensorProgram

variable {α : Type}

open Context (Evolves)
open Run (Moves)

/-! ### Programs -/

namespace Program

/-- Weights are not overwritten, not brought to life, and updated in place only
if they are running statistics. -/
structure Protects (p : Program α) : Prop where
  /-- Values are named by position. -/
  placed : p.Placed
  /-- No weight is overwritten. -/
  overwritten : ∀ v ∈ p.weights, v.id ∉ p.instructions.flatMap (·.overwritten)
  /-- Only running statistics are updated. -/
  written : ∀ v ∈ p.weights, v.id ∈ p.written → p.IsStatistic v.id
  /-- No weight is allocated as an activation. -/
  enlivened : ∀ v ∈ p.weights, v.id ∉ p.enlivened

/-- The trainable value of a name is the weight of that name. -/
theorem Protects.trainable {p : Program α} (hp : p.Protects) {v : Value α} (hv : v ∈ p.weights)
    (hid : v.id ∈ p.trainable.map (·.id)) : v.trainable = true := by
  obtain ⟨u, hu, huv⟩ := List.mem_map.mp hid
  obtain rfl := hp.placed.eq_of_id (mem_values_of_mem_trainable hu) (mem_weights.mp hv).1 huv
  have hboth := (List.mem_filter.mp hu).2
  rw [Bool.and_eq_true] at hboth
  exact hboth.2

/-- A forward sweep outside training updates nothing in place. -/
theorem moves_infer [Scalar α] (p : Program α) :
    Moves (Evolves (p.instructions.flatMap (·.overwritten)) p.enlivened)
      (p.instructions.forM (·.forward false)) := by
  refine .forM fun i hi c => (i.moves_infer c).mono ?_ ?_
  · exact fun id hid => List.mem_flatMap.mpr ⟨i, hi, hid⟩
  · exact fun id hid => List.mem_flatMap.mpr ⟨i, hi, hid⟩

end Program

/-- Builders protect weights. -/
theorem Builder.Assembled.protects {b : Builder α} (h : b.Assembled) : b.program.Protects := by
  have hplaced : b.program.Placed := h.grown.placed
  refine ⟨hplaced, fun v hv hid => ?_, fun v hv hid => ?_, fun v hv hid => ?_⟩
  · obtain ⟨i, hi, hid⟩ := List.mem_flatMap.mp hid
    refine hplaced.notMem_activations hv ?_
    -- an instruction overwrites activations: its outputs, or the one it begins or ends
    cases hlife : i.isLifecycle with
    | false =>
        obtain ⟨n, outs, hext, houts⟩ := h.grown.extends i hi hlife
        obtain ⟨u, hu, huid, hrole⟩ := houts v.id (hext.overwritten_eq ▸ hid)
        exact Program.mem_activations.mpr ⟨u, hu, hrole, huid⟩
    | true =>
        cases i with
        | alloc dest =>
            rw [← h.enlivened_eq]
            exact List.mem_flatMap.mpr ⟨_, hi, hid⟩
        | dealloc src => exact h.ended.1 v.id (List.mem_flatMap.mpr ⟨_, hi, hid⟩)
        | _ => cases hlife
  · obtain ⟨i, hi, hid⟩ := List.mem_flatMap.mp hid
    exact h.constant v hv i hi hid
  · rw [h.enlivened_eq] at hid
    exact hplaced.notMem_activations hv hid

/-! ### The training step -/

namespace Trainer

/-- A weight without gradient stays, and gets no gradient. -/
def Leaves (id : ValueId) (s s' : State α) : Prop :=
  s.2.grads[id]? = none → s'.2.weights[id]? = s.2.weights[id]? ∧ s'.2.grads[id]? = none

instance (id : ValueId) : Std.Refl (Leaves (α := α) id) := ⟨fun _ h => ⟨rfl, h⟩⟩

instance (id : ValueId) : Trans (Leaves (α := α) id) (Leaves id) (Leaves id) where
  trans h h' hnone := by
    obtain ⟨hweight, hgrad⟩ := h hnone
    obtain ⟨hweight', hgrad'⟩ := h' hgrad
    exact ⟨hweight'.trans hweight, hgrad'⟩

variable [Scalar α] {p : Program α}

theorem moves_leaves_move {v : Value α} (hv : v ∈ p.trainable) (id : ValueId) :
    Moves (Leaves id) (moveIfNeeded v.id : Run (State α) Unit) := by
  intro s hnone
  by_cases hid : v.id = id
  · -- without a gradient there is nothing to do
    subst hid
    have hstay : moveIfNeeded v.id s = .ok () s := by
      rw [moveIfNeeded, Run.get_bind_apply]
      simp only [hnone]
      rfl
    rw [Run.after_of_ok hstay]
    exact ⟨rfl, hnone⟩
  · -- moving another weight is a step of the program that declares it alone
    have hone : v ∈ (⟨[v], []⟩ : Program α).trainable :=
      List.mem_filter.mpr ⟨List.mem_singleton_self v, (List.mem_filter.mp hv).2⟩
    have hmove := moves_moveIfNeeded hone s
    have hother (q : Value α → Bool) : id ∉ ([v].filter q).map (·.id) := by
      intro hmem
      obtain ⟨u, hu, rfl⟩ := List.mem_map.mp hmem
      obtain rfl := List.mem_singleton.mp (List.mem_filter.mp hu).1
      exact hid rfl
    exact ⟨hmove.context.weights (hother _), (hmove.context.grads (hother _)).trans hnone⟩

/-- The training step leaves weights without gradient alone. -/
theorem moves_leaves (p : Program α) (id : ValueId) : Moves (Leaves id) (step p) := by
  refine .bind (.forM fun v hv => moves_leaves_move hv id) fun _ s hnone => ?_
  have hclear : Evolves [] (p.weights.map (·.id)) s.2
      (p.weights.foldl (fun ctx v => clearGrad ctx v.id) s.2) :=
    evolves_clearGrads (fun v hv => List.mem_map_of_mem hv) s.2
  refine ⟨hclear.weights (by simp), ?_⟩
  -- resetting gradients makes none
  show (p.weights.foldl (fun ctx v => clearGrad ctx v.id) s.2).grads[id]? = none
  refine Option.not_isSome_iff_eq_none.mp fun hsome => ?_
  rw [isSome_clearGrads, hnone] at hsome
  cases hsome

end Trainer

/-! ### Calls -/

namespace Session

/-- When a call may change the tensor of a weight. -/
inductive MayChange [Scalar α] (p : Program α) (s : Session α) (v : Value α) : Call α → Prop
  /-- The weight is loaded. -/
  | load (t : Tensor α) : MayChange p s v (.load v.id t)
  /-- It is trained along its gradient. -/
  | learn (trainable : v.trainable = true) (grad : (s.context.grads[v.id]?).isSome) :
      MayChange p s v .learn
  /-- It is a running statistic, and the sweep is one in training. -/
  | forward (statistic : p.IsStatistic v.id) : MayChange p s v (.forward true)
  /-- The training step sweeps forward over a running statistic. -/
  | trainForward (statistic : p.IsStatistic v.id) : MayChange p s v .trainStep
  /-- It sweeps forward and backward and then trains along a gradient. -/
  | trainLearn {swept : Session α}
      (sweeps : (forward true >>= fun _ => backward) s = .ok () swept)
      (trainable : v.trainable = true) (grad : (swept.context.grads[v.id]?).isSome) :
      MayChange p s v .trainStep

variable [Scalar α] {p : Program α} {s : Session α} {v : Value α}

omit [Scalar α] in
/-- A load changes the weight that it binds. -/
theorem changes_load {id : ValueId} {t : Tensor α}
    (h : ((load id t).after s).context.weights[v.id]? ≠ s.context.weights[v.id]?) : id = v.id := by
  by_contra hne
  refine h ?_
  rw [load, after_onContext]
  exact (evolves_load id t s.context).weights (by simpa using Ne.symm hne)

/-- A forward sweep changes running statistics, in training. -/
theorem changes_forward (hp : p.Protects) (hs : s.program = p) (hv : v ∈ p.weights) {train : Bool}
    (h : ((forward train).after s).context.weights[v.id]? ≠ s.context.weights[v.id]?) :
    train = true ∧ p.IsStatistic v.id := by
  subst hs
  rw [after_forward] at h
  constructor
  · by_contra htrain
    rw [Bool.not_eq_true] at htrain
    subst htrain
    exact h ((s.program.moves_infer s.context).weights (hp.overwritten v hv))
  · by_contra hstatistic
    exact h ((s.program.moves_forward train s.context).weights fun hid =>
      hstatistic (hp.written v hv hid))

/-- A forward sweep changes no gradient of a weight. -/
theorem grads_forward (hp : p.Protects) (hs : s.program = p) (hv : v ∈ p.weights) (train : Bool) :
    ((forward train).after s).context.grads[v.id]? = s.context.grads[v.id]? := by
  subst hs
  rw [after_forward]
  exact (s.program.moves_forward train s.context).grads (hp.enlivened v hv)

/-- A backward sweep changes no weight. -/
theorem weights_backward (s : Session α) :
    (backward.after s).context.weights = s.context.weights := by
  rw [after_backward]
  exact Std.ExtTreeMap.ext_getElem? fun id =>
    (s.program.moves_backward s.config s.context).weights (by simp)

/-- The training step changes trainable weights that have a gradient. -/
theorem changes_learn (hp : p.Protects) (hs : s.program = p) (hv : v ∈ p.weights)
    (h : (learn.after s).context.weights[v.id]? ≠ s.context.weights[v.id]?) :
    v.trainable = true ∧ (s.context.grads[v.id]?).isSome := by
  subst hs
  rw [after_learn] at h
  constructor
  · by_contra hfixed
    refine h ((Trainer.moves_step s.program (s.trainer, s.context)).context.weights fun hid => ?_)
    exact hfixed (hp.trainable hv hid)
  · by_contra hgrad
    have hnone : s.context.grads[v.id]? = none := Option.not_isSome_iff_eq_none.mp hgrad
    exact h (Trainer.moves_leaves s.program v.id (s.trainer, s.context) hnone).1

/-- A whole training step changes what its parts change. -/
theorem changes_trainStep (hp : p.Protects) (hs : s.program = p) (hv : v ∈ p.weights)
    (h : (trainStep.after s).context.weights[v.id]? ≠ s.context.weights[v.id]?) :
    MayChange p s v .trainStep := by
  by_cases hstatistic : p.IsStatistic v.id
  · exact .trainForward hstatistic
  -- the sweeps change no other weight, so the step along the gradient did
  have hforward : ((forward true).after s).context.weights[v.id]? = s.context.weights[v.id]? := by
    by_contra hchange
    exact hstatistic (changes_forward hp hs hv hchange).2
  have hcontinues := moves_forward true s
  rcases hf : forward true s with ⟨_, s₁⟩ | ⟨e, s₁⟩
  · rw [Run.after_of_ok hf] at hforward hcontinues
    have hbackward := weights_backward s₁
    have hcontinues' := moves_backward s₁
    rcases hb : backward s₁ with ⟨_, s₂⟩ | ⟨e, s₂⟩
    · rw [Run.after_of_ok hb] at hbackward hcontinues'
      have hprogram : s₂.program = p := hcontinues'.program.trans (hcontinues.program.trans hs)
      have hlearn : (trainStep.after s).context = (learn.after s₂).context := by
        rw [Run.after, trainStep, Run.bind_of_ok hf, Run.bind_of_ok hb]
        rcases hl : learn s₂ with ⟨_, s₃⟩ | ⟨e, s₃⟩
        · rw [Run.bind_of_ok hl, Run.after_of_ok hl]
          rfl
        · rw [Run.bind_of_error hl, Run.after_of_error hl]
      rw [hlearn, ← hforward, ← hbackward] at h
      obtain ⟨htrainable, hgrad⟩ := changes_learn hp hprogram hv h
      exact .trainLearn ((Run.bind_of_ok hf).trans hb) htrainable hgrad
    · rw [Run.after_of_error hb] at hbackward
      have hstop : trainStep s = .error e s₂ := by
        rw [trainStep, Run.bind_of_ok hf, Run.bind_of_error hb]
      rw [Run.after_of_error hstop, hbackward] at h
      exact absurd hforward h
  · rw [Run.after_of_error hf] at hforward
    have hstop : trainStep s = .error e s₁ := by rw [trainStep, Run.bind_of_error hf]
    rw [Run.after_of_error hstop] at h
    exact absurd hforward h

/-- Every call changes weights on the listed occasions. -/
theorem changes_perform (hp : p.Protects) (hs : s.program = p) (hv : v ∈ p.weights) {call : Call α}
    (h : ((perform call).after s).context.weights[v.id]? ≠ s.context.weights[v.id]?) :
    MayChange p s v call := by
  -- one occasion for every call but the way back, which keeps all weights
  cases call with
  | load id t =>
      obtain rfl := changes_load h
      exact .load t
  | forward train =>
      obtain ⟨rfl, hstatistic⟩ := changes_forward hp hs hv h
      exact .forward hstatistic
  | infer =>
      obtain ⟨htrain, -⟩ := changes_forward hp hs hv h
      cases htrain
  | backward => exact absurd (congrArg (·[v.id]?) (weights_backward s)) h
  | learn =>
      obtain ⟨htrainable, hgrad⟩ := changes_learn hp hs hv h
      exact .learn htrainable hgrad
  | trainStep => exact changes_trainStep hp hs hv h

/-! ### Runs -/

/-- A weight that differs after a run was changed by one of its calls, on a listed
occasion. -/
theorem changed_by_call (hp : p.Protects) (hs : s.program = p) (hv : v ∈ p.weights)
    {calls : List (Call α)}
    (h : (s.performAll calls).context.weights[v.id]? ≠ s.context.weights[v.id]?) :
    ∃ before call after, calls = before ++ call :: after ∧
      MayChange p (s.performAll before) v call := by
  induction calls generalizing s with
  | nil => exact absurd rfl h
  | cons call calls ih =>
      by_cases hfirst : ((perform call).after s).context.weights[v.id]? = s.context.weights[v.id]?
      · have hprogram : ((perform call).after s).program = p :=
          (moves_perform call s).program.trans hs
        obtain ⟨before, later, after, rfl, hmay⟩ := ih hprogram (by rw [hfirst]; exact h)
        exact ⟨call :: before, later, after, rfl, hmay⟩
      · exact ⟨[], call, calls, rfl, changes_perform hp hs hv hfirst⟩

/-- What a call leaves as it was. -/
structure Preserves (p : Program α) (s : Session α) (call : Call α) (s' : Session α) : Prop where
  /-- Weights change on the listed occasions only. -/
  weights : ∀ v ∈ p.weights, s'.context.weights[v.id]? ≠ s.context.weights[v.id]? →
    MayChange p s v call
  /-- Inference changes no weight and no gradient of one. -/
  infer : call = .infer → ∀ v ∈ p.weights, s'.context.weights[v.id]? = s.context.weights[v.id]? ∧
    s'.context.grads[v.id]? = s.context.grads[v.id]?
  /-- Inference changes no momentum buffer. -/
  inferBuffers : call = .infer → s'.trainer = s.trainer
  /-- A backward sweep changes gradients only. -/
  backward : call = .backward → s'.context.weights = s.context.weights ∧ s'.trainer = s.trainer

/-- **Weights are constant** but for loads, training along a gradient and the
running statistics of a sweep in training.  A weight that differs after a run was
changed on such an occasion, and every call, successful or failing, preserves the
rest. -/
theorem weights_are_constant {b : Builder α} (hb : b.Constructed) (hp : b.build = .ok p)
    {config : Config α} {words : UInt64 → Nat → UInt32} (hs : begin p config words = .ok s)
    (calls : List (Call α)) :
    (∀ v ∈ p.weights,
      (s.performAll calls).context.weights[v.id]? ≠ s.context.weights[v.id]? →
      ∃ before call after, calls = before ++ call :: after ∧
        MayChange p (s.performAll before) v call) ∧
    ∀ call, Preserves p (s.performAll calls) call
      ((perform call).after (s.performAll calls)) := by
  obtain ⟨_, -, hp⟩ := Except.bind_eq_ok.mp hp
  obtain rfl := Except.ok.inj hp
  have hprotects : b.program.Protects := hb.assembled.protects
  have hbegun : s.program = b.program := (begin_fields hs).1
  have hprogram : (s.performAll calls).program = b.program :=
    (continues_performAll s calls).program.trans hbegun
  refine ⟨fun v hv h => changed_by_call hprotects hbegun hv h, fun call => ⟨?_, ?_, ?_, ?_⟩⟩
  · exact fun v hv h => changes_perform hprotects hprogram hv h
  · rintro rfl v hv
    refine ⟨?_, grads_forward hprotects hprogram hv false⟩
    by_contra h
    exact absurd (changes_forward hprotects hprogram hv h).1 (by decide)
  · rintro rfl
    show ((forward false).after (s.performAll calls)).trainer = _
    rw [after_forward]
  · rintro rfl
    refine ⟨weights_backward _, ?_⟩
    show (backward.after (s.performAll calls)).trainer = _
    rw [after_backward]

/-- A trained factor of an input that is normalized. -/
def scaledInput : Builder Float32 :=
  (((Builder.step {} (.layer "x" (.input .float ⟨[1, 1]⟩))).step
    (.layer "w" (.weight ⟨[1, 1]⟩ .zero))).step
    (.layer "n" (.batchNorm 0 1 0 1))).step
    (.layer "y" (.arithmetic .mul 6 1))

/-- What differs after a training step was changed by it, and every call after it
preserves the rest. -/
theorem weights_are_constant_scaledInput : ∃ s, begin scaledInput.program .default = .ok s ∧
    (∀ v ∈ scaledInput.program.weights,
      (s.performAll [.trainStep]).context.weights[v.id]? ≠ s.context.weights[v.id]? →
      ∃ before call after, [.trainStep] = before ++ call :: after ∧
        MayChange scaledInput.program (s.performAll before) v call) ∧
    ∀ call, Preserves scaledInput.program (s.performAll [.trainStep]) call
      ((perform call).after (s.performAll [.trainStep])) := by
  have hb : scaledInput.Constructed := by
    refine .step (.step (.step (.step .empty ?_) ?_) ?_) ?_ <;> decide
  have hs : begin scaledInput.program .default = .ok _ := rfl
  exact ⟨_, hs, weights_are_constant hb rfl hs [.trainStep]⟩

end Session

end TensorProgram
