/-
TensorProgram/Proofs/Training/Momentum.lean

Runs of gradient descent.  A training step acts value by value: what it makes of
the weight and the buffer of a value depends on what is bound to that value alone
(`Trainer.Shifts`), because the values have different names.  It asks that a weight
with a gradient is one of scalars and as long as the gradient, and a buffer too, if
there is one (`Trainer.Held.Matched`); their extents may differ.

With momentum the buffer carries the step over: the next buffer is the share
`momentum` of the last one, less the new slope.  Unrolled over a run this is a sum
of slopes, each weighed down once for every step made since (`sum_of_recurrence`).
The contexts may change between the steps, as they do when a batch is loaded and
swept.

Main statement: `Trainer.steps_sum_slopes`.
-/
import TensorProgram.Proofs.Scalar.Exact
import TensorProgram.Proofs.Training

namespace TensorProgram

open Finset (range)

/-! ### Names -/

section Names

variable {α : Type} {p : Program α}

/-- The values of a program have different names. -/
theorem Program.Placed.nodup_ids (hp : p.Placed) : (p.values.map (·.id)).Nodup := by
  have hids : p.values.map (·.id) = List.range p.values.length := by
    apply List.ext_getElem
    · simp
    · intro k hk _
      rw [List.getElem_map, List.getElem_range]
      exact hp (List.getElem?_eq_getElem _)
  rw [hids]
  exact List.nodup_range

theorem Program.Placed.nodup_trainable (hp : p.Placed) : (p.trainable.map (·.id)).Nodup :=
  hp.nodup_ids.sublist (List.filter_sublist.map _)

end Names

/-! ### One element for every position -/

section Pointwise

variable {α : Type} [Zero α]

/-- The element of a tensor of scalars at a position; zero if there is none. -/
def scalarAt (t : Option (Tensor α)) (k : Nat) : α :=
  match t with
  | some ⟨s, .float data⟩ => (View.mk s data).entry k
  | _ => 0

@[simp] theorem scalarAt_view (v : View α) (k : Nat) : scalarAt (some v.tensor) k = v.entry k := rfl

/-- Combined with one value for every position, an element meets its own. -/
theorem View.entry_applyWrites_pointwise (combine : α → α → α) (v : View α) (f : Nat → α) {n k : Nat}
    (hn : v.size = n) (hk : k < n) :
    (View.mk v.shape (applyWrites combine (pointwise n f) v.data)).entry k
      = combine (v.entry k) (f k) := by
  have hlt : k < v.shape.elemCount := Nat.lt_of_lt_of_eq hk hn.symm
  have hnodup : ((pointwise n f).map Prod.fst).Nodup := by
    rw [map_fst_pointwise]
    exact List.nodup_range
  have hwrite : (k, f k) ∈ pointwise n f := List.mem_map.mpr ⟨k, List.mem_range.mpr hk, rfl⟩
  rw [View.entry, View.entry, dif_pos hlt, dif_pos hlt]
  exact getElem_applyWrites_of_nodup combine hnodup v.data hwrite hlt

end Pointwise

namespace Trainer

variable {α : Type}

/-! ### What is bound to a value -/

/-- What a state of training binds to a value. -/
structure Held (α : Type) where
  /-- Its weight. -/
  weight : Option (Tensor α)
  /-- Its gradient. -/
  grad : Option (Tensor α)
  /-- Its buffer. -/
  buffer : Option (Tensor α)

/-- What a state binds to the value of this name. -/
def State.held (s : State α) (id : ValueId) : Held α :=
  ⟨s.2.weights[id]?, s.2.grads[id]?, s.1.buffers[id]?⟩

/-- A gradient is one of scalars, beside a weight, and possibly a buffer, of as many
scalars. -/
def Held.Matched (h : Held α) : Prop :=
  ∀ g, h.grad = some g → ∃ G w : View α, g = G.tensor ∧ h.weight = some w.tensor ∧ w.size = G.size ∧
    ∀ b, h.buffer = some b → ∃ B : View α, b = B.tensor ∧ B.size = G.size

variable [Scalar α]

/-- The decayed gradient per row of an element. -/
def Held.slope (config : TrainingConfig α) (h : Held α) (k : Nat) : α :=
  config.slope (scalarAt h.weight k) (scalarAt h.grad k)

/-- How a training step changes the weight and the buffer of a trainable value.
Without a gradient they stay. -/
structure Shifts (config : TrainingConfig α) (h h' : Held α) : Prop where
  /-- Without a gradient nothing happens. -/
  idle : h.grad = none → h'.weight = h.weight ∧ h'.buffer = h.buffer
  /-- The weight keeps its extents. -/
  weight : ∀ w : View α, h.grad.isSome → h.weight = some w.tensor →
    ∃ w' : View α, h'.weight = some w'.tensor ∧ w'.shape = w.shape
  /-- Without momentum an element goes down the slope. -/
  plain : ∀ w : View α, h.grad.isSome → h.weight = some w.tensor →
    Scalar.lt 0 config.momentum = false → h'.buffer = h.buffer ∧ ∀ k < w.size,
      scalarAt h'.weight k = scalarAt h.weight k - config.learningRate * h.slope config k
  /-- With momentum the buffer takes a share of the old one, or of zero, and goes down
  the slope; then it is added to the weight. -/
  momentum : ∀ w : View α, h.grad.isSome → h.weight = some w.tensor →
    Scalar.lt 0 config.momentum = true →
      (∃ b : View α, h'.buffer = some b.tensor ∧ b.size = w.size) ∧ ∀ k < w.size,
        scalarAt h'.buffer k
          = config.momentum * scalarAt h.buffer k - config.learningRate * h.slope config k ∧
        scalarAt h'.weight k = scalarAt h.weight k + scalarAt h'.buffer k

variable {config : TrainingConfig α} {id : ValueId} {s : State α} {G w : View α}
  {g b : Option (Tensor α)}

/-- Without a gradient nothing is bound anew. -/
theorem Shifts.refl {h : Held α} (hnone : h.grad = none) : Shifts config h h := by
  refine ⟨fun _ => ⟨rfl, rfl⟩, ?_, ?_, ?_⟩ <;> simp [hnone]

/-- Only the weight and the buffer that are left are looked at. -/
theorem Shifts.congr {h h' h'' : Held α} (hs : Shifts config h h') (hw : h''.weight = h'.weight)
    (hb : h''.buffer = h'.buffer) : Shifts config h h'' := by
  obtain ⟨idle, weight, plain, momentum⟩ := hs
  obtain ⟨w, g, b⟩ := h''
  obtain rfl := hw
  obtain rfl := hb
  exact ⟨idle, weight, plain, momentum⟩

/-- Without momentum the weight goes down the slope. -/
theorem shifts_plain (hm : Scalar.lt 0 config.momentum = false) (hsize : w.size = G.size) :
    Shifts config ⟨some w.tensor, some G.tensor, b⟩
      ⟨some (descended config G w).tensor, g, b⟩ := by
  refine ⟨fun h => (nomatch h), fun u _ hu => ?_, fun u _ hu _ => ?_, fun u _ _ h => ?_⟩
  · obtain rfl := View.tensor_inj (Option.some.inj hu)
    exact ⟨_, rfl, rfl⟩
  · obtain rfl := View.tensor_inj (Option.some.inj hu)
    refine ⟨rfl, fun k hk => ?_⟩
    exact View.entry_applyWrites_pointwise _ w _ hsize (Nat.lt_of_lt_of_eq hk hsize)
  · cases hm.symm.trans h

/-- With momentum the buffer goes down the slope and is added to the weight. -/
theorem shifts_momentum {B : View α} (hm : Scalar.lt 0 config.momentum = true)
    (hsize : w.size = G.size) (hB : B.size = G.size) (hb : ∀ k, scalarAt b k = B.entry k) :
    Shifts config ⟨some w.tensor, some G.tensor, b⟩
      ⟨some (carried config G w B).tensor, g, some (buffered config G w B).tensor⟩ := by
  refine ⟨fun h => (nomatch h), fun u _ hu => ?_, fun u _ _ h => ?_, fun u _ hu _ => ?_⟩
  · obtain rfl := View.tensor_inj (Option.some.inj hu)
    exact ⟨_, rfl, rfl⟩
  · cases hm.symm.trans h
  · obtain rfl := View.tensor_inj (Option.some.inj hu)
    refine ⟨⟨_, rfl, hB.trans hsize.symm⟩, fun k hk => ?_⟩
    have hkG : k < G.size := Nat.lt_of_lt_of_eq hk hsize
    have hstep : (buffered config G w B).entry k
        = config.stepWith (B.entry k) (w.entry k) (G.entry k) :=
      View.entry_applyWrites_pointwise overwrite B _ hB hkG
    have hsum : (carried config G w B).entry k
        = w.entry k + config.stepWith (B.entry k) (w.entry k) (G.entry k) :=
      View.entry_applyWrites_pointwise accumulate w _ hsize hkG
    dsimp only
    rw [scalarAt_view, scalarAt_view, hsum, hstep, hb]
    exact ⟨rfl, rfl⟩

/-- The buffer to move with: the one that is bound, or zeros like the weight. -/
theorem exists_bufferOrZeros {trainer : Trainer α} (hsize : w.size = G.size)
    (hbuffer : ∀ b, trainer.buffers[id]? = some b → ∃ B : View α, b = B.tensor ∧ B.size = G.size) :
    ∃ B : View α, trainer.bufferOrZeros id w.tensor = B.tensor ∧ B.size = G.size ∧
      ∀ k, scalarAt trainer.buffers[id]? k = B.entry k := by
  rw [bufferOrZeros]
  rcases hb : trainer.buffers[id]? with - | b
  · refine ⟨⟨w.shape, Vector.replicate _ 0⟩, rfl, hsize, fun k => ?_⟩
    rw [View.entry]
    split
    · exact (Vector.getElem_replicate _).symm
    · rfl
  · obtain ⟨B, rfl, hB⟩ := hbuffer b hb
    exact ⟨B, rfl, hB, fun _ => rfl⟩

/-! ### Moving one weight -/

/-- From one state to the other only the weight and the buffer of this value may
differ. -/
structure Spares (id : ValueId) (s s' : State α) : Prop where
  /-- The parameters. -/
  config : s'.1.config = s.1.config
  /-- The declarations. -/
  declared : s'.2.declared = s.2.declared
  /-- The gradients. -/
  grads : s'.2.grads = s.2.grads
  /-- What is bound to other values. -/
  others : ∀ j, id ≠ j → s'.held j = s.held j

/-- Moving a weight that its gradient matches. -/
theorem moveWeight_shifts (h : (s.held id).Matched) (hG : s.2.grads[id]? = some G.tensor) :
    ∃ s', moveWeight id G s = .ok () s' ∧ Spares id s s' ∧
      Shifts s.1.config (s.held id) (s'.held id) := by
  obtain ⟨trainer, ctx⟩ := s
  obtain ⟨G', w, hview, hw, hsize, hbuffer⟩ := h G.tensor hG
  obtain rfl := View.tensor_inj hview
  have hheld : State.held (trainer, ctx) id
      = ⟨some w.tensor, some G.tensor, trainer.buffers[id]?⟩ := by
    rw [State.held, ← hG, ← hw]
    rfl
  have hothers (t : Tensor α) (j : ValueId) (hj : id ≠ j) :
      (ctx.setWeight id t).weights[j]? = ctx.weights[j]? := Context.weights_setWeight_of_ne hj
  -- with momentum the buffer takes the step and is added to the weight
  cases hm : Scalar.lt 0 trainer.config.momentum with
  | true =>
      obtain ⟨B, hB, hBsize, hb⟩ := exists_bufferOrZeros hsize hbuffer
      refine ⟨_, moveWeight_momentum hm hw hsize hB hBsize, ⟨rfl, rfl, rfl, fun j hj => ?_⟩, ?_⟩
      · rw [State.held, State.held, hothers _ j hj, Std.ExtTreeMap.getElem?_insert,
          if_neg (by simpa using hj)]
        rfl
      · rw [hheld, State.held, Context.weights_setWeight_self, Std.ExtTreeMap.getElem?_insert_self]
        exact shifts_momentum hm hsize hBsize hb
  | false =>
      refine ⟨_, moveWeight_plain hm hw hsize, ⟨rfl, rfl, rfl, fun j hj => ?_⟩, ?_⟩
      · rw [State.held, State.held, hothers _ j hj]
        rfl
      · rw [hheld, State.held, Context.weights_setWeight_self]
        exact shifts_plain hm hsize

/-- Moving a weight if it has a gradient. -/
theorem moveIfNeeded_shifts (h : (s.held id).Matched) :
    ∃ s', moveIfNeeded id s = .ok () s' ∧ Spares id s s' ∧
      Shifts s.1.config (s.held id) (s'.held id) := by
  rw [moveIfNeeded, Run.get_bind_apply]
  rcases hg : s.2.grads[id]? with - | g
  · simp only [hg]
    exact ⟨s, rfl, ⟨rfl, rfl, rfl, fun _ _ => rfl⟩, .refl hg⟩
  · obtain ⟨G, -, rfl, -⟩ := h g hg
    simp only [hg, show (View.tensor G).floats = .ok G from rfl, Run.liftM_check_ok, pure_bind]
    exact moveWeight_shifts h hg

/-- Moving all weights of a list of values with different names. -/
theorem forM_moveIfNeeded_shifts {vs : List (Value α)} (hids : (vs.map (·.id)).Nodup)
    (h : ∀ v ∈ vs, (s.held v.id).Matched) :
    ∃ s', vs.forM (fun v => moveIfNeeded v.id) s = .ok () s' ∧ s'.1.config = s.1.config ∧
      s'.2.declared = s.2.declared ∧ s'.2.grads = s.2.grads ∧
      (∀ j, j ∉ vs.map (·.id) → s'.held j = s.held j) ∧
      ∀ v ∈ vs, Shifts s.1.config (s.held v.id) (s'.held v.id) := by
  induction vs generalizing s with
  | nil => exact ⟨s, rfl, rfl, rfl, rfl, fun _ _ => rfl, by simp⟩
  | cons v vs ih =>
      rw [List.map_cons, List.nodup_cons] at hids
      obtain ⟨s₁, hmove, hspares, hshifts⟩ := moveIfNeeded_shifts (h v List.mem_cons_self)
      have hne : ∀ u ∈ vs, v.id ≠ u.id := fun u hu heq =>
        hids.1 (heq ▸ List.mem_map_of_mem hu)
      -- what the others hold was not touched
      obtain ⟨s', hrest, hconfig, hdeclared, hgrads, hothers, hall⟩ := ih hids.2 fun u hu => by
        rw [hspares.others _ (hne u hu)]
        exact h u (List.mem_cons_of_mem v hu)
      refine ⟨s', ?_, hconfig.trans hspares.config, hdeclared.trans hspares.declared,
        hgrads.trans hspares.grads, fun j hj => ?_, fun u hu => ?_⟩
      · rw [Run.forM_cons, Run.bind_of_ok hmove, hrest]
      · rw [List.map_cons, List.mem_cons, not_or] at hj
        rw [hothers j hj.2, hspares.others j (Ne.symm hj.1)]
      · rcases List.mem_cons.mp hu with rfl | hu
        · rwa [hothers u.id hids.1]
        · have hshift := hall u hu
          rwa [hspares.config, hspares.others _ (hne u hu)] at hshift

/-! ### The training step -/

variable {p : Program α} {s' : State α}

/-- Every trainable weight with a gradient is matched by it. -/
def Matched (p : Program α) (s : State α) : Prop := ∀ v ∈ p.trainable, (s.held v.id).Matched

/-- What a training step makes of a state. -/
structure Descends (p : Program α) (s s' : State α) : Prop where
  /-- The parameters stay. -/
  config : s'.1.config = s.1.config
  /-- The declarations stay. -/
  declared : s'.2.declared = s.2.declared
  /-- Trainable values with a gradient shift. -/
  shifts : ∀ v ∈ p.trainable, Shifts s.1.config (s.held v.id) (s'.held v.id)
  /-- The weights and buffers of other values stay. -/
  others : ∀ id, id ∉ p.trainable.map (·.id) →
    s'.2.weights[id]? = s.2.weights[id]? ∧ s'.1.buffers[id]? = s.1.buffers[id]?
  /-- The gradients of weights are reset, those of other values stay, and none is made. -/
  grads : ∀ id : ValueId, s'.2.grads[id]?
    = if id ∈ p.weights.map (·.id) then (s.2.grads[id]?).map (·.zero) else s.2.grads[id]?

/-- A training step succeeds on matched weights. -/
theorem step_descends (hp : p.Placed) (h : Matched p s) :
    ∃ s', step p s = .ok () s' ∧ Descends p s s' := by
  obtain ⟨s₁, hmoves, hconfig, hdeclared, hgrads, hothers, hshifts⟩ :=
    forM_moveIfNeeded_shifts hp.nodup_trainable h
  obtain ⟨hweights, hdeclared', hclear⟩ := clearGrads_fields p.weights s₁.2
  refine ⟨(s₁.1, p.weights.foldl (fun ctx v => clearGrad ctx v.id) s₁.2), ?_, hconfig,
    hdeclared'.trans hdeclared, fun v hv => ?_, fun id hid => ?_, fun id => ?_⟩
  · rw [step, Run.bind_of_ok hmoves]
    rfl
  · -- resetting gradients touches neither weights nor buffers
    exact (hshifts v hv).congr (congrArg (·[v.id]?) hweights) rfl
  · have hheld := hothers id hid
    exact ⟨(congrArg (·[id]?) hweights).trans (congrArg Held.weight hheld),
      congrArg Held.buffer hheld⟩
  · rw [← hgrads]
    exact hclear id

/-! ### Runs -/

/-- A run of `T` training steps in which a value has a gradient each time.  Step `t`
begins in the state `before t`; between two steps the context may change, and the
trainer stays. -/
structure Trains (p : Program α) (v : Value α) (T : Nat) (before after : Nat → State α) :
    Prop where
  /-- Every step succeeds. -/
  steps : ∀ t < T, step p (before t) = .ok () (after t)
  /-- The trainer goes on. -/
  trainer : ∀ t < T, (before (t + 1)).1 = (after t).1
  /-- Weights are matched by their gradients. -/
  matched : ∀ t < T, Matched p (before t)
  /-- The value has a gradient. -/
  grad : ∀ t < T, ((before t).held v.id).grad.isSome

section Runs

variable {v : Value α} {T : Nat} {before after : Nat → State α}

theorem Trains.descends (hp : p.Placed) (h : Trains p v T before after) {t : Nat} (ht : t < T) :
    Descends p (before t) (after t) := by
  obtain ⟨s', hstep, hdescends⟩ := step_descends hp (h.matched t ht)
  rw [h.steps t ht] at hstep
  rwa [(EStateM.Result.ok.inj hstep).2]

/-- The parameters stay along a run. -/
theorem Trains.config_eq (hp : p.Placed) (h : Trains p v T before after) {t : Nat} (ht : t ≤ T) :
    (before t).1.config = (before 0).1.config := by
  induction t with
  | zero => rfl
  | succ t ih =>
      rw [h.trainer t ht, (h.descends hp ht).config]
      exact ih (Nat.le_of_succ_le ht)

omit [Scalar α] in
/-- A matched value with a gradient has a weight, and a buffer of the same size, if it
has one. -/
theorem Held.Matched.exists_weight {h : Held α} (hm : h.Matched) (hg : h.grad.isSome) :
    ∃ w : View α, h.weight = some w.tensor ∧
      ∀ b : View α, h.buffer = some b.tensor → b.size = w.size := by
  obtain ⟨g, hg⟩ := Option.isSome_iff_exists.mp hg
  obtain ⟨G, w, -, hw, hsize, hbuffer⟩ := hm g hg
  refine ⟨w, hw, fun b hb => ?_⟩
  obtain ⟨B, hview, hB⟩ := hbuffer _ hb
  rw [View.tensor_inj hview, hB, hsize]

/-- With momentum all weights and buffers of the value have one size along a run. -/
theorem Trains.exists_size (hp : p.Placed) (h : Trains p v T before after)
    (hv : v ∈ p.trainable) (hm : Scalar.lt 0 (before 0).1.config.momentum = true) :
    ∃ n, ∀ t < T, ∃ w : View α, ((before t).held v.id).weight = some w.tensor ∧ w.size = n := by
  rcases Nat.eq_zero_or_pos T with rfl | hT
  · exact ⟨0, fun t ht => absurd ht (Nat.not_lt_zero t)⟩
  obtain ⟨w₀, hw₀, -⟩ := (h.matched 0 hT v hv).exists_weight (h.grad 0 hT)
  refine ⟨w₀.size, fun t ht => ?_⟩
  induction t with
  | zero => exact ⟨w₀, hw₀, rfl⟩
  | succ t ih =>
      have ht' : t < T := Nat.lt_of_succ_lt ht
      obtain ⟨w, hw, hsize⟩ := ih ht'
      -- the step has left a buffer of the old size, which the next weight has to match
      have hmomentum : Scalar.lt 0 (before t).1.config.momentum = true := by
        rwa [h.config_eq hp (Nat.le_of_lt ht')]
      obtain ⟨⟨b, hb, hbsize⟩, -⟩ :=
        ((h.descends hp ht').shifts v hv).momentum w (h.grad t ht') hw hmomentum
      obtain ⟨w', hw', hbuffer⟩ := (h.matched (t + 1) ht v hv).exists_weight (h.grad (t + 1) ht)
      have hb' : ((before (t + 1)).held v.id).buffer = some b.tensor := by
        rw [← hb, State.held, State.held, h.trainer t ht']
      exact ⟨w', hw', (hbuffer b hb').symm.trans (hbsize.trans hsize)⟩

end Runs

/-- A quantity that keeps the share `m` of itself and loses `r` times something new is a
sum of these, each weighed down once for every step made since. -/
theorem sum_of_recurrence {K : Type} [Field K] {x g : Nat → K} {m r : K} {T : Nat} (hzero : x 0 = 0)
    (hnext : ∀ t < T, x (t + 1) = m * x t - r * g t) :
    x T = -r * ∑ t ∈ range T, m ^ (T - 1 - t) * g t := by
  induction T with
  | zero => rw [hzero, Finset.sum_range_zero, mul_zero]
  | succ T ih =>
      -- one step more multiplies every earlier summand by the share
      have hshare : ∀ t ∈ range T, m ^ (T + 1 - 1 - t) * g t = m * (m ^ (T - 1 - t) * g t) := by
        intro t ht
        have hexponent : T + 1 - 1 - t = T - 1 - t + 1 := by
          have := Finset.mem_range.mp ht
          omega
        rw [hexponent, pow_succ']
        ring
      have hlast : m ^ (T + 1 - 1 - T) * g T = g T := by simp
      calc x (T + 1) = m * x T - r * g T := hnext T (Nat.lt_succ_self T)
        _ = m * (-r * ∑ t ∈ range T, m ^ (T - 1 - t) * g t) - r * g T := by
            rw [ih fun t ht => hnext t (Nat.lt_succ_of_lt ht)]
        _ = -r * (∑ t ∈ range T, m * (m ^ (T - 1 - t) * g t) + g T) := by
            rw [← Finset.mul_sum]
            ring
        _ = -r * ∑ t ∈ range (T + 1), m ^ (T + 1 - 1 - t) * g t := by
            rw [Finset.sum_range_succ, hlast, Finset.sum_congr rfl hshare]

/-- **Gradient descent over runs.**  On matched weights a training step succeeds and
moves every element of a trainable weight with a gradient down its slope, with momentum
by way of a buffer that starts from zeros; it resets the gradients of weights and
changes nothing else.  Computed exactly, the buffer of a new trainer is then a sum of
slopes after any number of steps, and the weight has moved by the sum of the buffers if
nothing else moved it. -/
theorem steps_sum_slopes :
    (∀ (α : Type) [Scalar α] (values : List (Value α)) (instructions : List (Instruction α))
      (p : Program α) (s : State α), Program.ofParts values instructions = .ok p → Matched p s →
      ∃ s', step p s = .ok () s' ∧ Descends p s s') ∧
    ∀ (K : Type) [ExactScalar K] (values : List (Value K)) (instructions : List (Instruction K))
      (p : Program K) (v : Value K) (T : Nat) (before after : Nat → State K),
      Program.ofParts values instructions = .ok p → v ∈ p.trainable →
      (before 0).1.buffers = ∅ → Scalar.lt 0 (before 0).1.config.momentum = true →
      Trains p v T before after →
      let config := (before 0).1.config
      ∃ n, (∀ t < T, ∃ w : View K, ((before t).held v.id).weight = some w.tensor ∧ w.size = n) ∧
        ∀ k < n,
          scalarAt ((before T).held v.id).buffer k = -config.learningRate *
            ∑ t ∈ range T, config.momentum ^ (T - 1 - t) * ((before t).held v.id).slope config k ∧
          ((∀ t < T, ((before (t + 1)).held v.id).weight = ((after t).held v.id).weight) →
            scalarAt ((before T).held v.id).weight k = scalarAt ((before 0).held v.id).weight k
              + ∑ t ∈ range T, scalarAt ((after t).held v.id).buffer k) := by
  refine ⟨fun α _ values instructions p s hp h => step_descends (Program.placed_of_ofParts hp) h,
    fun K _ values instructions p v T before after hp hv hfresh hm h => ?_⟩
  have hp := Program.placed_of_ofParts hp
  obtain ⟨n, hn⟩ := h.exists_size hp hv hm
  have hbuffer (t : Nat) (ht : t < T) :
      ((before (t + 1)).held v.id).buffer = ((after t).held v.id).buffer := by
    rw [State.held, State.held, h.trainer t ht]
  -- what one step does to an element
  have hstep (t : Nat) (ht : t < T) (k : Nat) (hk : k < n) :
      scalarAt ((after t).held v.id).buffer k
          = (before 0).1.config.momentum * scalarAt ((before t).held v.id).buffer k
            - (before 0).1.config.learningRate
              * ((before t).held v.id).slope (before 0).1.config k ∧
        scalarAt ((after t).held v.id).weight k
          = scalarAt ((before t).held v.id).weight k + scalarAt ((after t).held v.id).buffer k := by
    obtain ⟨w, hw, rfl⟩ := hn t ht
    have hmomentum : Scalar.lt 0 (before t).1.config.momentum = true := by
      rwa [h.config_eq hp (Nat.le_of_lt ht)]
    obtain ⟨-, hmove⟩ := ((h.descends hp ht).shifts v hv).momentum w (h.grad t ht) hw hmomentum
    rw [h.config_eq hp (Nat.le_of_lt ht)] at hmove
    exact hmove k hk
  refine ⟨n, hn, fun k hk => ⟨?_, fun hweights => ?_⟩⟩
  · refine sum_of_recurrence (x := fun t => scalarAt ((before t).held v.id).buffer k) ?_ fun t ht => ?_
    · show scalarAt ((before 0).1.buffers[v.id]?) k = 0
      rw [hfresh, Std.ExtTreeMap.getElem?_empty]
      rfl
    · rw [hbuffer t ht]
      exact (hstep t ht k hk).1
  · let x : Nat → K := fun t => scalarAt ((before t).held v.id).weight k
    have hmoved : ∀ t ∈ range T, x (t + 1) - x t = scalarAt ((after t).held v.id).buffer k := by
      intro t ht
      have ht := Finset.mem_range.mp ht
      show scalarAt ((before (t + 1)).held v.id).weight k - scalarAt ((before t).held v.id).weight k = _
      rw [hweights t ht, (hstep t ht k hk).2, add_sub_cancel_left]
    rw [← Finset.sum_congr rfl hmoved]
    exact Finset.eq_sum_range_sub x T

/-- Rational numbers, with zero for what would leave them. -/
local instance rationals : ExactScalar ℚ :=
  exactScalars (fun _ => 0) (fun _ => 0) (fun _ _ => 0) fun _ _ _ => 0

/-- One trainable number. -/
def number : Program ℚ where
  values := [⟨0, "x", .float, ⟨[1]⟩, .weight, true, .zero⟩]

/-- A new trainer that repeats half of every step. -/
def halving : Trainer ℚ := ⟨⟨1, 1 / 2, 0, 0, 1⟩, ∅⟩

/-- The number of one element. -/
def single (x : ℚ) : View ℚ := ⟨⟨[1]⟩, #v[x]⟩

/-- The number is ten and its gradient one. -/
def ten : Context ℚ :=
  (({} : Context ℚ).setWeight 0 (single 10).tensor).setGrad 0 (single 1).tensor

theorem matched_ten : Matched number (halving, ten) := by
  intro v hv g hg
  obtain rfl := List.mem_singleton.mp hv
  obtain rfl := Option.some.inj (Context.grads_setGrad_self.symm.trans hg)
  exact ⟨single 1, single 10, rfl, rfl, rfl, fun b hb => nomatch hb⟩

/-- Without decay the slope is the gradient. -/
theorem slope_halving {h : Held ℚ} {x : ℚ} (hx : scalarAt h.grad 0 = x) :
    h.slope halving.config 0 = x := by
  rw [Held.slope, TrainingConfig.slope, hx, ExactScalar.ofNat_eq]
  show (0 * _ + 0 * _ + x) / ((max 1 1 : Nat) : ℚ) = x
  simp

/-- After the gradients one and three the buffer is minus seven halves, and the number
has moved from ten by minus one and minus seven halves. -/
theorem steps_sum_slopes_ten : ∃ s₁ s₂ : State ℚ, step number (halving, ten) = .ok () s₁ ∧
    step number (s₁.1, s₁.2.setGrad 0 (single 3).tensor) = .ok () s₂ ∧
    scalarAt (s₂.held 0).buffer 0 = -(7 / 2) ∧
    scalarAt (s₂.held 0).weight 0 = 10 + (-1 - 7 / 2) := by
  obtain ⟨hstep, hrun⟩ := steps_sum_slopes
  obtain ⟨s₁, h₁, hdescends⟩ := hstep ℚ number.values [] number (halving, ten) rfl matched_ten
  obtain ⟨-, hweight, -, hmomentum⟩ :=
    hdescends.shifts ⟨0, "x", .float, ⟨[1]⟩, .weight, true, .zero⟩ (List.mem_singleton_self _)
  obtain ⟨w, hw, hshape⟩ := hweight (single 10) rfl rfl
  have hpos : Scalar.lt 0 halving.config.momentum = true :=
    decide_eq_true (show (0 : ℚ) < 1 / 2 by norm_num)
  obtain ⟨⟨b, hb, hsize⟩, hfirst⟩ := hmomentum (single 10) rfl rfl hpos
  let again : State ℚ := (s₁.1, s₁.2.setGrad 0 (single 3).tensor)
  have hagain : (again.held 0).grad = some (single 3).tensor := Context.grads_setGrad_self
  have hmatched : Matched number again := by
    intro v hv g hg
    obtain rfl := List.mem_singleton.mp hv
    obtain rfl := Option.some.inj (hagain.symm.trans hg)
    exact ⟨single 3, w, rfl, hw, congrArg Shape.elemCount hshape,
      fun b' hb' => ⟨b, Option.some.inj (hb'.symm.trans hb), hsize⟩⟩
  obtain ⟨s₂, h₂, -⟩ := hstep ℚ number.values [] number again rfl hmatched
  let before : Nat → State ℚ
    | 0 => (halving, ten)
    | 1 => again
    | _ => s₂
  let after : Nat → State ℚ
    | 0 => s₁
    | _ => s₂
  have htrains : Trains number ⟨0, "x", .float, ⟨[1]⟩, .weight, true, .zero⟩ 2 before after := by
    refine ⟨fun t ht => ?_, fun t ht => ?_, fun t ht => ?_, fun t ht => ?_⟩ <;> interval_cases t
    exacts [h₁, h₂, rfl, rfl, matched_ten, hmatched, rfl, congrArg Option.isSome hagain]
  obtain ⟨n, hn, hsums⟩ := hrun ℚ number.values [] number _ 2 before after rfl
    (List.mem_singleton_self _) rfl hpos htrains
  obtain ⟨u, hu, rfl⟩ := hn 0 two_pos
  obtain rfl : single 10 = u := View.tensor_inj (Option.some.inj hu)
  obtain ⟨hbuffer, hmoved⟩ := hsums 0 one_pos
  have hslope₁ : (State.held (halving, ten) 0).slope halving.config 0 = 1 := slope_halving rfl
  have hslope₂ : (again.held 0).slope halving.config 0 = 3 :=
    slope_halving (congrArg (scalarAt · 0) hagain)
  have hone : scalarAt (s₁.held 0).buffer 0 = -1 := by
    refine (hfirst 0 one_pos).1.trans ?_
    show (1 / 2 : ℚ) * 0 - 1 * (State.held (halving, ten) 0).slope halving.config 0 = -1
    rw [hslope₁]
    norm_num
  have hlast : scalarAt (s₂.held 0).buffer 0 = -(7 / 2) := by
    refine hbuffer.trans ?_
    rw [Finset.sum_range_succ, Finset.sum_range_one]
    show -(1 : ℚ) * ((1 / 2) ^ 1 * (State.held (halving, ten) 0).slope halving.config 0
      + (1 / 2) ^ 0 * (again.held 0).slope halving.config 0) = -(7 / 2)
    rw [hslope₁, hslope₂]
    norm_num
  refine ⟨s₁, s₂, h₁, h₂, hlast, (hmoved fun t ht => ?_).trans ?_⟩
  · interval_cases t <;> rfl
  · rw [Finset.sum_range_succ, Finset.sum_range_one]
    show (10 : ℚ) + (scalarAt (s₁.held 0).buffer 0 + scalarAt (s₂.held 0).buffer 0) = _
    rw [hone, hlast]
    norm_num

end Trainer

end TensorProgram
