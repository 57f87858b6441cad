/-
TensorProgram/Proofs/Session/Adjoint.lean

Gradients of a session.  In a fresh session, move the contents of one weight
along a direction.  After a forward sweep every activation is a polynomial in
the step, and its coefficient of degree one is the slope of the activation.

Main statement: after a forward sweep, and a backward sweep from a gradient of
one activation, the gradient of the weight paired with any direction is the
given gradient paired with the slopes in that direction
(`Session.backward_is_adjoint`).
-/
import TensorProgram.Proofs.Gradient.Adjoint
import TensorProgram.Proofs.Session.Safety

namespace TensorProgram

open Polynomial

namespace Session

/-! ### Before the first sweep -/

section Fresh

variable {α : Type} {p : Program α} {s : Session α}

/-- The session has not run yet: what is bound fits, and no gradient is bound. -/
structure Fresh (p : Program α) (s : Session α) : Prop extends Invariant p s where
  /-- No gradient is bound. -/
  grads : ∀ id : ValueId, s.context.grads[id]? = none

theorem fresh_begin [Scalar α] {config : Config α} {words : UInt64 → Nat → UInt32} (hp : p.Placed)
    (h : begin p config words = .ok s) : Fresh p s :=
  ⟨invariant_begin hp h, (begun_of_begin hp h).grads⟩

/-- Loading binds no gradient. -/
theorem Fresh.load (h : Fresh p s) (id : ValueId) (t : Tensor α) : Fresh p ((load id t).after s) := by
  refine ⟨h.toInvariant.after_load id t, fun j => ?_⟩
  rw [Session.load, after_onContext, (evolves_load id t s.context).grads (by simp), h.grads]

theorem Fresh.loads [Scalar α] (h : Fresh p s) (contents : List (ValueId × Tensor α)) :
    Fresh p (s.performAll (contents.map fun e => .load e.1 e.2)) := by
  induction contents generalizing s with
  | nil => exact h
  | cons e contents ih => exact ih (h.load e.1 e.2)

end Fresh

variable {K : Type} [ExactScalar K] {p : Program K} {s : Session K}

/-- A forward sweep of a fresh session goes through and solves the equations. -/
theorem Fresh.forward (h : Fresh p s) (hgrown : Program.Grown p.values p.instructions)
    (hp : p.Sound) (hpoly : ∀ i ∈ p.instructions, i.isLifecycle = false → i.isPolynomial = true)
    (train : Bool) : ∃ c, Session.forward train s = .ok () { s with context := c } ∧
      p.Settled p.values p.instructions s.context c := by
  have hbegin : p.Settled [] [] s.context s.context := by
    refine ⟨h.declared, h.typed, fun v hv hknown => ?_, fun _ _ => rfl, fun q => ?_, by simp⟩
    · rcases hknown with hweight | hmem
      · exact h.bound v (Program.mem_weights.mpr ⟨hv, hweight⟩)
      · cases hmem
    · rw [Context.gradEntry, h.grads]
      rfl
  obtain ⟨c, hrun, hc⟩ := hgrown.settles hp.placed (fun v hv => hv) (fun i hi => hp.typed hi) hpoly
    train hbegin
  refine ⟨c, ?_, hc⟩
  rw [← h.program] at hrun
  exact (forward_apply train s).trans (onContext_of_ok hrun)

/-! ### Moving a weight -/

/-- The contents of `x` moved along `d` by `t`. -/
def contentsAlong (s : Session K) (x : Value K) (d : Vector K x.shape.elemCount) (t : K) :
    Tensor K :=
  ⟨x.shape, .float (Vector.ofFn fun k => s.context.entry (x.id, k) + t * d[k])⟩

/-- The session with these contents of `x` loaded. -/
def moved (s : Session K) (x : Value K) (d : Vector K x.shape.elemCount) (t : K) : Session K :=
  (load x.id (s.contentsAlong x d t)).after s

/-- The given gradient of `y`. -/
def withGrad (s : Session K) (y : Value K) (g : Vector K y.shape.elemCount) : Session K :=
  { s with context := s.context.setGrad y.id ⟨y.shape, .float g⟩ }

/-- As `x` moves along `d`, a forward sweep makes `y` these polynomials in the
step. -/
def Traces (s : Session K) (train : Bool) (x : Value K) (d : Vector K x.shape.elemCount)
    (y : Value K) (P : Fin y.shape.elemCount → K[X]) : Prop :=
  ∀ t, ∃ s', Session.forward train (s.moved x d t) = .ok () s' ∧
    s'.context.weights[y.id]? = some ⟨y.shape, .float (Vector.ofFn fun j => (P j).eval t)⟩

/-- How the elements of the weights move when `x` moves along `d`. -/
def direction (x : Value K) (d : Vector K x.shape.elemCount) (q : Place) : K :=
  if x.id = q.1 then (View.mk x.shape d).entry q.2 else 0

section Moved

/-- A tensor that fits is loaded. -/
theorem after_load {α : Type} {s : Session α} {id : ValueId} {t : Tensor α}
    (h : s.context.declared[id]? = some t.declaration) :
    (load id t).after s = { s with context := s.context.setWeight id t } := by
  have hinsert : s.context.insert id t = .ok (s.context.setWeight id t) := by
    simp [Context.insert, h, Tensor.declaration]
  rw [load, after_onContext, Run.after_of_ok (Context.change_of_ok hinsert)]

variable {x : Value K} (d : Vector K x.shape.elemCount)

theorem Fresh.moved (h : Fresh p s) (t : K) : Fresh p (s.moved x d t) := h.load _ _

theorem Fresh.moved_eq (h : Fresh p s) (hp : p.Placed) (hx : x ∈ p.weights)
    (hfloat : x.kind = .float) (t : K) :
    s.moved x d t = { s with context := s.context.setWeight x.id (s.contentsAlong x d t) } := by
  refine after_load ?_
  rw [h.declared, hp.signature (Program.mem_weights.mp hx).1, Value.declaration, hfloat]
  rfl

omit [ExactScalar K] in
/-- The elements of a value of scalars that is bound. -/
theorem Invariant.exists_data (h : Invariant p s) (hp : p.Placed) {v : Value K} (hv : v ∈ p.values)
    (hfloat : v.kind = .float) (hbound : (s.context.weights[v.id]?).isSome) :
    ∃ data : Vector K v.shape.elemCount,
      s.context.weights[v.id]? = some ⟨v.shape, .float data⟩ := by
  obtain ⟨w, hw⟩ := Option.isSome_iff_exists.mp hbound
  have hdecl := (h.declared v.id).trans (hp.signature hv)
  rw [Value.declaration, hfloat] at hdecl
  obtain ⟨data, rfl⟩ := Tensor.eq_float (h.typed.weight hdecl hw)
  exact ⟨data, hw⟩

omit [ExactScalar K] in
theorem Fresh.exists_data (h : Fresh p s) (hp : p.Placed) (hx : x ∈ p.weights)
    (hfloat : x.kind = .float) : ∃ data : Vector K x.shape.elemCount,
      s.context.weights[x.id]? = some ⟨x.shape, .float data⟩ :=
  h.toInvariant.exists_data hp (Program.mem_weights.mp hx).1 hfloat (h.bound x hx)

/-- Elements move by multiples of the direction. -/
theorem Fresh.entry_moved (h : Fresh p s) (hp : p.Placed) (hx : x ∈ p.weights)
    (hfloat : x.kind = .float) (t : K) (q : Place) :
    (s.moved x d t).context.entry q = s.context.entry q + t * direction x d q := by
  obtain ⟨id, k⟩ := q
  rw [h.moved_eq d hp hx hfloat, direction]
  by_cases hid : x.id = id
  · subst hid
    rw [if_pos rfl, Context.entry_of_weight Context.weights_setWeight_self, contentsAlong,
      Tensor.entry_float]
    by_cases hk : k < x.shape.elemCount
    · simp [View.entry, hk]
    · obtain ⟨data, hdata⟩ := h.exists_data hp hx hfloat
      rw [Context.entry_of_weight hdata, Tensor.entry_float, View.entry_of_le _ (Nat.not_lt.mp hk),
        View.entry_of_le _ (Nat.not_lt.mp hk), View.entry_of_le _ (Nat.not_lt.mp hk), mul_zero,
        add_zero]
  · rw [if_neg hid, mul_zero, add_zero]
    exact Context.entry_congr (Context.weights_setWeight_of_ne hid)

/-- A step of zero moves nothing. -/
theorem Fresh.moved_zero (h : Fresh p s) (hp : p.Placed) (hx : x ∈ p.weights)
    (hfloat : x.kind = .float) : s.moved x d 0 = s := by
  obtain ⟨data, hdata⟩ := h.exists_data hp hx hfloat
  have hsame : s.contentsAlong x d 0 = ⟨x.shape, .float data⟩ := by
    rw [contentsAlong]
    congr 2
    ext k hk
    rw [Vector.getElem_ofFn, zero_mul, add_zero, Context.entry_of_weight hdata, Tensor.entry_float,
      View.entry, dif_pos hk]
  rw [h.moved_eq d hp hx hfloat, hsame]
  -- binding a value to what it is bound to changes nothing
  have hcontext : s.context.setWeight x.id ⟨x.shape, .float data⟩ = s.context := by
    refine Context.ext_lookup (fun _ => rfl) (fun id => ?_) fun _ => rfl
    rw [Context.weights_setWeight]
    split
    · rename_i hid
      rw [← hdata, hid]
    · rfl
  rw [hcontext]

end Moved

/-! ### Slopes -/

/-- Polynomials are known by their values. -/
theorem Traces.unique [Infinite K] {x y : Value K} {d : Vector K x.shape.elemCount} {train : Bool}
    {P Q : Fin y.shape.elemCount → K[X]} (hP : s.Traces train x d y P)
    (hQ : s.Traces train x d y Q) : P = Q := by
  funext j
  refine Polynomial.funext fun t => ?_
  obtain ⟨s₁, hrun₁, hdata₁⟩ := hP t
  obtain ⟨s₂, hrun₂, hdata₂⟩ := hQ t
  obtain ⟨-, rfl⟩ := EStateM.Result.ok.inj (hrun₁.symm.trans hrun₂)
  have hentry := Context.entry_of_weight hdata₁ j
  rw [Context.entry_of_weight hdata₂ j] at hentry
  simpa [View.entry] using hentry.symm

/-- After a forward sweep every element is a polynomial in the step along `d`.
The coefficients of degree one are the slopes there. -/
theorem Fresh.exists_slopes [Infinite K] (h : Fresh p s)
    (hgrown : Program.Grown p.values p.instructions) (hp : p.Sound)
    (hpoly : ∀ i ∈ p.instructions, i.isLifecycle = false → i.isPolynomial = true)
    {x : Value K} (hx : x ∈ p.weights) (hfloat : x.kind = .float)
    (d : Vector K x.shape.elemCount) (train : Bool) {s₁ : Session K}
    (hrun : Session.forward train s = .ok () s₁) :
    ∃ X : Place → K[X],
      (∀ y ∈ p.values, y.kind = .float → s.Traces train x d y fun j => X (y.id, j)) ∧
      Program.Tangent p p.instructions s₁.context (fun q => (X q).coeff 1) ∧
      ∀ v ∈ p.weights, ∀ k, (X (v.id, k)).coeff 1 = direction x d (v.id, k) := by
  choose c hc hsettled using fun t => (h.moved d t).forward hgrown hp hpoly train
  -- the elements are polynomials
  have hweights : ∀ v ∈ p.weights, ∀ k, ∀ t, (s.moved x d t).context.entry (v.id, k)
      = (C (s.context.entry (v.id, k)) + X * C (direction x d (v.id, k))).eval t := by
    intro v _ k t
    rw [h.entry_moved d hp.placed hx hfloat, eval_add, eval_mul, eval_C, eval_C, eval_X]
  have helements := hgrown.polynomial (fun v hv => hv) (fun i hi => hp.typed hi) hpoly hsettled
    fun v hv k => ⟨_, hweights v hv k⟩
  choose! Y hY using helements
  let X' : Place → K[X] := fun q => if q.1 < p.values.length then Y q.1 q.2 else 0
  have hX (t : K) : ∀ id < p.values.length, ∀ k, (c t).entry (id, k) = (X' (id, k)).eval t := by
    intro id hid k
    rw [hY id hid k t, show X' (id, k) = Y id k from if_pos hid]
  refine ⟨X', fun y hy hyfloat t => ⟨_, hc t, ?_⟩, ?_, fun v hv k => ?_⟩
  · have hinv := (h.moved d t).toInvariant.after_forward train
    rw [Run.after_of_ok (hc t)] at hinv
    obtain ⟨data, hdata⟩ :=
      hinv.exists_data hp.placed hy hyfloat ((hsettled t).bound y hy (.inr hy))
    rw [hdata]
    congr 3
    ext j hj
    rw [Vector.getElem_ofFn, ← hX t y.id (hgrown.id_lt hy) j, Context.entry_of_weight hdata,
      Tensor.entry_float, View.entry, dif_pos hj]
  · -- the sweep that is run backward is the one along a step of zero
    have hzero : s₁.context = c 0 := by
      have hmoved := hc 0
      rw [h.moved_zero d hp.placed hx hfloat, hrun] at hmoved
      rw [(EStateM.Result.ok.inj hmoved).2]
    rw [hzero]
    exact hgrown.tangent hsettled hX fun id hid k => if_neg (Nat.not_lt.mpr hid)
  · have hkept (t : K) : (c t).entry (v.id, k) = (s.moved x d t).context.entry (v.id, k) :=
      Context.entry_congr ((hsettled t).kept v hv)
    have hP : X' (v.id, k) = C (s.context.entry (v.id, k)) + X * C (direction x d (v.id, k)) := by
      refine Polynomial.funext fun t => ?_
      rw [← hX t v.id (hgrown.id_lt (Program.mem_weights.mp hv).1), hkept, hweights v hv k t]
    simp [hP]

/-- In a program whose instructions add and multiply, activations are scalars. -/
theorem kind_of_activation (hgrown : Program.Grown p.values p.instructions) (hp : p.Sound)
    (hpoly : ∀ i ∈ p.instructions, i.isLifecycle = false → i.isPolynomial = true)
    {y : Value K} (hy : y ∈ p.values) (hrole : y.role = .activation) : y.kind = .float := by
  obtain ⟨i, hi, hout⟩ := List.mem_flatMap.mp (hgrown.covers y hy hrole).2
  have hlife : i.isLifecycle = false := Instruction.works_of_mem_outputs hout
  obtain ⟨dest, t, cells, hform⟩ := (hp.typed hi).exists_form (hp.separate i hi) (hpoly i hi hlife)
  rw [hform.outputs, List.mem_singleton] at hout
  have hdecl := hform.declared
  rw [← hout, Signature.Floats, hp.placed.signature hy] at hdecl
  exact (Declaration.mk.inj (Option.some.inj hdecl)).1

/-- The gradient of `y` alone is paired. -/
theorem sum_paired_withGrad {c : Context K} (hgrads : ∀ q : Place, c.gradEntry q = 0) {n : Nat}
    {y : Value K} (hy : y.id < n) (g : Vector K y.shape.elemCount) (T : Place → K) :
    ∑ id ∈ Finset.range n, (c.setGrad y.id ⟨y.shape, .float g⟩).paired T id
      = ∑ j : Fin y.shape.elemCount, g[j] * T (y.id, j) := by
  rw [Finset.sum_eq_single_of_mem y.id (Finset.mem_range.mpr hy)]
  · rw [Context.paired_of_grad Context.grads_setGrad_self, Tensor.paired, Finset.sum_range]
    refine Finset.sum_congr rfl fun j _ => ?_
    rw [Tensor.entry_float, View.entry, dif_pos j.isLt]
    rfl
  · intro id _ hne
    rw [Context.paired_congr (Context.grads_setGrad_of_ne hne.symm)]
    exact Context.paired_of_gradEntry fun k => hgrads (id, k)

/-- **The backward sweep is the adjoint of the slopes.**  In a constructed
program whose instructions add and multiply, load any contents, run forward,
give any gradient to an activation and run backward.  The gradient of a weight,
paired with a direction, is the given gradient paired with the slopes of the
activation in that direction. -/
theorem backward_is_adjoint [Infinite K] {b : Builder K} (hb : b.Constructed)
    (hp : b.build = .ok p) (hpoly : ∀ i ∈ p.instructions, i.isLifecycle = false → i.isPolynomial = true)
    {config : Config K} {words : UInt64 → Nat → UInt32}
    (hpolicy : config.gradientPolicy = .accumulate)
    (hsource : config.filterGradSource = .currentBatch) {s₀ : Session K}
    (hs₀ : begin p config words = .ok s₀) (contents : List (ValueId × Tensor K)) {x y : Value K}
    (hx : x ∈ p.weights) (hfloat : x.kind = .float) (hy : y ∈ p.values)
    (hrole : y.role = .activation) (train : Bool) (g : Vector K y.shape.elemCount)
    (hs : s = s₀.performAll (contents.map fun e => .load e.1 e.2)) :
    ∃ s₁ s₂, Session.forward train s = .ok () s₁ ∧ Session.backward (s₁.withGrad y g) = .ok () s₂ ∧
      ∀ d : Vector K x.shape.elemCount, (∃ P, s.Traces train x d y P) ∧
        ∀ P, s.Traces train x d y P →
          ∑ k : Fin x.shape.elemCount, s₂.context.gradEntry (x.id, k) * d[k]
            = ∑ j : Fin y.shape.elemCount, g[j] * (P j).coeff 1 := by
  obtain ⟨_, hverify, hp⟩ := Except.bind_eq_ok.mp hp
  obtain rfl := Except.ok.inj hp
  have hgrown : Program.Grown b.program.values b.program.instructions := hb.grown
  have hsound := hgrown.sound hverify
  have hfresh : Fresh b.program s := hs ▸ (fresh_begin hsound.placed hs₀).loads contents
  have hconfig : s.config = config := by
    rw [hs, (continues_performAll s₀ _).config]
    exact (begin_fields hs₀).2.1
  -- the sweep forward, and the sweep backward from the gradient of `y`
  obtain ⟨c₁, hforward, hc₁⟩ := hfresh.forward hgrown hsound hpoly train
  have hyfloat := kind_of_activation hgrown hsound hpoly hy hrole
  have hydecl : c₁.declared[y.id]? = some ⟨.float, y.shape⟩ := by
    rw [hc₁.declared, hsound.placed.signature hy, Value.declaration, hyfloat]
  have hreturns : b.program.Returns c₁ (c₁.setGrad y.id ⟨y.shape, .float g⟩) := by
    refine ⟨hc₁.declared, ?_, rfl⟩
    refine (Context.evolves_setGrad (W := []) (G := [y.id]) (by simp) fun _ e he => ?_).typed hc₁.typed
    rw [hydecl] at he
    exact Option.some.inj he
  obtain ⟨c₂, hbackward, hc₂, -, hsum⟩ := hgrown.paired_backward (fun v hv => hv)
    (fun i hi => hsound.typed hi) hpoly hpolicy hsource (fun v hv => hc₁.bound v hv (.inr hv)) hreturns
  refine ⟨{ s with context := c₁ }, { s with context := c₂ }, hforward, ?_, fun d => ?_⟩
  · rw [← hfresh.program, ← hconfig] at hbackward
    exact (backward_apply _).trans (onContext_of_ok hbackward)
  obtain ⟨X, hX, hT, hweights⟩ := hfresh.exists_slopes hgrown hsound hpoly hx hfloat d train hforward
  refine ⟨⟨_, hX y hy hyfloat⟩, fun P hP => ?_⟩
  obtain rfl := hP.unique (hX y hy hyfloat)
  have hrest : ∀ v ∈ b.program.weights, v.id ≠ x.id → ∀ k, (X (v.id, k)).coeff 1 = 0 := by
    intro v hv hne k
    rw [hweights v hv k, direction, if_neg hne.symm]
  have hxgrad : c₂.HasGrad x.id x.shape := hc₂.typed.hasGrad ?_
  calc ∑ k : Fin x.shape.elemCount, c₂.gradEntry (x.id, k) * d[k]
      = ∑ k ∈ Finset.range x.shape.elemCount, c₂.gradEntry (x.id, k) * (X (x.id, k)).coeff 1 := by
        rw [Finset.sum_range]
        refine Finset.sum_congr rfl fun k _ => ?_
        rw [hweights x hx k, direction, if_pos rfl, View.entry, dif_pos k.isLt]
        rfl
    _ = c₂.paired (fun q => (X q).coeff 1) x.id :=
        (Context.paired_of_hasGrad (d := fun q => (X q).coeff 1) hxgrad).symm
    _ = Program.pairedWeights c₂ (fun q => (X q).coeff 1) b.program.values :=
        (hgrown.pairedWeights_eq hx hrest).symm
    _ = ∑ j : Fin y.shape.elemCount, g[j] * (X (y.id, j)).coeff 1 := by
        rw [hsum _ hT, sum_paired_withGrad hc₁.grads (hgrown.id_lt hy)]
  rw [hc₂.declared, hsound.placed.signature (Program.mem_weights.mp hx).1, Value.declaration,
    hfloat]

/-- Rational numbers, with zero for what would leave them. -/
local instance rationals : ExactScalar ℚ :=
  exactScalars (fun _ => 0) (fun _ => 0) (fun _ _ => 0) fun _ _ _ => 0

/-- An input and its square. -/
def squaredInput : Builder ℚ :=
  (Builder.step {} (.layer "x" (.input .float ⟨[2]⟩))).step (.layer "y" (.arithmetic .mul 0 0))

/-- The input. -/
def squaredInput.x : Value ℚ := ⟨0, "x", .float, ⟨[2]⟩, .weight, false, .zero⟩

/-- Its square. -/
def squaredInput.y : Value ℚ := ⟨1, "y", .float, ⟨[2]⟩, .activation, false, .zero⟩

/-- Gradients accumulate, and filter gradients read the image at hand. -/
def accumulating : Config ℚ := ⟨.accumulate, .currentBatch, 0, ⟨0, 0, 0, 0, 1⟩⟩

open squaredInput in
/-- The gradient of an input through its square. -/
theorem backward_is_adjoint_squaredInput : ∃ s₀, begin squaredInput.program accumulating = .ok s₀ ∧
    ∃ s, s = s₀.performAll [.load 0 ⟨⟨[2]⟩, .float #v[2, 5]⟩] ∧
    ∃ s₁ s₂, Session.forward true s = .ok () s₁ ∧
      Session.backward (s₁.withGrad y #v[1, 3]) = .ok () s₂ ∧
      ∀ d : Vector ℚ x.shape.elemCount, (∃ P, s.Traces true x d y P) ∧
        ∀ P, s.Traces true x d y P →
          ∑ k : Fin x.shape.elemCount, s₂.context.gradEntry (x.id, k) * d[k]
            = ∑ j : Fin y.shape.elemCount, (#v[1, 3] : Vector ℚ y.shape.elemCount)[j] * (P j).coeff 1 := by
  have hb : squaredInput.Constructed := by
    refine .step (.step .empty ?_) ?_
    · simp [Builder.Step.Scoped, Layer.arguments]
    · intro id hid
      obtain rfl : id = 0 := by simpa [Layer.arguments] using hid
      decide
  have hpoly : ∀ i ∈ squaredInput.program.instructions,
      i.isLifecycle = false → i.isPolynomial = true := by
    intro i hi hlife
    have hi' : i ∈ [.alloc 1, .arithmetic ⟨.mul, 1, 0, 0⟩] := hi
    rcases List.mem_pair.mp hi' with rfl | rfl
    · cases hlife
    · rfl
  have hs₀ : begin squaredInput.program accumulating = .ok _ := rfl
  refine ⟨_, hs₀, _, rfl, ?_⟩
  exact backward_is_adjoint hb rfl hpoly rfl rfl hs₀ [(0, ⟨⟨[2]⟩, .float #v[2, 5]⟩)]
    (List.mem_singleton.mpr rfl) rfl (List.mem_cons_of_mem _ (List.mem_singleton.mpr rfl)) rfl true
    #v[1, 3] rfl

end Session

end TensorProgram
