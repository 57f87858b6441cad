/-
TensorProgram/Proofs/Context/Agreement.lean

Two contexts that agree on some of their bindings.  `Context.Agree W G` says
that they have the same weights for the values in `W` and the same gradients
for those in `G`; what is read of these is the same.  `Context.Similar S` says
that they agree on everything that is known of the values in `S`, and a call
that reads and writes only values in `S` carries it along.
-/
import TensorProgram.Proofs.Context.Deposits

namespace TensorProgram

variable {α β : Type}

namespace Context

variable {c d : Context α} {W G W' G' : ValueId → Prop} {S : List ValueId} {id a b : ValueId}

/-- Two contexts agree on the weights of `W` and the gradients of `G`. -/
structure Agree (W G : ValueId → Prop) (c d : Context α) : Prop where
  /-- The weights. -/
  weights : ∀ id, W id → d.weights[id]? = c.weights[id]?
  /-- The gradients. -/
  grads : ∀ id, G id → d.grads[id]? = c.grads[id]?

theorem Agree.mono (h : Agree W G c d) (hW : ∀ id, W' id → W id) (hG : ∀ id, G' id → G id) :
    Agree W' G' c d :=
  ⟨fun id hid => h.weights id (hW id hid), fun id hid => h.grads id (hG id hid)⟩

/-! ### Reading -/

section Read

variable (h : Agree W G c d)

include h

theorem Agree.weight (hid : W id) : d.weight id = c.weight id := by
  rw [Context.weight, Context.weight, h.weights id hid]

theorem Agree.shapeOf (hid : W id) : d.shapeOf id = c.shapeOf id := by
  rw [Context.shapeOf, Context.shapeOf, h.weight hid]

theorem Agree.floats (hid : W id) : d.floats id = c.floats id := by
  rw [Context.floats, Context.floats, h.weight hid]

theorem Agree.indices (hid : W id) : d.indices id = c.indices id := by
  rw [Context.indices, Context.indices, h.weight hid]

theorem Agree.grad (hid : G id) : d.grad id = c.grad id := by
  rw [Context.grad, Context.grad, h.grads id hid]

theorem Agree.gradFloats (hid : G id) : d.gradFloats id = c.gradFloats id := by
  rw [Context.gradFloats, Context.gradFloats, h.grad hid]

/-- What is hidden is hidden from both. -/
theorem Agree.withoutWeight (id : ValueId) :
    Agree W G (c.withoutWeight id) (d.withoutWeight id) where
  weights j hj := by rw [weights_withoutWeight, weights_withoutWeight, h.weights j hj]
  grads := h.grads

theorem Agree.withoutGrad (id : ValueId) : Agree W G (c.withoutGrad id) (d.withoutGrad id) where
  weights := h.weights
  grads j hj := by rw [grads_withoutGrad, grads_withoutGrad, h.grads j hj]

end Read

/-! ### Agreement on all that is known of some values -/

/-- Two contexts know the same of the values in `S`. -/
structure Similar (S : List ValueId) (c d : Context α) : Prop extends
    Agree (· ∈ S) (· ∈ S) c d where
  /-- The declarations. -/
  declared : ∀ id ∈ S, d.declared[id]? = c.declared[id]?

theorem Similar.symm (h : Similar S c d) : Similar S d c where
  weights id hid := (h.weights id hid).symm
  grads id hid := (h.grads id hid).symm
  declared id hid := (h.declared id hid).symm

theorem Similar.setWeight (h : Similar S c d) (id : ValueId) (t : Tensor α) :
    Similar S (c.setWeight id t) (d.setWeight id t) where
  weights j hj := by rw [weights_setWeight, weights_setWeight, h.weights j hj]
  grads := h.grads
  declared := h.declared

theorem Similar.setGrad (h : Similar S c d) (id : ValueId) (g : Tensor α) :
    Similar S (c.setGrad id g) (d.setGrad id g) where
  weights := h.weights
  grads j hj := by rw [grads_setGrad, grads_setGrad, h.grads j hj]
  declared := h.declared

/-- What moves only values outside of `S` leaves a similar context. -/
theorem Evolves.similar {V U : List ValueId} (h : Evolves V U c d) (hV : ∀ id ∈ S, id ∉ V)
    (hU : ∀ id ∈ S, id ∉ U) : Similar S c d where
  weights id hid := h.weights (hV id hid)
  grads id hid := h.grads (hU id hid)
  declared id _ := by rw [h.declared]

/-! ### Calls -/

open Run (Carries)

/-- Writing a weight while reading weights of values in `S`. -/
theorem carries_updateWeight {f : Context α → Run (Tensor α) β} (hid : id ∈ S)
    (hf : ∀ c d, Agree (· ∈ S) (· ∈ S) c d → f d = f c) :
    Carries (Similar S) (Similar S) (updateWeight id f) := by
  intro c d h
  rw [updateWeight, updateWeight, h.weight hid, hf _ _ (h.withoutWeight id)]
  rcases c.weight id with e | t
  · exact .error trivial
  · rcases hr : f (c.withoutWeight id) t with ⟨b, t'⟩ | ⟨e, t'⟩ <;> simp only [hr]
    · exact .ok (h.setWeight id t')
    · exact .error trivial

theorem carries_updateWeightPair {f : Context α → Run (Tensor α × Tensor α) β} (ha : a ∈ S)
    (hb : b ∈ S) (hf : ∀ c d, Agree (· ∈ S) (· ∈ S) c d → f d = f c) :
    Carries (Similar S) (Similar S) (updateWeightPair a b f) := by
  intro c d h
  have hrest := h.withoutWeight a
  rw [updateWeightPair, updateWeightPair, h.weight ha, hrest.weight hb,
    hf _ _ (hrest.withoutWeight b)]
  rcases c.weight a with e | t
  · exact .error trivial
  rcases (c.withoutWeight a).weight b with e | u
  · exact .error trivial
  · rcases hr : f ((c.withoutWeight a).withoutWeight b) (t, u) with ⟨r, t', u'⟩ | ⟨e, t', u'⟩ <;>
      simp only [hr]
    · exact .ok ((h.setWeight a t').setWeight b u')
    · exact .error trivial

end Context

end TensorProgram
