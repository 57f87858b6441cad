/-
TensorProgram/Proofs/Context/Bindings.lean

Calls on a context whose bindings are known.  Given what a value is bound to,
reading it answers, and each of the updating calls is its inner call on the
tensor followed by one binding.  With these the kernels never have to be opened
further than their own steps.
-/
import TensorProgram.Context
import TensorProgram.Proofs.Tensor.Writes

namespace TensorProgram

variable {α β : Type}

/-- The tensor of these scalars. -/
def View.tensor (v : View α) : Tensor α := ⟨v.shape, .float v.data⟩

/-- The tensor of these indices. -/
def View.indexTensor (v : View Nat) : Tensor α := ⟨v.shape, .index v.data⟩

/-- A tensor of scalars has one view. -/
theorem View.tensor_inj {v w : View α} (h : v.tensor = w.tensor) : v = w :=
  Except.ok.inj (congrArg Tensor.floats h)

theorem Tensor.float_inj {s : Shape} {x y : Vector α s.elemCount}
    (h : (⟨s, .float x⟩ : Tensor α) = ⟨s, .float y⟩) : x = y := by
  cases View.tensor_inj (v := ⟨s, x⟩) (w := ⟨s, y⟩) h
  rfl

/-! ### Writing into a tensor -/

namespace Tensor

variable {s t : Shape}

theorem onFloats_of_ok {f : (s : Shape) → Run (Vector α s.elemCount) β}
    {data data' : Vector α s.elemCount} {b : β} (h : f s data = .ok b data') :
    onFloats f ⟨s, .float data⟩ = .ok b ⟨s, .float data'⟩ := by
  rw [onFloats, h]

/-- What succeeds on a scalar tensor has found one. -/
theorem of_onFloats_ok {f : (s : Shape) → Run (Vector α s.elemCount) β} {t t' : Tensor α} {b : β}
    (h : onFloats f t = .ok b t') : ∃ (s : Shape) (data data' : Vector α s.elemCount),
      t = ⟨s, .float data⟩ ∧ f s data = .ok b data' ∧ t' = ⟨s, .float data'⟩ := by
  obtain ⟨s, data | data⟩ := t
  · rw [onFloats] at h
    rcases hf : f s data with ⟨r, data'⟩ | ⟨e, data'⟩
    · simp only [hf] at h
      obtain ⟨rfl, rfl⟩ := EStateM.Result.ok.inj h
      exact ⟨s, data, data', rfl, hf, rfl⟩
    · simp only [hf] at h
      cases h
  · cases h

theorem onFloatPair_of_ok
    {f : (s t : Shape) → Run (Vector α s.elemCount × Vector α t.elemCount) β}
    {x x' : Vector α s.elemCount} {y y' : Vector α t.elemCount} {b : β}
    (h : f s t (x, y) = .ok b (x', y')) :
    onFloatPair f (⟨s, .float x⟩, ⟨t, .float y⟩) = .ok b (⟨s, .float x'⟩, ⟨t, .float y'⟩) := by
  rw [onFloatPair, h]

theorem onFloatsAndIndices_of_ok
    {f : (s t : Shape) → Run (Vector α s.elemCount × Vector Nat t.elemCount) β}
    {x x' : Vector α s.elemCount} {y y' : Vector Nat t.elemCount} {b : β}
    (h : f s t (x, y) = .ok b (x', y')) :
    onFloatsAndIndices f (⟨s, .float x⟩, ⟨t, .index y⟩)
      = .ok b (⟨s, .float x'⟩, ⟨t, .index y'⟩) := by
  rw [onFloatsAndIndices, h]

theorem onFloatsAndIndices_of_error
    {f : (s t : Shape) → Run (Vector α s.elemCount × Vector Nat t.elemCount) β}
    {x x' : Vector α s.elemCount} {y y' : Vector Nat t.elemCount} {e : Failure}
    (h : f s t (x, y) = .error e (x', y')) :
    onFloatsAndIndices f (⟨s, .float x⟩, ⟨t, .index y⟩)
      = .error e (⟨s, .float x'⟩, ⟨t, .index y'⟩) := by
  rw [onFloatsAndIndices, h]

theorem faultless_onFloats {f : (s : Shape) → Run (Vector α s.elemCount) β}
    {data : Vector α s.elemCount} (h : (f s).Faultless data) :
    (onFloats f).Faultless ⟨s, .float data⟩ := by
  intro t hfault
  rw [onFloats] at hfault
  rcases hr : f s data with ⟨b, data'⟩ | ⟨e, data'⟩
  · rw [hr] at hfault
    cases hfault
  · rw [hr] at hfault
    obtain ⟨rfl, -⟩ := EStateM.Result.error.inj hfault
    exact h data' hr

end Tensor

namespace Context

variable {ctx : Context α} {id a b : ValueId}

/-! ### Reading -/

theorem weight_eq {t : Tensor α} (h : ctx.weights[id]? = some t) : ctx.weight id = .ok t := by
  rw [weight, h]

theorem grad_eq {g : Tensor α} (h : ctx.grads[id]? = some g) : ctx.grad id = .ok g := by
  rw [grad, h]

/-- A weight that can be read is bound. -/
theorem weights_of_weight {t : Tensor α} (h : ctx.weight id = .ok t) :
    ctx.weights[id]? = some t := by
  rw [weight] at h
  rcases ht : ctx.weights[id]? with - | u
  · rw [ht] at h
    cases h
  · rw [ht] at h
    rw [Except.ok.inj h]

/-- A gradient that can be read is bound. -/
theorem grads_of_grad {g : Tensor α} (h : ctx.grad id = .ok g) : ctx.grads[id]? = some g := by
  rw [grad] at h
  rcases hg : ctx.grads[id]? with - | u
  · rw [hg] at h
    cases h
  · rw [hg] at h
    rw [Except.ok.inj h]

theorem shapeOf_eq {t : Tensor α} (h : ctx.weights[id]? = some t) :
    ctx.shapeOf id = .ok t.shape := by
  rw [shapeOf, weight_eq h, Except.ok_bind, Except.pure_eq_ok]

theorem floats_eq {v : View α} (h : ctx.weights[id]? = some v.tensor) :
    ctx.floats id = .ok v := by
  rw [floats, weight_eq h, Except.ok_bind]
  rfl

/-- A context with the same weights reads the same. -/
theorem floats_of_weights_eq {ctx' : Context α} {v : View α} (hweights : ctx'.weights = ctx.weights)
    (h : ctx.weights[id]? = some v.tensor) : ctx'.floats id = .ok v :=
  floats_eq (by rw [hweights, h])

theorem indices_eq {v : View Nat} (h : ctx.weights[id]? = some v.indexTensor) :
    ctx.indices id = .ok v := by
  rw [indices, weight_eq h, Except.ok_bind]
  rfl

theorem gradFloats_eq {v : View α} (h : ctx.grads[id]? = some v.tensor) :
    ctx.gradFloats id = .ok v := by
  rw [gradFloats, grad_eq h, Except.ok_bind]
  rfl

/-- Reading the shape of a value needs its weight. -/
theorem exists_weight_of_shapeOf {s : Shape} (h : ctx.shapeOf id = .ok s) :
    ∃ t, ctx.weights[id]? = some t ∧ t.shape = s := by
  obtain ⟨t, ht, hs⟩ := Except.bind_eq_ok.mp h
  exact ⟨t, weights_of_weight ht, Except.ok.inj hs⟩

theorem bound_of_shapeOf {s : Shape} (h : ctx.shapeOf id = .ok s) : (ctx.weights[id]?).isSome := by
  obtain ⟨t, ht, -⟩ := exists_weight_of_shapeOf h
  rw [ht]
  rfl

/-! ### What an update hides -/

theorem weights_withoutWeight_of_ne (h : a ≠ b) :
    (ctx.withoutWeight a).weights[b]? = ctx.weights[b]? := by
  rw [weights_withoutWeight, if_neg h]

/-- While one weight is out, the others are read as before. -/
theorem floats_withoutWeight {v : View α} (hne : a ≠ b) (h : ctx.weights[b]? = some v.tensor) :
    (ctx.withoutWeight a).floats b = .ok v :=
  floats_eq ((weights_withoutWeight_of_ne hne).trans h)

/-- While two weights are out, the others are read as before. -/
theorem floats_withoutWeight_both {id : ValueId} {v : View α} (ha : a ≠ id) (hb : b ≠ id)
    (h : ctx.weights[id]? = some v.tensor) :
    ((ctx.withoutWeight a).withoutWeight b).floats id = .ok v :=
  floats_withoutWeight hb ((weights_withoutWeight_of_ne ha).trans h)

/-- A weight that is bound while another is out is that of another value. -/
theorem weights_of_withoutWeight {t : Tensor α} (h : (ctx.withoutWeight a).weights[b]? = some t) :
    a ≠ b ∧ ctx.weights[b]? = some t := by
  rw [weights_withoutWeight] at h
  split at h
  · cases h
  · exact ⟨‹_›, h⟩

theorem grads_withoutGrad_of_ne (h : a ≠ b) :
    (ctx.withoutGrad a).grads[b]? = ctx.grads[b]? := by
  rw [grads_withoutGrad, if_neg h]

theorem weights_setWeight_of_ne {t : Tensor α} (h : a ≠ b) :
    (ctx.setWeight a t).weights[b]? = ctx.weights[b]? := by
  rw [weights_setWeight, if_neg h]

theorem weights_setWeight_self {t : Tensor α} : (ctx.setWeight a t).weights[a]? = some t := by
  rw [weights_setWeight, if_pos rfl]

theorem grads_setGrad_of_ne {g : Tensor α} (h : a ≠ b) :
    (ctx.setGrad a g).grads[b]? = ctx.grads[b]? := by
  rw [grads_setGrad, if_neg h]

theorem grads_setGrad_self {g : Tensor α} : (ctx.setGrad a g).grads[a]? = some g := by
  rw [grads_setGrad, if_pos rfl]

@[simp] theorem weights_withoutGrad : (ctx.withoutGrad a).weights = ctx.weights := rfl

@[simp] theorem weights_setGrad {g : Tensor α} : (ctx.setGrad a g).weights = ctx.weights := rfl

@[simp] theorem grads_withoutWeight : (ctx.withoutWeight a).grads = ctx.grads := rfl

@[simp] theorem grads_setWeight {t : Tensor α} : (ctx.setWeight a t).grads = ctx.grads := rfl

@[simp] theorem declared_setWeight {t : Tensor α} :
    (ctx.setWeight a t).declared = ctx.declared := rfl

@[simp] theorem declared_setGrad {g : Tensor α} :
    (ctx.setGrad a g).declared = ctx.declared := rfl

/-- A gradient that is bound twice is the one bound last. -/
theorem setGrad_setGrad {g h : Tensor α} : (ctx.setGrad a g).setGrad a h = ctx.setGrad a h := by
  refine ext_lookup (fun _ => rfl) (fun _ => rfl) fun j => ?_
  rw [grads_setGrad, grads_setGrad, grads_setGrad]
  split <;> rfl

/-- Beside a weight, a missing gradient starts from zeros. -/
theorem exists_gradOrZeros [Scalar α] {t : Tensor α} (h : ctx.weights[id]? = some t) :
    ∃ g, ctx.gradOrZeros id = .ok g := by
  rw [gradOrZeros, h]
  rcases ctx.grads[id]? with - | g
  · exact ⟨_, rfl⟩
  · exact ⟨g, rfl⟩

/-- A choice of views, one for each of these values. -/
theorem exists_views [Zero α] {c : Context α} {ids : List ValueId} {shape : ValueId → Shape}
    (h : ∀ id ∈ ids, ∃ v : View α, c.weights[id]? = some v.tensor ∧ v.shape = shape id) :
    ∃ V : ValueId → View α, ∀ id ∈ ids,
      c.weights[id]? = some (V id).tensor ∧ (V id).shape = shape id := by
  have hall : ∀ id : ValueId, ∃ v : View α, id ∈ ids →
      c.weights[id]? = some v.tensor ∧ v.shape = shape id := by
    intro id
    by_cases hid : id ∈ ids
    · obtain ⟨v, hv⟩ := h id hid
      exact ⟨v, fun _ => hv⟩
    · exact ⟨⟨default, Vector.replicate _ 0⟩, fun hmem => absurd hmem hid⟩
  exact Classical.axiomOfChoice hall

/-! ### Updating -/

theorem change_of_ok {f : Context α → Except Error (Context α)} {ctx' : Context α}
    (h : f ctx = .ok ctx') : change f ctx = .ok () ctx' := by
  rw [change, h]

theorem faultless_change (f : Context α → Except Error (Context α)) (c : Context α) :
    (change f).Faultless c := by
  intro c' hfault
  rw [change] at hfault
  rcases hf : f c with e | c''
  · rw [hf] at hfault
    cases hfault
  · rw [hf] at hfault
    cases hfault

section Update

variable {f : Context α → Run (Tensor α) β} {r : β} {e : Failure} {t t' : Tensor α}

theorem updateWeight_of_ok (ht : ctx.weights[id]? = some t)
    (hf : f (ctx.withoutWeight id) t = .ok r t') :
    updateWeight id f ctx = .ok r (ctx.setWeight id t') := by
  rw [updateWeight, weight_eq ht]
  simp only [hf]

/-- An update that succeeds has found the weight and bound what its inner call
left. -/
theorem of_updateWeight_ok {f : Context α → Run (Tensor α) β} {b : β} {ctx' : Context α}
    (h : updateWeight id f ctx = .ok b ctx') : ∃ t t', ctx.weights[id]? = some t ∧
      f (ctx.withoutWeight id) t = .ok b t' ∧ ctx' = ctx.setWeight id t' := by
  rcases ht : ctx.weights[id]? with - | t
  · rw [updateWeight, weight, ht] at h
    cases h
  · rw [updateWeight, weight_eq ht] at h
    rcases hf : f (ctx.withoutWeight id) t with ⟨r, t'⟩ | ⟨e, t'⟩
    · simp only [hf] at h
      obtain ⟨rfl, rfl⟩ := EStateM.Result.ok.inj h
      exact ⟨t, t', rfl, hf, rfl⟩
    · simp only [hf] at h
      cases h

/-- A weight that is filled ends with one result, whatever it held. -/
theorem updateWeight_fills {f : Context α → Run (Tensor α) Unit} {s : Shape}
    {g : (s : Shape) → Run (Vector α s.elemCount) Unit} {old out : Vector α s.elemCount}
    (ht : ctx.weights[id]? = some ⟨s, .float old⟩)
    (hf : f (ctx.withoutWeight id) = Tensor.onFloats g) (hg : Run.Fills (g s) out) :
    updateWeight id f ctx = .ok () (ctx.setWeight id ⟨s, .float out⟩) := by
  refine updateWeight_of_ok ht ?_
  rw [hf]
  exact Tensor.onFloats_of_ok (hg old)

variable {h : Context α → Run (Tensor α × Tensor α) β} {u u' : Tensor α}

theorem updateWeightPair_of_ok (hab : a ≠ b) (ht : ctx.weights[a]? = some t)
    (hu : ctx.weights[b]? = some u)
    (hf : h ((ctx.withoutWeight a).withoutWeight b) (t, u) = .ok r (t', u')) :
    updateWeightPair a b h ctx = .ok r ((ctx.setWeight a t').setWeight b u') := by
  have hu' : (ctx.withoutWeight a).weight b = .ok u :=
    weight_eq (by rw [weights_withoutWeight_of_ne hab, hu])
  rw [updateWeightPair, weight_eq ht]
  simp only [hu', hf]

theorem updateWeightPair_of_error (hab : a ≠ b) (ht : ctx.weights[a]? = some t)
    (hu : ctx.weights[b]? = some u)
    (hf : h ((ctx.withoutWeight a).withoutWeight b) (t, u) = .error e (t', u')) :
    updateWeightPair a b h ctx = .error e ((ctx.setWeight a t').setWeight b u') := by
  have hu' : (ctx.withoutWeight a).weight b = .ok u :=
    weight_eq (by rw [weights_withoutWeight_of_ne hab, hu])
  rw [updateWeightPair, weight_eq ht]
  simp only [hu', hf]

variable [Scalar α]

theorem updateGrad_of_ok (ht : ctx.gradOrZeros id = .ok t)
    (hf : f (ctx.withoutGrad id) t = .ok r t') :
    updateGrad id f ctx = .ok r (ctx.setGrad id t') := by
  rw [updateGrad, ht]
  simp only [hf]

/-- Updates that do the same while the gradient is out are the same. -/
theorem updateGrad_congr {g : Context α → Run (Tensor α) β}
    (h : f (ctx.withoutGrad id) = g (ctx.withoutGrad id)) :
    updateGrad id f ctx = updateGrad id g ctx := by
  rw [updateGrad, updateGrad, h]

theorem faultless_updateGrad (h : ∀ g, ctx.gradOrZeros id = .ok g →
    (f (ctx.withoutGrad id)).Faultless g) : (updateGrad id f).Faultless ctx := by
  intro c' hfault
  rw [updateGrad] at hfault
  rcases hg : ctx.gradOrZeros id with e' | g
  · rw [hg] at hfault
    cases hfault
  · simp only [hg] at hfault
    rcases hr : f (ctx.withoutGrad id) g with ⟨b, g'⟩ | ⟨e', g'⟩
    · simp only [hr] at hfault
      cases hfault
    · simp only [hr] at hfault
      obtain ⟨rfl, -⟩ := EStateM.Result.error.inj hfault
      exact h g hg g' hr

end Update

/-! ### What an update leaves -/

section After

/-- After an update the weight is what the inner call left. -/
theorem after_updateWeight_cases (f : Context α → Run (Tensor α) β) :
    (updateWeight id f).after ctx = ctx ∨ ∃ t, ctx.weights[id]? = some t ∧
      (updateWeight id f).after ctx
        = ctx.setWeight id ((f (ctx.withoutWeight id)).after t) := by
  rcases ht : ctx.weights[id]? with - | t
  · left
    rw [Run.after, updateWeight, weight, ht]
  · right
    refine ⟨t, rfl, ?_⟩
    rw [Run.after, updateWeight, weight_eq ht, Run.after]
    rcases hr : f (ctx.withoutWeight id) t with ⟨r, t'⟩ | ⟨e, t'⟩ <;> simp only [hr]

/-- After an update of two weights these are what the inner call left. -/
theorem after_updateWeightPair_cases (f : Context α → Run (Tensor α × Tensor α) β) :
    (updateWeightPair a b f).after ctx = ctx ∨ ∃ t u, a ≠ b ∧ ctx.weights[a]? = some t ∧
      ctx.weights[b]? = some u ∧
      let p := (f ((ctx.withoutWeight a).withoutWeight b)).after (t, u)
      (updateWeightPair a b f).after ctx = (ctx.setWeight a p.1).setWeight b p.2 := by
  rcases ht : ctx.weights[a]? with - | t
  · left
    rw [Run.after, updateWeightPair, weight, ht]
  rcases hu : (ctx.withoutWeight a).weights[b]? with - | u
  · left
    rw [Run.after, updateWeightPair, weight_eq ht]
    simp only [weight, hu]
  · right
    obtain ⟨hab, hb⟩ := weights_of_withoutWeight hu
    refine ⟨t, u, hab, rfl, hb, ?_⟩
    intro p
    rw [Run.after, updateWeightPair, weight_eq ht]
    simp only [weight_eq hu]
    rcases hr : f ((ctx.withoutWeight a).withoutWeight b) (t, u) with ⟨r, t', u'⟩ | ⟨e, t', u'⟩ <;>
      simp only [hr, p, Run.after]

/-- After an update the gradient is what the inner call left. -/
theorem after_updateGrad_cases [Scalar α] (f : Context α → Run (Tensor α) β) :
    (updateGrad id f).after ctx = ctx ∨ ∃ g, ctx.gradOrZeros id = .ok g ∧
      (updateGrad id f).after ctx = ctx.setGrad id ((f (ctx.withoutGrad id)).after g) := by
  rcases hg : ctx.gradOrZeros id with e | g
  · left
    rw [Run.after, updateGrad, hg]
  · right
    refine ⟨g, rfl, ?_⟩
    rw [Run.after, updateGrad, hg, Run.after]
    rcases hr : f (ctx.withoutGrad id) g with ⟨r, g'⟩ | ⟨e, g'⟩ <;> simp only [hr]

end After

end Context

end TensorProgram
