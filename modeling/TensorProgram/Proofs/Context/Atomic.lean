/-
TensorProgram/Proofs/Context/Atomic.lean

Calls that change everything or nothing.  An atomic call succeeds, or it reports
an error and leaves the state as it was (`Run.Atomic`).

An update takes a weight out of the context, runs a call on it and binds what
that call left.  If the inner call reports and keeps the tensor, then the same
tensor is bound again and the context is the old one.  So the outer call can be
opened step by step: at each step it reports, or more is known of the context.
The lemmas `reports_…_or` are these steps, one for every primitive, and what
remains at the end is a call that succeeds.
-/
import TensorProgram.Proofs.Context.Evolution

namespace TensorProgram

variable {α β γ σ : Type}

/-! ### Atomic calls -/

namespace Run

/-- The call reports an error and keeps the state, or it succeeds. -/
def Atomic (f : Run σ β) (s : σ) : Prop := f.Reports s ∨ ∃ b s', f s = .ok b s'

variable {f : Run σ β} {s s' : σ}

theorem Atomic.faultless (h : f.Atomic s) : f.Faultless s := by
  rcases h with h | ⟨b, s', h⟩
  · exact h.faultless
  · exact faultless_of_ok h

/-- A failed atomic call left the state alone. -/
theorem Atomic.eq_of_error {e : Failure} (h : f.Atomic s) (hf : f s = .error e s') : s' = s := by
  rcases h with ⟨e', h⟩ | ⟨b, s'', h⟩
  · rw [h] at hf
    exact (EStateM.Result.error.inj hf).2.symm
  · rw [h] at hf
    cases hf

/-! ### Sequences of atomic calls -/

theorem atomic_get {f : σ → Run σ β} (h : (f s).Atomic s) :
    Atomic ((get : Run σ σ) >>= f) s := h

/-- A check keeps the state, so a sequence is atomic if its rest is. -/
theorem atomic_check {x : Except Error β} {g : β → Run σ γ} (h : ∀ b, x = .ok b → (g b).Atomic s) :
    Atomic ((liftM x : Run σ β) >>= g) s := by
  rcases x with e | b
  · exact .inl ⟨e, rfl⟩
  · exact h b rfl

/-- So does a call that succeeds in the state it began in. -/
theorem atomic_after {g : β → Run σ γ} {b : β} (hf : f s = .ok b s) (hg : (g b).Atomic s) :
    (f >>= g).Atomic s := by
  rw [Atomic, Reports, bind_of_ok hf]
  exact hg

end Run

/-! ### Writing into a tensor -/

namespace Tensor

open Run (Reports)

variable {P : Prop}

/-- Asked for scalars, a tensor of indices reports. -/
theorem reports_onFloats_or {f : (s : Shape) → Run (Vector α s.elemCount) β} {t : Tensor α}
    (h : ∀ s data, t = ⟨s, .float data⟩ → (f s).Reports data ∨ P) :
    (onFloats f).Reports t ∨ P := by
  obtain ⟨s, data | data⟩ := t
  · refine (h s data rfl).imp_left fun ⟨e, he⟩ => ⟨e, ?_⟩
    rw [onFloats, he]
  · exact .inl ⟨_, rfl⟩

theorem reports_onFloatPair_or
    {f : (s t : Shape) → Run (Vector α s.elemCount × Vector α t.elemCount) β}
    {t u : Tensor α} (h : ∀ s x s' y, t = ⟨s, .float x⟩ → u = ⟨s', .float y⟩ → P) :
    (onFloatPair f).Reports (t, u) ∨ P := by
  obtain ⟨s, x | x⟩ := t
  · obtain ⟨s', y | y⟩ := u
    · exact .inr (h s x s' y rfl rfl)
    · exact .inl ⟨_, rfl⟩
  · exact .inl ⟨_, rfl⟩

theorem reports_onFloatsAndIndices_or
    {f : (s t : Shape) → Run (Vector α s.elemCount × Vector Nat t.elemCount) β}
    {t u : Tensor α} (h : ∀ s x s' y, t = ⟨s, .float x⟩ → u = ⟨s', .index y⟩ → P) :
    (onFloatsAndIndices f).Reports (t, u) ∨ P := by
  obtain ⟨s, x | x⟩ := t
  · obtain ⟨s', y | y⟩ := u
    · exact .inl ⟨_, rfl⟩
    · exact .inr (h s x s' y rfl rfl)
  · exact .inl ⟨_, rfl⟩

end Tensor

namespace Context

open Run (Reports)

variable {ctx : Context α} {id a b : ValueId} {s : Shape}

/-! ### What a reading tells -/

/-- A weight that is read as scalars is bound to them. -/
theorem weights_of_floats {v : View α} (h : ctx.floats id = .ok v) :
    ctx.weights[id]? = some v.tensor := by
  obtain ⟨⟨s, data | data⟩, ht, hv⟩ := Except.bind_eq_ok.mp h
  · rw [weights_of_weight ht, ← Except.ok.inj hv]
    rfl
  · cases hv

/-- A weight that is read as indices is bound to them. -/
theorem weights_of_indices {v : View Nat} (h : ctx.indices id = .ok v) :
    ctx.weights[id]? = some v.indexTensor := by
  obtain ⟨⟨s, data | data⟩, ht, hv⟩ := Except.bind_eq_ok.mp h
  · cases hv
  · rw [weights_of_weight ht, ← Except.ok.inj hv]
    rfl

/-- What is read while a weight is out belongs to another value. -/
theorem weights_of_floats_without {v : View α} (h : (ctx.withoutWeight a).floats b = .ok v) :
    a ≠ b ∧ ctx.weights[b]? = some v.tensor :=
  weights_of_withoutWeight (weights_of_floats h)

/-- What is read while two weights are out belongs to a third value. -/
theorem weights_of_floats_without_both {id : ValueId} {v : View α}
    (h : ((ctx.withoutWeight a).withoutWeight b).floats id = .ok v) :
    a ≠ id ∧ b ≠ id ∧ ctx.weights[id]? = some v.tensor := by
  obtain ⟨hb, h⟩ := weights_of_floats_without h
  obtain ⟨ha, h⟩ := weights_of_withoutWeight h
  exact ⟨ha, hb, h⟩

/-- A bound tensor has the shape that was looked up. -/
theorem shape_eq {t : Tensor α} (hs : ctx.shapeOf id = .ok s) (ht : ctx.weights[id]? = some t) :
    t.shape = s := by
  obtain ⟨u, hu, rfl⟩ := exists_weight_of_shapeOf hs
  rw [Option.some.inj (ht.symm.trans hu)]

/-! ### Binding a tensor again -/

/-- Binding what is bound changes nothing. -/
theorem setWeight_self {t : Tensor α} (ht : ctx.weights[id]? = some t) :
    ctx.setWeight id t = ctx := by
  refine ext_lookup (fun _ => rfl) (fun j => ?_) fun _ => rfl
  rw [weights_setWeight]
  split
  · rename_i hj
    rw [← hj, ht]
  · rfl

/-- Binding a tensor of the shape that is bound keeps all shapes. -/
theorem shapeOf_setWeight {t : Tensor α} (hs : ctx.shapeOf id = .ok s) (ht : t.shape = s)
    (j : ValueId) : (ctx.setWeight id t).shapeOf j = ctx.shapeOf j := by
  by_cases hj : id = j
  · subst hj
    rw [shapeOf_eq weights_setWeight_self, ht, hs]
  · rw [shapeOf, shapeOf, weight, weight, weights_setWeight_of_ne hj]

/-! ### Updating -/

section Update

variable {P : Prop}

/-- An update of a weight reports, or the weight is bound. -/
theorem reports_updateWeight_or {f : Context α → Run (Tensor α) β}
    (h : ∀ t, ctx.weights[id]? = some t → (f (ctx.withoutWeight id)).Reports t ∨ P) :
    (updateWeight id f).Reports ctx ∨ P := by
  rcases ht : ctx.weights[id]? with - | t
  · exact .inl ⟨.missingTensor id .weight, by rw [updateWeight, weight, ht]⟩
  · rcases h t ht with hreports | hp
    · obtain ⟨e, he⟩ := hreports
      refine .inl ⟨e, ?_⟩
      rw [updateWeight, weight_eq ht]
      simp only [he, setWeight_self ht]
    · exact .inr hp

/-- An update of two weights reports, or they are the bound weights of two
values. -/
theorem reports_updateWeightPair_or {f : Context α → Run (Tensor α × Tensor α) β}
    (h : ∀ t u, a ≠ b → ctx.weights[a]? = some t → ctx.weights[b]? = some u →
      (f ((ctx.withoutWeight a).withoutWeight b)).Reports (t, u) ∨ P) :
    (updateWeightPair a b f).Reports ctx ∨ P := by
  rcases ht : ctx.weights[a]? with - | t
  · exact .inl ⟨.missingTensor a .weight, by rw [updateWeightPair, weight, ht]⟩
  rcases hu : (ctx.withoutWeight a).weights[b]? with - | u
  · refine .inl ⟨.missingTensor b .weight, ?_⟩
    rw [updateWeightPair, weight_eq ht]
    simp only [weight, hu]
  · obtain ⟨hab, hb⟩ := weights_of_withoutWeight hu
    rcases h t u hab ht hb with hreports | hp
    · obtain ⟨e, he⟩ := hreports
      refine .inl ⟨e, ?_⟩
      rw [updateWeightPair_of_error hab ht hb he, setWeight_self ht, setWeight_self hb]
    · exact .inr hp

/-- An update does not fault if the inner call does not. -/
theorem faultless_updateWeight {f : Context α → Run (Tensor α) β}
    (h : ∀ t, ctx.weights[id]? = some t → (f (ctx.withoutWeight id)).Faultless t) :
    (updateWeight id f).Faultless ctx := by
  intro c' hfault
  rcases ht : ctx.weights[id]? with - | t
  · rw [updateWeight, weight, ht] at hfault
    cases hfault
  · rw [updateWeight, weight_eq ht] at hfault
    rcases hr : f (ctx.withoutWeight id) t with ⟨b, t'⟩ | ⟨e, t'⟩
    · simp only [hr] at hfault
      cases hfault
    · simp only [hr] at hfault
      obtain ⟨rfl, -⟩ := EStateM.Result.error.inj hfault
      exact h t ht t' hr

end Update

end Context

end TensorProgram
