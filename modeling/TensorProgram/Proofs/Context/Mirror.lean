/-
TensorProgram/Proofs/Context/Mirror.lean

Gradients that mirror weights.  In a mirrored context the gradient of a value
has the kind and shape of its weight, wherever both are bound.  A kernel that
runs backward looks only at shapes of weights before it addresses gradients by
them, so this is what keeps it inside their buffers.

`Run.Lands Q f s` says that the call `f`, begun in `s`, does not fault and
leaves a state in `Q`, whether it succeeds or reports an error.  The calls that
make and update gradients land in contexts that mirror the same weights, as soon
as the inner call does not fault on a gradient of the right shape.
-/
import TensorProgram.Proofs.Context.Atomic

namespace TensorProgram

variable {α β γ ι σ : Type}

/-! ### Calls that land -/

namespace Run

/-- The call does not fault, and the state it leaves, however it ends, is in
`Q`. -/
structure Lands (Q : σ → Prop) (f : Run σ β) (s : σ) : Prop where
  /-- The call does not fault. -/
  faultless : f.Faultless s
  /-- Where it lands. -/
  after : Q (f.after s)

variable {Q : σ → Prop} {f : Run σ β} {g : β → Run σ γ} {s : σ}

theorem lands_of_ok {s' : σ} {b : β} (h : f s = .ok b s') (hs : Q s') : f.Lands Q s :=
  ⟨faultless_of_ok h, by rwa [after_of_ok h]⟩

theorem Reports.lands (h : f.Reports s) (hs : Q s) : f.Lands Q s := by
  refine ⟨h.faultless, ?_⟩
  obtain ⟨e, he⟩ := h
  rwa [after_of_error he]

/-- What follows begins where the first call landed. -/
theorem Lands.bind (hf : f.Lands Q s) (hg : ∀ b s', Q s' → (g b).Lands Q s') :
    (f >>= g).Lands Q s := by
  have hafter := hf.after
  rcases h : f s with ⟨b, s'⟩ | ⟨e, s'⟩
  · rw [after_of_ok h] at hafter
    have hrest := hg b s' hafter
    refine ⟨hf.faultless.bind fun b' t ht => ?_, ?_⟩
    · rw [h] at ht
      cases ht
      exact hrest.faultless
    · rw [Run.after, bind_of_ok h]
      exact hrest.after
  · rw [after_of_error h] at hafter
    refine ⟨hf.faultless.bind fun b' t ht => ?_, ?_⟩
    · rw [h] at ht
      cases ht
    · rwa [after_of_error (bind_of_error h)]

theorem lands_pure (b : β) (hs : Q s) : (pure b : Run σ β).Lands Q s := lands_of_ok rfl hs

/-- After a call that succeeds, the rest of the sequence decides. -/
theorem lands_after {s' : σ} {b : β} (hf : f s = .ok b s') (hg : (g b).Lands Q s') :
    (f >>= g).Lands Q s := by
  refine ⟨fun t ht => hg.faultless t (by rwa [bind_of_ok hf] at ht), ?_⟩
  rw [Run.after, bind_of_ok hf]
  exact hg.after

theorem lands_get {f : σ → Run σ β} (h : (f s).Lands Q s) :
    Lands Q ((get : Run σ σ) >>= f) s := lands_after rfl h

/-- A check reports, or the rest of the sequence knows that it held. -/
theorem lands_check {x : Except Error β} (hs : Q s) (h : ∀ b, x = .ok b → (g b).Lands Q s) :
    Lands Q ((liftM x : Run σ β) >>= g) s := by
  rcases x with e | b
  · exact Reports.lands ⟨e, rfl⟩ hs
  · exact h b rfl

/-- A loop lands if every visit does. -/
theorem lands_forM {visit : ι → Run σ Unit} {xs : List ι}
    (h : ∀ x ∈ xs, ∀ s, Q s → (visit x).Lands Q s) (hs : Q s) :
    Lands Q (xs.forM visit : Run σ Unit) s := by
  induction xs generalizing s with
  | nil => exact lands_pure () hs
  | cons x xs ih =>
      rw [forM_cons]
      exact (h x (by simp) s hs).bind fun _ s' hs' => ih (fun y hy => h y (by simp [hy])) hs'

/-- A call that performs writes does not fault. -/
theorem Performs.faultless {ε : Type} {n : Nat} {combine : ε → ε → ε} {f : Run (Vector ε n) Unit}
    {ws : List (Nat × ε)} (h : Performs combine f ws) (data : Vector ε n) : f.Faultless data :=
  faultless_of_ok (h.run data)

end Run

/-- Writing into scalars keeps kind and shape and does not fault if the writes
do not. -/
theorem Tensor.lands_onFloats {f : (s : Shape) → Run (Vector α s.elemCount) β} {t : Tensor α}
    (h : ∀ s data, t = ⟨s, .float data⟩ → (f s).Faultless data) :
    (onFloats f).Lands (Alike t) t where
  faultless := by
    obtain ⟨s, data | data⟩ := t
    · exact faultless_onFloats (h s data rfl)
    · exact Run.faultless_of_error rfl
  after := moves_onFloats f t

namespace Context

/-! ### Mirrored contexts -/

/-- Wherever weight and gradient of a value are bound, they have one kind and
shape. -/
def Mirrored (c : Context α) : Prop := ∀ ⦃id : ValueId⦄ ⦃t g : Tensor α⦄,
  c.weights[id]? = some t → c.grads[id]? = some g → g.declaration = t.declaration

/-- The weights are those of `c₀`, and the gradients mirror them. -/
structure Mirrors (c₀ c : Context α) : Prop where
  /-- The weights. -/
  weights : c.weights = c₀.weights
  /-- The gradients. -/
  mirrored : c.Mirrored

variable {c₀ c : Context α} {id : ValueId} {s : Shape}

theorem Mirrored.mirrors (hc : c.Mirrored) : Mirrors c c := ⟨rfl, hc⟩

/-- A gradient that has kind and shape of the weight, if one is bound, keeps a
context mirrored. -/
theorem Mirrored.setGrad (hc : c.Mirrored) {g : Tensor α}
    (hg : ∀ t, c.weights[id]? = some t → g.declaration = t.declaration) :
    (c.setGrad id g).Mirrored := by
  intro j t u ht hu
  rw [grads_setGrad] at hu
  split at hu
  · rename_i hj
    subst hj
    obtain rfl := Option.some.inj hu
    exact hg t ht
  · exact hc ht hu

/-- A mirrored context stays so if the weight that is bound has kind and shape
of the gradient, if there is one, and only then. -/
theorem Mirrored.setWeight_iff (hc : c.Mirrored) {t : Tensor α} :
    (c.setWeight id t).Mirrored ↔
      ∀ g, c.grads[id]? = some g → g.declaration = t.declaration := by
  refine ⟨fun h g hg => h weights_setWeight_self hg, fun h j u g hu hg => ?_⟩
  rw [weights_setWeight] at hu
  split at hu
  · rename_i hj
    subst hj
    obtain rfl := Option.some.inj hu
    exact h g hg
  · exact hc hu hg

/-- Unbinding a weight keeps a context mirrored. -/
theorem Mirrored.withoutWeight (hc : c.Mirrored) : (c.withoutWeight id).Mirrored := by
  intro j t g ht hg
  exact hc (weights_of_withoutWeight ht).2 hg

/-- Unbinding a gradient keeps a context mirrored. -/
theorem Mirrored.withoutGrad (hc : c.Mirrored) : (c.withoutGrad id).Mirrored := by
  intro j t u ht hu
  rw [grads_withoutGrad] at hu
  split at hu
  · cases hu
  · exact hc ht hu

/-- In a mirrored context a gradient, present or still missing, has kind and
shape of the weight. -/
theorem Mirrored.gradOrZeros [Scalar α] (hc : c.Mirrored) {g t : Tensor α}
    (hg : c.gradOrZeros id = .ok g) (ht : c.weights[id]? = some t) :
    g.declaration = t.declaration := by
  rw [Context.gradOrZeros] at hg
  rcases hgrad : c.grads[id]? with - | g'
  · simp only [hgrad, ht] at hg
    obtain rfl := Except.ok.inj hg
    exact Tensor.declaration_zerosLike t
  · simp only [hgrad] at hg
    obtain rfl := Except.ok.inj hg
    exact hc ht hgrad

/-! ### Reading beside the mirrored weights -/

theorem Mirrors.shapeOf (hc : Mirrors c₀ c) (id : ValueId) : c.shapeOf id = c₀.shapeOf id := by
  rw [Context.shapeOf, Context.shapeOf, weight, weight, hc.weights]

/-- A weight that is read has the shape that was looked up. -/
theorem Mirrors.shape_floats (hc : Mirrors c₀ c) (hs : c₀.shapeOf id = .ok s) {v : View α}
    (hv : c.floats id = .ok v) : v.shape = s :=
  shape_eq ((hc.shapeOf id).trans hs) (weights_of_floats hv)

theorem Mirrors.shape_indices (hc : Mirrors c₀ c) (hs : c₀.shapeOf id = .ok s) {v : View Nat}
    (hv : c.indices id = .ok v) : v.shape = s :=
  shape_eq ((hc.shapeOf id).trans hs) (weights_of_indices hv)

/-- A gradient that is read has the shape that was looked up of the weight. -/
theorem Mirrors.shape_gradFloats (hc : Mirrors c₀ c) (hs : c₀.shapeOf id = .ok s) {v : View α}
    (hv : c.gradFloats id = .ok v) : v.shape = s := by
  obtain ⟨t, ht, rfl⟩ := exists_weight_of_shapeOf ((hc.shapeOf id).trans hs)
  obtain ⟨g, hg, hv⟩ := Except.bind_eq_ok.mp hv
  rw [Tensor.shape_of_floats hv]
  exact (Declaration.mk.inj (hc.mirrored ht (grads_of_grad hg))).2

/-! ### Making and updating gradients -/

variable [Scalar α]

theorem lands_ensureGrad (hc : Mirrors c₀ c) (id : ValueId) :
    (change fun c : Context α => c.ensureGrad id).Lands (Mirrors c₀) c := by
  refine ⟨faultless_change _ c, ?_⟩
  rcases hg : c.gradOrZeros id with e | g
  · rw [Run.after, change, ensureGrad, hg]
    exact hc
  · rw [Run.after, change, ensureGrad, hg]
    exact ⟨hc.weights, hc.mirrored.setGrad fun t ht => hc.mirrored.gradOrZeros hg ht⟩

/-- An update that keeps kind and shape of the gradient leaves the context
mirrored, however it ends. -/
theorem mirrors_updateGrad {f : Context α → Run (Tensor α) β} (hc : Mirrors c₀ c)
    (h : ∀ g, c.gradOrZeros id = .ok g → Tensor.Alike g ((f (c.withoutGrad id)).after g)) :
    Mirrors c₀ ((updateGrad id f).after c) := by
  rcases after_updateGrad_cases f with hsame | ⟨g, hg, hafter⟩
  · rw [hsame]
    exact hc
  · rw [hafter]
    exact ⟨hc.weights, hc.mirrored.setGrad fun t ht =>
      (h g hg).trans (hc.mirrored.gradOrZeros hg ht)⟩

/-- An update of a gradient lands if the inner call keeps kind and shape and
does not fault on a gradient of the shape of the weight. -/
theorem lands_updateGrad {f : Context α → Run (Tensor α) β} (hc : Mirrors c₀ c)
    (h : ∀ c' g, Mirrors c₀ c' → (∀ s, c₀.shapeOf id = .ok s → g.shape = s) →
      (f c').Lands (Tensor.Alike g) g) :
    (updateGrad id f).Lands (Mirrors c₀) c := by
  have hinner (g : Tensor α) (hg : c.gradOrZeros id = .ok g) :
      (f (c.withoutGrad id)).Lands (Tensor.Alike g) g := by
    -- with this gradient out, the others mirror the weights still
    refine h _ g ⟨hc.weights, hc.mirrored.withoutGrad⟩ fun s hs => ?_
    obtain ⟨t, ht, rfl⟩ := exists_weight_of_shapeOf ((hc.shapeOf id).trans hs)
    exact (Declaration.mk.inj (hc.mirrored.gradOrZeros hg ht)).2
  exact ⟨faultless_updateGrad fun g hg => (hinner g hg).faultless,
    mirrors_updateGrad hc fun g hg => (hinner g hg).after⟩

end Context

end TensorProgram
