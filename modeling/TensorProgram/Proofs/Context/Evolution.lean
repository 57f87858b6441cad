/-
TensorProgram/Proofs/Context/Evolution.lean

What a call on a context can change.  `Context.Keeps` relates the context before
a call to the one after it: nothing that was bound is unbound, and bindings that
fit the declarations still do.  `Context.Evolves W G` says on top of it that
only weights of values in `W` and gradients of values in `G` differ.

Both are reflexive and transitive, and every primitive call moves along them
whether it succeeds or fails, so they pass to kernels and sweeps without a look
at how they end.
-/
import TensorProgram.Proofs.Context.Bindings

namespace TensorProgram

variable {α β : Type}

/-- The kind and shape of a tensor. -/
def Tensor.declaration (t : Tensor α) : Declaration := ⟨t.kind, t.shape⟩

namespace Tensor

/-- A tensor that fits a declaration of scalars is a buffer of scalars. -/
theorem eq_float {t : Tensor α} {s : Shape} (h : t.declaration = ⟨.float, s⟩) :
    ∃ data : Vector α s.elemCount, t = ⟨s, .float data⟩ := by
  obtain ⟨shape, data | data⟩ := t
  · obtain ⟨-, rfl⟩ := Declaration.mk.inj h
    exact ⟨data, rfl⟩
  · exact absurd (Declaration.mk.inj h).1 ElemKind.noConfusion

/-- A tensor that fits a declaration of indices is a buffer of indices. -/
theorem eq_index {t : Tensor α} {s : Shape} (h : t.declaration = ⟨.index, s⟩) :
    ∃ data : Vector Nat s.elemCount, t = ⟨s, .index data⟩ := by
  obtain ⟨shape, data | data⟩ := t
  · exact absurd (Declaration.mk.inj h).1 ElemKind.noConfusion
  · obtain ⟨-, rfl⟩ := Declaration.mk.inj h
    exact ⟨data, rfl⟩

@[simp] theorem declaration_zeros [Scalar α] (k : ElemKind) (s : Shape) :
    (zeros k s : Tensor α).declaration = ⟨k, s⟩ := by
  rw [declaration, kind_zeros, shape_zeros]

@[simp] theorem declaration_zerosLike [Scalar α] (t : Tensor α) :
    t.zerosLike.declaration = t.declaration := declaration_zeros ..

/-- Two tensors have the same kind and shape. -/
def Alike (t t' : Tensor α) : Prop := t'.declaration = t.declaration

instance : Std.Refl (Alike (α := α)) := ⟨fun _ => rfl⟩

instance : Trans (Alike (α := α)) Alike Alike := ⟨fun h h' => Eq.trans h' h⟩

/-- Two pairs of tensors have the same kinds and shapes. -/
def AlikePair (p p' : Tensor α × Tensor α) : Prop := Alike p.1 p'.1 ∧ Alike p.2 p'.2

instance : Std.Refl (AlikePair (α := α)) := ⟨fun _ => ⟨rfl, rfl⟩⟩

instance : Trans (AlikePair (α := α)) AlikePair AlikePair :=
  ⟨fun h h' => ⟨Trans.trans h.1 h'.1, Trans.trans h.2 h'.2⟩⟩

/-! ### Writes keep kind and shape -/

theorem moves_onFloats (f : (s : Shape) → Run (Vector α s.elemCount) β) :
    Run.Moves Alike (onFloats f) := by
  rintro ⟨s, data | data⟩
  · rw [Run.after, onFloats]
    rcases f s data with ⟨b, data'⟩ | ⟨e, data'⟩ <;> rfl
  · rfl

theorem moves_onFloatPair
    (f : (s t : Shape) → Run (Vector α s.elemCount × Vector α t.elemCount) β) :
    Run.Moves AlikePair (onFloatPair f) := by
  rintro ⟨⟨s, x | x⟩, ⟨t, y | y⟩⟩
  · rw [Run.after, onFloatPair]
    rcases f s t (x, y) with ⟨b, x', y'⟩ | ⟨e, x', y'⟩ <;> exact ⟨rfl, rfl⟩
  all_goals exact ⟨rfl, rfl⟩

theorem moves_onFloatsAndIndices
    (f : (s t : Shape) → Run (Vector α s.elemCount × Vector Nat t.elemCount) β) :
    Run.Moves AlikePair (onFloatsAndIndices f) := by
  rintro ⟨⟨s, x | x⟩, ⟨t, y | y⟩⟩
  · exact ⟨rfl, rfl⟩
  · rw [Run.after, onFloatsAndIndices]
    rcases f s t (x, y) with ⟨b, x', y'⟩ | ⟨e, x', y'⟩ <;> exact ⟨rfl, rfl⟩
  all_goals exact ⟨rfl, rfl⟩

end Tensor

namespace Context

/-- Every bound tensor of a declared value has the declared kind and shape. -/
structure Typed (ctx : Context α) : Prop where
  /-- Weights fit. -/
  weight : ∀ {id : ValueId} {d : Declaration} {t : Tensor α},
    ctx.declared[id]? = some d → ctx.weights[id]? = some t → t.declaration = d
  /-- Gradients fit. -/
  grad : ∀ {id : ValueId} {d : Declaration} {g : Tensor α},
    ctx.declared[id]? = some d → ctx.grads[id]? = some g → g.declaration = d

/-- Nothing was unbound, and what fitted its declaration still does. -/
structure Keeps (c c' : Context α) : Prop where
  /-- No declaration changed. -/
  declared : c'.declared = c.declared
  /-- No weight was unbound. -/
  weightBound : ∀ {id : ValueId}, (c.weights[id]?).isSome → (c'.weights[id]?).isSome
  /-- No gradient was unbound. -/
  gradBound : ∀ {id : ValueId}, (c.grads[id]?).isSome → (c'.grads[id]?).isSome
  /-- Bindings still fit. -/
  typed : c.Typed → c'.Typed

theorem Keeps.refl (c : Context α) : Keeps c c := ⟨rfl, fun h => h, fun h => h, fun h => h⟩

theorem Keeps.trans {c c' c'' : Context α} (h : Keeps c c') (h' : Keeps c' c'') :
    Keeps c c'' where
  declared := h'.declared.trans h.declared
  weightBound hb := h'.weightBound (h.weightBound hb)
  gradBound hb := h'.gradBound (h.gradBound hb)
  typed ht := h'.typed (h.typed ht)

/-- Only weights in `W` and gradients in `G` changed, and bindings were kept. -/
structure Evolves (W G : List ValueId) (c c' : Context α) : Prop extends Keeps c c' where
  /-- No other weight changed. -/
  weights : ∀ {id : ValueId}, id ∉ W → c'.weights[id]? = c.weights[id]?
  /-- No other gradient changed. -/
  grads : ∀ {id : ValueId}, id ∉ G → c'.grads[id]? = c.grads[id]?

variable {W G W' G' : List ValueId} {c c' : Context α} {id a b : ValueId}

theorem Evolves.refl (W G : List ValueId) (c : Context α) : Evolves W G c c :=
  ⟨.refl c, fun _ => rfl, fun _ => rfl⟩

theorem Evolves.trans {c'' : Context α} (h : Evolves W G c c') (h' : Evolves W G c' c'') :
    Evolves W G c c'' where
  toKeeps := h.toKeeps.trans h'.toKeeps
  weights hid := (h'.weights hid).trans (h.weights hid)
  grads hid := (h'.grads hid).trans (h.grads hid)

instance : Std.Refl (Evolves (α := α) W G) := ⟨Evolves.refl W G⟩

instance : Trans (Evolves (α := α) W G) (Evolves W G) (Evolves W G) := ⟨Evolves.trans⟩

/-- A wider footprint allows more. -/
theorem Evolves.mono (hW : W ⊆ W') (hG : G ⊆ G') (h : Evolves W G c c') : Evolves W' G' c c' where
  toKeeps := h.toKeeps
  weights hid := h.weights fun hmem => hid (hW hmem)
  grads hid := h.grads fun hmem => hid (hG hmem)

/-! ### Single bindings -/

/-- Binding a weight that fits what is declared, or what was bound. -/
theorem evolves_setWeight {t : Tensor α} (hid : id ∈ W)
    (ht : c.Typed → ∀ d, c.declared[id]? = some d → t.declaration = d) :
    Evolves W G c (c.setWeight id t) where
  declared := rfl
  weights hj := weights_setWeight_of_ne fun h => hj (h ▸ hid)
  grads _ := rfl
  weightBound {j} hb := by
    rw [weights_setWeight]
    split <;> simp_all
  gradBound hb := hb
  typed hc := by
    refine ⟨fun {j d u} hd hu => ?_, hc.grad⟩
    rw [weights_setWeight] at hu
    split at hu
    · rename_i hj
      obtain rfl := Option.some.inj hu
      exact ht hc d (hj ▸ hd)
    · exact hc.weight hd hu

/-- Binding a gradient that fits what is declared. -/
theorem evolves_setGrad {g : Tensor α} (hid : id ∈ G)
    (hg : c.Typed → ∀ d, c.declared[id]? = some d → g.declaration = d) :
    Evolves W G c (c.setGrad id g) where
  declared := rfl
  weights _ := rfl
  grads hj := grads_setGrad_of_ne fun h => hj (h ▸ hid)
  weightBound hb := hb
  gradBound {j} hb := by
    rw [grads_setGrad]
    split <;> simp_all
  typed hc := by
    refine ⟨hc.weight, fun {j d u} hd hu => ?_⟩
    rw [grads_setGrad] at hu
    split at hu
    · rename_i hj
      obtain rfl := Option.some.inj hu
      exact hg hc d (hj ▸ hd)
    · exact hc.grad hd hu

/-- A gradient, or the zeros for a missing one, fits the declaration. -/
theorem Typed.gradOrZeros [Scalar α] (hc : c.Typed) {d : Declaration}
    (hd : c.declared[id]? = some d) {g : Tensor α} (hg : c.gradOrZeros id = .ok g) :
    g.declaration = d := by
  rw [Context.gradOrZeros] at hg
  rcases hgrad : c.grads[id]? with - | g'
  · rcases hweight : c.weights[id]? with - | t
    · simp only [hgrad, hweight, declaration, hd, Except.ok_bind] at hg
      cases hg
      exact Tensor.declaration_zeros ..
    · simp only [hgrad, hweight] at hg
      cases hg
      rw [Tensor.declaration_zerosLike]
      exact hc.weight hd hweight
  · simp only [hgrad] at hg
    cases hg
    exact hc.grad hd hgrad

/-- The weight after an allocation is declared and fits the declaration. -/
theorem declaration_allocated [Scalar α] {t : Tensor α} (h : c.allocated id = .ok t) :
    c.declared[id]? = some t.declaration := by
  rw [allocated] at h
  obtain ⟨d, hd, h⟩ := Except.bind_eq_ok.mp h
  have hdecl : c.declared[id]? = some d := by
    rw [declaration] at hd
    split at hd
    · rename_i d' hd'
      rw [hd', Except.ok.inj hd]
    · cases hd
  -- a bound weight is kept if it fits, and zeros are made otherwise
  rw [hdecl]
  split at h
  · split at h
    · rename_i hfits
      cases h
      rw [Tensor.declaration, hfits.1, hfits.2]
    · cases h
      rw [Tensor.declaration_zeros]
  · cases h
    rw [Tensor.declaration_zeros]

/-! ### Calls -/

section Calls

variable {f : Context α → Run (Tensor α) β}

theorem moves_updateWeight (hid : id ∈ W) (hf : ∀ c, Run.Moves Tensor.Alike (f c)) :
    Run.Moves (Evolves W G) (updateWeight id f) := by
  intro c
  rcases after_updateWeight_cases f with hsame | ⟨t, ht, hafter⟩
  · rw [hsame]
    exact .refl W G c
  · have halike : Tensor.Alike t _ := hf (c.withoutWeight id) t
    rw [hafter]
    exact evolves_setWeight hid fun hc d hd => halike.trans (hc.weight hd ht)

theorem moves_updateWeightPair {f : Context α → Run (Tensor α × Tensor α) β} (ha : a ∈ W)
    (hb : b ∈ W) (hf : ∀ c, Run.Moves Tensor.AlikePair (f c)) :
    Run.Moves (Evolves W G) (updateWeightPair a b f) := by
  intro c
  rcases after_updateWeightPair_cases f with hsame | ⟨t, u, hab, ht, hu, hafter⟩
  · rw [hsame]
    exact .refl W G c
  · obtain ⟨hfirst, hsecond⟩ : Tensor.AlikePair (t, u) _ :=
      hf ((c.withoutWeight a).withoutWeight b) (t, u)
    rw [hafter]
    exact .trans (evolves_setWeight ha fun hc d hd => hfirst.trans (hc.weight hd ht))
      (evolves_setWeight hb fun hc d hd => hsecond.trans
        (hc.weight hd (by rw [weights_setWeight_of_ne hab, hu])))

variable [Scalar α]

theorem moves_updateGrad (hid : id ∈ G) (hf : ∀ c, Run.Moves Tensor.Alike (f c)) :
    Run.Moves (Evolves W G) (updateGrad id f) := by
  intro c
  rcases after_updateGrad_cases f with hsame | ⟨g, hg, hafter⟩
  · rw [hsame]
    exact .refl W G c
  · have halike : Tensor.Alike g _ := hf (c.withoutGrad id) g
    rw [hafter]
    exact evolves_setGrad hid fun hc d hd => halike.trans (hc.gradOrZeros hd hg)

theorem moves_ensureGrad (hid : id ∈ G) :
    Run.Moves (Evolves W G) (change fun c : Context α => c.ensureGrad id) := by
  intro c
  rcases hg : c.gradOrZeros id with e | g
  · rw [Run.after, change, ensureGrad, hg]
    exact .refl W G c
  · rw [Run.after, change, ensureGrad, hg]
    exact evolves_setGrad hid fun hc d hd => hc.gradOrZeros hd hg

end Calls

end Context

end TensorProgram
