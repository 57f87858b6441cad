/-
TensorProgram/Proofs/Context/Parallel.lean

The way back on two contexts at once.  Gradients are only ever written: each
update combines a list of writes with a gradient, and which writes these are is
computed from weights and from the gradient of the output.  Two contexts that
agree on those receive the same writes, whatever their other gradients hold.

* `Run.Scatters combine f` and `Tensor.Scatters combine f`: whether the call
  succeeds and which writes it makes does not depend on what it writes into.
* `Context.Parallel combine S c₀ d₀ c d`: the gradients of `c` and `d` come from
  those of `c₀` and `d₀` by the same writes.  An update of a gradient keeps this
  (`Context.carries_updateGrad`), and so does the way back once the output has
  a gradient (`Context.carries_backward`).
-/
import TensorProgram.Proofs.Context.Agreement

namespace TensorProgram

variable {α β ε ι : Type} {n : Nat}

open Run (Carries carries_check carries_compute)

/-! ### Buffers -/

/-- Two buffers come from two others by the same writes. -/
def SameWrites (combine : ε → ε → ε) (x₀ y₀ x y : Vector ε n) : Prop :=
  ∃ ws, x = applyWrites combine ws x₀ ∧ y = applyWrites combine ws y₀

namespace Run

variable {combine : ε → ε → ε}

/-- On any two buffers the call ends alike, and if it succeeds then it has made
the same writes to both. -/
def Scatters (combine : ε → ε → ε) (f : Run (Vector ε n) Unit) : Prop :=
  ∀ x₀ y₀, Carries (SameWrites combine x₀ y₀) (SameWrites combine x₀ y₀) f

theorem scatters_modifyAt (i : Nat) (v : ε) :
    Scatters combine (modifyAt i (combine · v) : Run (Vector ε n) Unit) := by
  rintro x₀ y₀ _ _ ⟨ws, rfl, rfl⟩
  rcases Nat.lt_or_ge i n with h | h
  · rw [modifyAt_of_lt h, modifyAt_of_lt h]
    refine .ok ⟨ws ++ [(i, v)], ?_, ?_⟩ <;>
      rw [applyWrites_append, applyWrites_cons, applyWrites_nil, applyWrite, dif_pos h]
  · rw [modifyAt_of_le h, modifyAt_of_le h]
    exact .error trivial

theorem Scatters.check_bind {x : Except Error β} {f : β → Run (Vector ε n) Unit}
    (h : ∀ b, Scatters combine (f b)) : Scatters combine ((liftM x : Run _ β) >>= f) :=
  fun x₀ y₀ => (carries_check x).bind fun b => h b x₀ y₀

theorem Scatters.compute_bind {x : Outcome β} {f : β → Run (Vector ε n) Unit}
    (h : ∀ b, Scatters combine (f b)) : Scatters combine ((liftM x : Run _ β) >>= f) :=
  fun x₀ y₀ => (carries_compute x).bind fun b => h b x₀ y₀

theorem Scatters.forM {xs : List ι} {visit : ι → Run (Vector ε n) Unit}
    (h : ∀ x, Scatters combine (visit x)) : Scatters combine (xs.forM visit) :=
  fun x₀ y₀ => .forM fun x _ => h x x₀ y₀

theorem scatters_scatter (targets : List ι) (position : ι → Outcome Nat) (value : ι → Outcome ε) :
    Scatters combine (scatter combine targets position value : Run (Vector ε n) Unit) :=
  .forM fun _ => .compute_bind fun v => .compute_bind fun i => scatters_modifyAt i v

end Run

/-! ### Tensors -/

namespace Tensor

variable {combine : α → α → α}

/-- Combine writes with the elements of a tensor of scalars. -/
def write (combine : α → α → α) (ws : List (Nat × α)) : Tensor α → Tensor α
  | ⟨s, .float data⟩ => ⟨s, .float (applyWrites combine ws data)⟩
  | t => t

@[simp] theorem write_nil (t : Tensor α) : t.write combine [] = t := by
  obtain ⟨s, data | data⟩ := t <;> rfl

/-- Whether the call succeeds and which writes it makes is the same on tensors of
one kind and shape. -/
def Scatters (combine : α → α → α) (f : Run (Tensor α) Unit) : Prop :=
  ∀ t₀ u₀ : Tensor α, u₀.declaration = t₀.declaration → ∀ ws,
    Run.Alike (fun t u => ∃ vs, t = t₀.write combine vs ∧ u = u₀.write combine vs) (fun _ _ => True)
      (f (t₀.write combine ws)) (f (u₀.write combine ws))

theorem scatters_onFloats {f : (s : Shape) → Run (Vector α s.elemCount) Unit}
    (hf : ∀ s, Run.Scatters combine (f s)) : Scatters combine (onFloats f) := by
  rintro ⟨s, x₀ | x₀⟩ u₀ hdecl ws
  · obtain ⟨y₀, rfl⟩ := eq_float hdecl
    have halike := hf s x₀ y₀ _ _ ⟨ws, rfl, rfl⟩
    rw [write, write, onFloats, onFloats]
    generalize f s (applyWrites combine ws x₀) = x at halike
    generalize f s (applyWrites combine ws y₀) = y at halike
    cases halike with
    | ok related =>
        obtain ⟨vs, rfl, rfl⟩ := related
        exact .ok ⟨vs, rfl, rfl⟩
    | error => exact .error trivial
  · obtain ⟨y₀, rfl⟩ := eq_index hdecl
    exact .error trivial

theorem Scatters.check_bind {x : Except Error β} {f : β → Run (Tensor α) Unit}
    (h : ∀ b, Scatters combine (f b)) : Scatters combine ((liftM x : Run _ β) >>= f) := by
  intro t₀ u₀ hdecl ws
  rcases x with e | b
  · exact .error trivial
  · exact h b t₀ u₀ hdecl ws

end Tensor

/-! ### Contexts -/

namespace Context

variable [Scalar α] {combine : α → α → α} {S : List ValueId} {dest id : ValueId}
  {c₀ d₀ c d : Context α}

/-- The gradient of a value has not been touched in either context, or has
received the same writes in both. -/
inductive Received (combine : α → α → α) (c₀ d₀ c d : Context α) (id : ValueId) : Prop
  /-- Nothing was written. -/
  | nothing (left : c.grads[id]? = c₀.grads[id]?) (right : d.grads[id]? = d₀.grads[id]?)
  /-- These writes were made. -/
  | writes (t u : Tensor α) (ws : List (Nat × α)) (ht : c₀.gradOrZeros id = .ok t)
      (hu : d₀.gradOrZeros id = .ok u) (left : c.grads[id]? = some (t.write combine ws))
      (right : d.grads[id]? = some (u.write combine ws))

/-- The contexts differ in their gradients only. -/
structure SameValues (c₀ c : Context α) : Prop where
  /-- Declarations are the same. -/
  declared : c.declared = c₀.declared
  /-- Weights are the same. -/
  weights : c.weights = c₀.weights

/-- The gradients of values in `S` have received the same writes since `c₀` and
`d₀`. -/
structure Parallel (combine : α → α → α) (S : List ValueId) (c₀ d₀ c d : Context α) : Prop where
  /-- The first context differs from its beginning in gradients only. -/
  left : SameValues c₀ c
  /-- So does the second. -/
  right : SameValues d₀ d
  /-- Gradients have received the same. -/
  received : ∀ id ∈ S, Received combine c₀ d₀ c d id

/-- The contexts run in parallel, and the output has the same gradient in both. -/
structure Abreast (combine : α → α → α) (S : List ValueId) (dest : ValueId)
    (c₀ d₀ c d : Context α) : Prop extends Parallel combine S c₀ d₀ c d where
  /-- The gradient of the output. -/
  out : ∃ g, c.grads[dest]? = some g ∧ d.grads[dest]? = some g

/-- The contexts agree on the weights of `S` and on the gradient of `dest`, and
their other gradients are of the same kinds and shapes. -/
structure Comparable (S : List ValueId) (dest : ValueId) (c₀ d₀ : Context α) : Prop where
  /-- The weights. -/
  weights : ∀ id ∈ S, d₀.weights[id]? = c₀.weights[id]?
  /-- The gradient of the output. -/
  out : d₀.gradOrZeros dest = c₀.gradOrZeros dest
  /-- The other gradients. -/
  grads : ∀ id ∈ S,
    (d₀.gradOrZeros id).map Tensor.declaration = (c₀.gradOrZeros id).map Tensor.declaration

/-- Whether the call succeeds and what it writes to gradients of values in `S` is
determined by weights of values in `S` and the gradient of `dest`. -/
def InStep (combine : α → α → α) (S : List ValueId) (dest : ValueId) (f : Run (Context α) Unit) :
    Prop :=
  ∀ c₀ d₀, Comparable S dest c₀ d₀ →
    Carries (Parallel combine S c₀ d₀) (Parallel combine S c₀ d₀) f

theorem Parallel.refl (combine : α → α → α) (S : List ValueId) (c₀ d₀ : Context α) :
    Parallel combine S c₀ d₀ c₀ d₀ :=
  ⟨⟨rfl, rfl⟩, ⟨rfl, rfl⟩, fun _ _ => .nothing rfl rfl⟩

/-- A gradient that was not touched is what it was. -/
theorem SameValues.gradOrZeros (h : SameValues c₀ c) (hgrad : c.grads[id]? = c₀.grads[id]?) :
    c.gradOrZeros id = c₀.gradOrZeros id :=
  gradOrZeros_congr (by rw [h.declared]) (by rw [h.weights]) hgrad

/-- Binding a gradient that has received the same writes. -/
theorem Parallel.setGrad (h : Parallel combine S c₀ d₀ c d) {t u : Tensor α}
    (ht : c₀.gradOrZeros id = .ok t) (hu : d₀.gradOrZeros id = .ok u) (ws : List (Nat × α)) :
    Parallel combine S c₀ d₀ (c.setGrad id (t.write combine ws))
      (d.setGrad id (u.write combine ws)) where
  left := ⟨h.left.declared, h.left.weights⟩
  right := ⟨h.right.declared, h.right.weights⟩
  received j hj := by
    by_cases hne : id = j
    · subst hne
      exact .writes t u ws ht hu grads_setGrad_self grads_setGrad_self
    · cases h.received j hj with
      | nothing left right =>
          exact .nothing ((grads_setGrad_of_ne hne).trans left)
            ((grads_setGrad_of_ne hne).trans right)
      | writes t u ws ht hu left right =>
          exact .writes t u ws ht hu ((grads_setGrad_of_ne hne).trans left)
            ((grads_setGrad_of_ne hne).trans right)

section Comparable

variable (h₀ : Comparable S dest c₀ d₀)

include h₀

theorem Parallel.agree (h : Parallel combine S c₀ d₀ c d) :
    Agree (· ∈ S) (fun _ => False) c d where
  weights id hid := by rw [h.left.weights, h.right.weights, h₀.weights id hid]
  grads _ hid := hid.elim

theorem Abreast.agree (h : Abreast combine S dest c₀ d₀ c d) :
    Agree (· ∈ S) (· = dest) c d where
  weights := (h.toParallel.agree h₀).weights
  grads id hid := by
    obtain ⟨g, hc, hd⟩ := h.out
    rw [hid, hc, hd]

/-- Either a gradient can be made in neither context, or it is in both what was
there at the beginning with the same writes. -/
theorem Parallel.gradOrZeros (h : Parallel combine S c₀ d₀ c d) (hid : id ∈ S) :
    (∃ e, c.gradOrZeros id = .error e ∧ d.gradOrZeros id = .error e) ∨
      ∃ t u ws, c₀.gradOrZeros id = .ok t ∧ d₀.gradOrZeros id = .ok u ∧
        u.declaration = t.declaration ∧ c.gradOrZeros id = .ok (t.write combine ws) ∧
        d.gradOrZeros id = .ok (u.write combine ws) := by
  have hgrads := h₀.grads id hid
  cases h.received id hid with
  | nothing left right =>
      -- both are what they were, with no writes yet
      rw [h.left.gradOrZeros left, h.right.gradOrZeros right]
      rcases hc : c₀.gradOrZeros id with e | t
      · rcases hd : d₀.gradOrZeros id with e' | u <;> rw [hc, hd] at hgrads
        · obtain rfl := Except.error.inj hgrads
          exact .inl ⟨_, rfl, rfl⟩
        · cases hgrads
      · rcases hd : d₀.gradOrZeros id with e' | u <;> rw [hc, hd] at hgrads
        · cases hgrads
        · refine .inr ⟨t, u, [], rfl, rfl, Except.ok.inj hgrads, ?_, ?_⟩ <;> rw [Tensor.write_nil]
  | writes t u ws ht hu left right =>
      rw [ht, hu] at hgrads
      exact .inr ⟨t, u, ws, ht, hu, Except.ok.inj hgrads, gradOrZeros_of_grad left,
        gradOrZeros_of_grad right⟩

theorem Abreast.setGrad (h : Abreast combine S dest c₀ d₀ c d) {t u : Tensor α}
    (ht : c₀.gradOrZeros id = .ok t) (hu : d₀.gradOrZeros id = .ok u) (ws : List (Nat × α)) :
    Abreast combine S dest c₀ d₀ (c.setGrad id (t.write combine ws))
      (d.setGrad id (u.write combine ws)) where
  toParallel := h.toParallel.setGrad ht hu ws
  out := by
    by_cases hne : id = dest
    · subst hne
      obtain rfl : u = t := Except.ok.inj (hu.symm.trans (h₀.out.trans ht))
      exact ⟨_, grads_setGrad_self, grads_setGrad_self⟩
    · obtain ⟨g, hc, hd⟩ := h.out
      exact ⟨g, (grads_setGrad_of_ne hne).trans hc, (grads_setGrad_of_ne hne).trans hd⟩

/-! ### Calls -/

/-- An update of a gradient carries along each relation that tells how the
gradients run in parallel and what the update reads. -/
theorem carries_updateGrad_of {R : Context α → Context α → Prop}
    {f : Context α → Run (Tensor α) Unit} (hid : id ∈ S)
    (hR : ∀ c d, R c d → Parallel combine S c₀ d₀ c d)
    (hset : ∀ c d, R c d → ∀ t u ws, c₀.gradOrZeros id = .ok t → d₀.gradOrZeros id = .ok u →
      R (c.setGrad id (t.write combine ws)) (d.setGrad id (u.write combine ws)))
    (hf : ∀ c d, R c d → f (d.withoutGrad id) = f (c.withoutGrad id))
    (hwrites : ∀ c, Tensor.Scatters combine (f c)) : Carries R R (updateGrad id f) := by
  intro c d h
  rw [updateGrad, updateGrad, hf c d h]
  obtain ⟨e, hc, hd⟩ | ⟨t, u, ws, ht, hu, hdecl, hc, hd⟩ := (hR c d h).gradOrZeros h₀ hid
  · rw [hc, hd]
    exact .error trivial
  · rw [hc, hd]
    have halike := hwrites (c.withoutGrad id) t u hdecl ws
    simp only
    generalize f (c.withoutGrad id) (t.write combine ws) = x at halike
    generalize f (c.withoutGrad id) (u.write combine ws) = y at halike
    cases halike with
    | ok related =>
        obtain ⟨vs, rfl, rfl⟩ := related
        exact .ok (hset c d h t u vs ht hu)
    | error => exact .error trivial

/-- Updating a gradient while reading weights. -/
theorem carries_updateGrad_parallel {f : Context α → Run (Tensor α) Unit} (hid : id ∈ S)
    (hf : ∀ c d, Agree (· ∈ S) (fun _ => False) c d → f d = f c)
    (hwrites : ∀ c, Tensor.Scatters combine (f c)) :
    Carries (Parallel combine S c₀ d₀) (Parallel combine S c₀ d₀) (updateGrad id f) :=
  carries_updateGrad_of h₀ hid (fun _ _ h => h) (fun _ _ h _ _ ws ht hu => h.setGrad ht hu ws)
    (fun _ _ h => hf _ _ ((h.agree h₀).withoutGrad id)) hwrites

/-- Updating a gradient while reading weights and the gradient of the output. -/
theorem carries_updateGrad {f : Context α → Run (Tensor α) Unit} (hid : id ∈ S)
    (hf : ∀ c d, Agree (· ∈ S) (· = dest) c d → f d = f c)
    (hwrites : ∀ c, Tensor.Scatters combine (f c)) :
    Carries (Abreast combine S dest c₀ d₀) (Abreast combine S dest c₀ d₀) (updateGrad id f) :=
  carries_updateGrad_of h₀ hid (fun _ _ h => h.toParallel)
    (fun _ _ h _ _ ws ht hu => h.setGrad h₀ ht hu ws)
    (fun _ _ h => hf _ _ ((h.agree h₀).withoutGrad id)) hwrites

/-- Once the output has a gradient, the contexts run abreast. -/
theorem carries_ensureGrad (hdest : dest ∈ S) :
    Carries (Parallel combine S c₀ d₀) (Abreast combine S dest c₀ d₀)
      (change fun c => c.ensureGrad dest) := by
  intro c d h
  rw [change, change, ensureGrad, ensureGrad]
  obtain ⟨e, hc, hd⟩ | ⟨t, u, ws, ht, hu, -, hc, hd⟩ := h.gradOrZeros h₀ hdest
  · rw [hc, hd]
    exact .error trivial
  · obtain rfl : u = t := Except.ok.inj (hu.symm.trans (h₀.out.trans ht))
    rw [hc, hd]
    exact .ok ⟨h.setGrad ht hu ws, ⟨_, grads_setGrad_self, grads_setGrad_self⟩⟩

/-- The way back, after its checks. -/
theorem carries_backward {f : Run (Context α) Unit} (hdest : dest ∈ S)
    (hf : Carries (Abreast combine S dest c₀ d₀) (Abreast combine S dest c₀ d₀) f) :
    Carries (Parallel combine S c₀ d₀) (Parallel combine S c₀ d₀)
      ((change fun c => c.ensureGrad dest) >>= fun _ => f) :=
  (carries_ensureGrad h₀ hdest).bind fun _ => hf.mono (fun _ _ h => h) fun _ _ h => h.toParallel

end Comparable

end Context

end TensorProgram
