/-
TensorProgram/Proofs/Run.lean

Opening calls.  Checks (`Except Error`), computations (`Outcome`) and calls on
a state (`Run σ`) are sequences of smaller ones; the lemmas here open one step
of a sequence, given how its first part ends.

`Run.after f s` is the state that the call `f` leaves behind when it begins in
`s`, whether it succeeds or fails.  `Run.Moves R f` says that `R` relates the
state before to the state after on every run; for a reflexive and transitive
`R` it is kept by sequences and loops, so an invariant of all calls is proved
once for each primitive call.
-/
import TensorProgram.Failure

namespace TensorProgram

variable {ε β γ σ τ ι : Type}

/-! ### Checks and computations -/

@[simp] theorem Except.ok_bind (a : β) (f : β → Except ε γ) : (Except.ok a >>= f) = f a := rfl

@[simp] theorem Except.error_bind (e : ε) (f : β → Except ε γ) :
    (Except.error e >>= f) = Except.error e := rfl

@[simp] theorem Except.pure_eq_ok (a : β) : (pure a : Except ε β) = .ok a := rfl

@[simp] theorem Except.throw_eq_error (e : ε) : (throw e : Except ε β) = .error e := rfl

/-- A sequence of two checks succeeds if and only if both do. -/
theorem Except.bind_eq_ok {x : Except ε β} {f : β → Except ε γ} {c : γ} :
    (x >>= f) = .ok c ↔ ∃ b, x = .ok b ∧ f b = .ok c := by
  cases x <;> simp

/-- A list of checks that succeeds succeeds at every element. -/
theorem Except.forM_eq_ok {f : ι → Except ε Unit} {xs : List ι} (h : xs.forM f = .ok ()) :
    ∀ x ∈ xs, f x = .ok () := by
  induction xs with
  | nil => simp
  | cons x xs ih =>
      obtain ⟨_, hx, hxs⟩ := Except.bind_eq_ok.mp h
      exact List.forall_mem_cons.mpr ⟨hx, ih hxs⟩

/-- A list of checks succeeds if every one does. -/
theorem Except.forM_of_eq_ok {f : ι → Except ε Unit} {xs : List ι} (h : ∀ x ∈ xs, f x = .ok ()) :
    xs.forM f = .ok () := by
  induction xs with
  | nil => rfl
  | cons x xs ih =>
      have hxs : xs.forM f = .ok () := ih fun y hy => h y (by simp [hy])
      exact Except.bind_eq_ok.mpr ⟨(), h x (by simp), hxs⟩

/-- Folds whose steps agree on the elements of the list agree. -/
theorem Except.foldlM_congr {f g : β → ι → Except ε β} {xs : List ι}
    (h : ∀ b, ∀ x ∈ xs, f b x = g b x) (b : β) : xs.foldlM f b = xs.foldlM g b := by
  induction xs generalizing b with
  | nil => rfl
  | cons x xs ih =>
      rw [List.foldlM_cons, List.foldlM_cons, h b x (by simp)]
      exact congrArg _ (funext fun b => ih (fun b y hy => h b y (by simp [hy])) b)

@[simp] theorem Outcome.liftM_ok (a : β) :
    (liftM (Except.ok a : Except Error β) : Outcome β) = .ok a := rfl

@[simp] theorem Outcome.liftM_error (e : Error) :
    (liftM (Except.error e : Except Error β) : Outcome β) = .error (.error e) := rfl

/-- A list of computations that all succeed answers the list of their results. -/
theorem Outcome.mapM_eq_ok {f : ι → Outcome β} {g : ι → β} {xs : List ι}
    (h : ∀ x ∈ xs, f x = .ok (g x)) : xs.mapM f = .ok (xs.map g) := by
  induction xs with
  | nil => rfl
  | cons x xs ih =>
      have hx : f x = .ok (g x) := h x (by simp)
      have hxs : xs.mapM f = .ok (xs.map g) := ih fun y hy => h y (by simp [hy])
      rw [List.mapM_cons, hx, Except.ok_bind, hxs, Except.ok_bind]
      rfl

namespace Run

/-! ### Opening a sequence -/

@[simp] theorem liftM_check_ok (a : β) :
    (liftM (Except.ok a : Except Error β) : Run σ β) = pure a := rfl

@[simp] theorem liftM_check_error (e : Error) :
    (liftM (Except.error e : Except Error β) : Run σ β) = report e := rfl

@[simp] theorem liftM_ok (a : β) : (liftM (.ok a : Outcome β) : Run σ β) = pure a := rfl

/-- A sequence that succeeds is made of calls that do. -/
theorem exists_of_bind_ok {f : Run σ β} {g : β → Run σ γ} {s s'' : σ} {c : γ}
    (h : (f >>= g) s = .ok c s'') : ∃ b s', f s = .ok b s' ∧ g b s' = .ok c s'' := by
  rcases hf : f s with ⟨b, s'⟩ | ⟨e, s'⟩
  · exact ⟨b, s', rfl, by rwa [bind_of_ok hf] at h⟩
  · rw [bind_of_error hf] at h
    cases h

/-- A check in a sequence that succeeds has let a value pass. -/
theorem exists_of_check_ok {x : Except Error β} {f : β → Run σ γ} {s s' : σ} {c : γ}
    (h : ((liftM x : Run σ β) >>= f) s = .ok c s') : ∃ b, x = .ok b ∧ f b s = .ok c s' := by
  rcases x with e | b
  · cases h
  · exact ⟨b, rfl, h⟩

/-- A computation in a sequence that succeeds has given a value. -/
theorem exists_of_compute_ok {x : Outcome β} {f : β → Run σ γ} {s s' : σ} {c : γ}
    (h : ((liftM x : Run σ β) >>= f) s = .ok c s') : ∃ b, x = .ok b ∧ f b s = .ok c s' := by
  rcases x with e | b
  · cases h
  · exact ⟨b, rfl, h⟩

/-- Reading the state hands it to the rest of the sequence. -/
theorem get_bind_apply (f : σ → Run σ β) (s : σ) : ((get : Run σ σ) >>= f) s = f s s := rfl

@[simp] theorem report_bind (e : Error) (f : β → Run σ γ) : (report e >>= f) = report e := rfl

theorem onFst_of_ok {f : Run σ β} {s s' : σ} {t : τ} {b : β} (h : f s = .ok b s') :
    onFst f (s, t) = .ok b (s', t) := by
  rw [onFst, h]

theorem onSnd_of_ok {f : Run τ β} {s : σ} {t t' : τ} {b : β} (h : f t = .ok b t') :
    onSnd f (s, t) = .ok b (s, t') := by
  rw [onSnd, h]

/-- A list of computations that all succeed keeps the state. -/
theorem mapM_eq_pure {f : ι → Outcome β} {g : ι → β} {xs : List ι}
    (h : ∀ x ∈ xs, f x = .ok (g x)) :
    xs.mapM (fun x => (liftM (f x) : Run σ β)) = pure (xs.map g) := by
  induction xs with
  | nil => rfl
  | cons x xs ih =>
      rw [List.mapM_cons, h x (by simp), liftM_ok, pure_bind, ih fun y hy => h y (by simp [hy]),
        pure_bind, List.map_cons]

/-- Loops whose visits agree on the elements of the list agree. -/
theorem forM_congr {f g : ι → Run σ PUnit} {xs : List ι} (h : ∀ x ∈ xs, f x = g x) :
    (xs.forM f : Run σ PUnit) = xs.forM g := by
  induction xs with
  | nil => rfl
  | cons x xs ih => rw [forM_cons, forM_cons, h x (by simp), ih fun y hy => h y (by simp [hy])]

/-- A loop over images visits the image of every element. -/
theorem forM_map {κ : Type} (f : κ → ι) (xs : List κ) (visit : ι → Run σ PUnit) :
    (xs.map f).forM visit = xs.forM fun x => visit (f x) := by
  induction xs with
  | nil => rfl
  | cons x xs ih => rw [List.map_cons, forM_cons, forM_cons, ih]

/-- A loop over calls that all succeed visits the states that a fold visits. -/
theorem forM_eq_ok {visit : ι → Run σ Unit} {next : ι → σ → σ} {xs : List ι}
    (h : ∀ x ∈ xs, ∀ s, visit x s = .ok () (next x s)) (s : σ) :
    xs.forM visit s = .ok () (xs.foldl (fun s x => next x s) s) := by
  induction xs generalizing s with
  | nil => rfl
  | cons x xs ih =>
      rw [forM_cons, bind_of_ok (h x (by simp) s)]
      exact ih (fun y hy => h y (by simp [hy])) (next x s)

/-- A loop that succeeds has succeeded at every visit. -/
theorem exists_of_forM_ok {visit : ι → Run σ Unit} {xs : List ι} {s s' : σ}
    (h : xs.forM visit s = .ok () s') : ∀ x ∈ xs, ∃ s₁ s₂, visit x s₁ = .ok () s₂ := by
  induction xs generalizing s with
  | nil => simp
  | cons y xs ih =>
      rw [forM_cons] at h
      obtain ⟨_, s₁, hy, hrest⟩ := exists_of_bind_ok h
      exact List.forall_mem_cons.mpr ⟨⟨s, s₁, hy⟩, ih hrest⟩

/-- A loop stops at the first visit that fails. -/
theorem forM_stops {visit : ι → Run σ Unit} {bad : ι → Bool} {err : ι → Failure} {xs : List ι}
    (hgood : ∀ x ∈ xs, bad x = false → ∀ s, ∃ s', visit x s = .ok () s')
    (hbad : ∀ x ∈ xs, bad x = true → ∀ s, ∃ s', visit x s = .error (err x) s') {x : ι}
    (hx : xs.find? bad = some x) (s : σ) : ∃ s', xs.forM visit s = .error (err x) s' := by
  induction xs generalizing s with
  | nil => cases hx
  | cons y xs ih =>
      rw [forM_cons]
      rw [List.find?_cons] at hx
      rcases hy : bad y with - | -
      · simp only [hy] at hx
        obtain ⟨s', hs'⟩ := hgood y (by simp) hy s
        rw [bind_of_ok hs']
        exact ih (fun z hz => hgood z (by simp [hz])) (fun z hz => hbad z (by simp [hz])) hx s'
      · simp only [hy] at hx
        obtain rfl := Option.some.inj hx
        obtain ⟨s', hs'⟩ := hbad y (by simp) hy s
        exact ⟨s', bind_of_error hs'⟩

/-! ### Calls that do not fault -/

/-- The call succeeds or reports an error. -/
def Faultless (f : Run σ β) (s : σ) : Prop := ∀ s', f s ≠ .error .fault s'

theorem faultless_of_ok {f : Run σ β} {s s' : σ} {b : β} (h : f s = .ok b s') :
    f.Faultless s := by
  intro s'' hfault
  rw [h] at hfault
  cases hfault

theorem faultless_of_error {f : Run σ β} {s s' : σ} {e : Error} (h : f s = .error (.error e) s') :
    f.Faultless s := by
  intro s'' hfault
  rw [h] at hfault
  cases hfault

theorem Faultless.bind {f : Run σ β} {g : β → Run σ γ} {s : σ} (hf : f.Faultless s)
    (hg : ∀ b s', f s = .ok b s' → (g b).Faultless s') : (f >>= g).Faultless s := by
  rcases h : f s with ⟨b, s'⟩ | ⟨e, s'⟩
  · intro s'' hfault
    rw [bind_of_ok h] at hfault
    exact hg b s' h s'' hfault
  · intro s'' hfault
    rw [bind_of_error h] at hfault
    obtain ⟨rfl, rfl⟩ := EStateM.Result.error.inj hfault
    exact hf s' h

theorem faultless_get {f : σ → Run σ β} {s : σ} (h : (f s).Faultless s) :
    Faultless ((get : Run σ σ) >>= f) s := h

/-- A check reports, or the rest of the sequence knows that it held. -/
theorem faultless_check {x : Except Error β} {g : β → Run σ γ} {s : σ}
    (h : ∀ b, x = .ok b → (g b).Faultless s) : Faultless ((liftM x : Run σ β) >>= g) s := by
  rcases x with e | b
  · exact faultless_of_error rfl
  · exact h b rfl

/-- A loop over calls that never fault does not fault. -/
theorem faultless_forM {visit : ι → Run σ Unit} {xs : List ι}
    (h : ∀ x ∈ xs, ∀ s, (visit x).Faultless s) (s : σ) :
    Faultless (xs.forM visit : Run σ Unit) s := by
  induction xs generalizing s with
  | nil => exact faultless_of_ok rfl
  | cons x xs ih =>
      rw [forM_cons]
      exact (h x (by simp) s).bind fun _ s' _ => ih (fun y hy => h y (by simp [hy])) s'

/-- The call reports an error and keeps the state. -/
def Reports (f : Run σ β) (s : σ) : Prop := ∃ e : Error, f s = .error (.error e) s

theorem reports_of_eq {f : Run σ β} {e : Error} (h : f = report e) (s : σ) : f.Reports s := by
  rw [h]
  exact ⟨e, rfl⟩

theorem Reports.faultless {f : Run σ β} {s : σ} (h : f.Reports s) : f.Faultless s := by
  obtain ⟨e, he⟩ := h
  exact faultless_of_error he

theorem Reports.bind {f : Run σ β} {g : β → Run σ γ} {s : σ} (h : f.Reports s) :
    (f >>= g).Reports s := by
  obtain ⟨e, he⟩ := h
  exact ⟨e, bind_of_error he⟩

/-- A call that succeeds has not reported. -/
theorem of_reports_or {P : Prop} {f : Run σ β} {s s' : σ} {b : β} (h : f.Reports s ∨ P)
    (hok : f s = .ok b s') : P := by
  rcases h with ⟨e, he⟩ | hP
  · cases he.symm.trans hok
  · exact hP

/-- A check reports, or it succeeds and the rest of the call tells more. -/
theorem reports_check_or {P : Prop} {x : Except Error β} {f : β → Run σ γ} {s : σ}
    (h : ∀ b, x = .ok b → (f b).Reports s ∨ P) :
    Reports ((liftM x : Run σ β) >>= f) s ∨ P := by
  rcases x with e | b
  · exact .inl ⟨e, rfl⟩
  · exact h b rfl

theorem reports_get_or {P : Prop} {f : σ → Run σ β} {s : σ} (h : (f s).Reports s ∨ P) :
    Reports ((get : Run σ σ) >>= f) s ∨ P := h

/-- After a call that keeps the state, the rest of the sequence tells more. -/
theorem reports_after_or {P : Prop} {f : Run σ β} {g : β → Run σ γ} {b : β} {s : σ}
    (hf : f s = .ok b s) (hg : (g b).Reports s ∨ P) : (f >>= g).Reports s ∨ P := by
  rw [Reports, bind_of_ok hf]
  exact hg

/-- The last check of a call reports, or all of them held. -/
theorem reports_lastCheck_or {P : Prop} {x : Except Error Unit} {s : σ} (h : x = .ok () → P) :
    Reports (liftM x : Run σ Unit) s ∨ P := by
  rcases x with e | u
  · exact .inl ⟨e, rfl⟩
  · exact .inr (h rfl)

/-! ### The state left behind -/

/-- The state that a call leaves behind. -/
def after (f : Run σ β) (s : σ) : σ :=
  match f s with
  | .ok _ s' => s'
  | .error _ s' => s'

theorem after_of_ok {f : Run σ β} {s s' : σ} {b : β} (h : f s = .ok b s') : f.after s = s' := by
  rw [after, h]

theorem after_of_error {f : Run σ β} {s s' : σ} {e : Failure} (h : f s = .error e s') :
    f.after s = s' := by
  rw [after, h]

/-- What holds after a call and after all that follow it holds after the sequence. -/
theorem after_bind {P : σ → Prop} {f : Run σ β} {g : β → Run σ γ} {s : σ} (h : P (f.after s))
    (hg : ∀ b s', P s' → P ((g b).after s')) : P ((f >>= g).after s) := by
  rcases hf : f s with ⟨b, s'⟩ | ⟨e, s'⟩
  · rw [after_of_ok hf] at h
    rw [after, bind_of_ok hf]
    exact hg b s' h
  · rw [after_of_error hf] at h
    rw [after_of_error (bind_of_error hf)]
    exact h

/-- The call relates the state before it to the state after it by `R`. -/
def Moves (R : σ → σ → Prop) (f : Run σ β) : Prop := ∀ s, R s (f.after s)

section Moves

variable {R : σ → σ → Prop} [Std.Refl R]

/-- A call that keeps the state moves along every reflexive relation. -/
theorem Moves.of_after_eq {f : Run σ β} (h : ∀ s, f.after s = s) : Moves R f := by
  intro s
  rw [h s]
  exact Std.Refl.refl s

theorem moves_pure (b : β) : Moves R (pure b : Run σ β) := .of_after_eq fun _ => rfl

theorem moves_get : Moves R (get : Run σ σ) := .of_after_eq fun _ => rfl

theorem moves_report (e : Error) : Moves R (report e : Run σ β) := .of_after_eq fun _ => rfl

theorem moves_check (x : Except Error β) : Moves R (liftM x : Run σ β) :=
  .of_after_eq fun _ => by cases x <;> rfl

theorem moves_compute (x : Outcome β) : Moves R (liftM x : Run σ β) :=
  .of_after_eq fun _ => by cases x <;> rfl

variable [Trans R R R]

omit [Std.Refl R] in
/-- A sequence moves along a transitive relation if its parts do. -/
theorem Moves.bind {f : Run σ β} {g : β → Run σ γ} (hf : Moves R f)
    (hg : ∀ b, Moves R (g b)) : Moves R (f >>= g) := by
  intro s
  have hs := hf s
  rcases h : f s with ⟨b, s'⟩ | ⟨e, s'⟩
  · rw [after_of_ok h] at hs
    rw [after, bind_of_ok h]
    exact Trans.trans hs (hg b s')
  · rw [after_of_error h] at hs
    rw [after_of_error (bind_of_error h)]
    exact hs

/-- A loop moves along a reflexive and transitive relation if every visit does. -/
theorem Moves.forM {visit : ι → Run σ Unit} {xs : List ι} (h : ∀ x ∈ xs, Moves R (visit x)) :
    Moves R (xs.forM visit) := by
  induction xs with
  | nil => exact moves_pure ()
  | cons x xs ih =>
      rw [forM_cons]
      exact .bind (h x (by simp)) fun _ => ih fun y hy => h y (by simp [hy])

end Moves

/-! ### Calls that agree in a state -/

section Agreement

variable {f f' : Run σ β} {g g' : β → Run σ γ} {s : σ}

/-- Sequences agree in a state if their first parts do, and what follows agrees
where these lead. -/
theorem bind_congr_apply (hf : f s = f' s) (hg : ∀ b s', f' s = .ok b s' → g b s' = g' b s') :
    (f >>= g) s = (f' >>= g') s := by
  rcases hs : f' s with ⟨b, s'⟩ | ⟨e, s'⟩
  · rw [bind_of_ok hs, bind_of_ok (hf.trans hs), hg b s' hs]
  · rw [bind_of_error hs, bind_of_error (hf.trans hs)]

theorem check_bind_congr {x : Except Error β} (h : ∀ b, x = .ok b → g b s = g' b s) :
    ((liftM x : Run σ β) >>= g) s = (liftM x >>= g') s := by
  rcases x with e | b
  · rfl
  · exact h b rfl

theorem compute_bind_congr {x : Outcome β} (h : ∀ b, x = .ok b → g b s = g' b s) :
    ((liftM x : Run σ β) >>= g) s = (liftM x >>= g') s := by
  rcases x with e | b
  · rfl
  · exact h b rfl

/-- Loops agree in a state if their visits do where an invariant holds that the
visits keep. -/
theorem forM_congr_apply {I : σ → Prop} {visit visit' : ι → Run σ Unit} {xs : List ι} (hs : I s)
    (hvisit : ∀ x ∈ xs, ∀ s, I s → visit x s = visit' x s)
    (hkeep : ∀ x ∈ xs, ∀ s, I s → I ((visit' x).after s)) :
    (xs.forM visit : Run σ Unit) s = xs.forM visit' s := by
  induction xs generalizing s with
  | nil => rfl
  | cons x xs ih =>
      rw [forM_cons, forM_cons]
      refine bind_congr_apply (hvisit x (by simp) s hs) fun _ s' hs' => ?_
      refine ih ?_ (fun y hy => hvisit y (by simp [hy])) fun y hy => hkeep y (by simp [hy])
      rw [← after_of_ok hs']
      exact hkeep x (by simp) s hs

end Agreement

/-! ### Two runs -/

section Alike

variable {R E R' : σ → σ → Prop}

/-- Two calls end alike: both succeed with one result and states related by `R`,
or both fail in the same way with states related by `E`. -/
inductive Alike (R E : σ → σ → Prop) :
    EStateM.Result Failure σ β → EStateM.Result Failure σ β → Prop
  /-- Both succeed. -/
  | ok {b : β} {s t : σ} (related : R s t) : Alike R E (.ok b s) (.ok b t)
  /-- Both fail. -/
  | error {e : Failure} {s t : σ} (related : E s t) : Alike R E (.error e s) (.error e t)

theorem Alike.mono {E' : σ → σ → Prop} {x y : EStateM.Result Failure σ β} (h : Alike R E x y)
    (hR : ∀ s t, R s t → R' s t) (hE : ∀ s t, E s t → E' s t) : Alike R' E' x y := by
  cases h with
  | ok related => exact .ok (hR _ _ related)
  | error related => exact .error (hE _ _ related)

/-- Sequences end alike if their first parts do and, where these succeeded, the
rests. -/
theorem Alike.bind_of_ok {f f' : Run σ β} {g g' : β → Run σ γ} {s t : σ}
    (hf : Alike R E (f s) (f' t))
    (hg : ∀ b s' t', f s = .ok b s' → R s' t' → Alike R' E (g b s') (g' b t')) :
    Alike R' E ((f >>= g) s) ((f' >>= g') t) := by
  generalize hs : f s = x at hf
  generalize ht : f' t = y at hf
  cases hf with
  | ok related =>
      rw [Run.bind_of_ok hs, Run.bind_of_ok ht]
      exact hg _ _ _ hs related
  | error related =>
      rw [bind_of_error hs, bind_of_error ht]
      exact .error related

/-- Sequences end alike if their parts do. -/
theorem Alike.bind {f f' : Run σ β} {g g' : β → Run σ γ} {s t : σ} (hf : Alike R E (f s) (f' t))
    (hg : ∀ b s' t', R s' t' → Alike R' E (g b s') (g' b t')) :
    Alike R' E ((f >>= g) s) ((f' >>= g') t) :=
  hf.bind_of_ok fun b s' t' _ => hg b s' t'

/-- After the same check sequences end alike if the rests do where it succeeds. -/
theorem alike_check {x : Except Error β} {g g' : β → Run σ γ} {s t : σ}
    (h : ∀ b, x = .ok b → Alike R' (fun _ _ => True) (g b s) (g' b t)) :
    Alike R' (fun _ _ => True) (((liftM x : Run σ β) >>= g) s) (((liftM x : Run σ β) >>= g') t) := by
  rcases x with e | b
  · exact .error trivial
  · exact h b rfl

/-- A loop keeps a relation that every visit keeps. -/
theorem alike_forM {visit : ι → Run σ Unit} {xs : List ι}
    (h : ∀ x ∈ xs, ∀ s t, R s t → Alike R E (visit x s) (visit x t)) {s t : σ} (hst : R s t) :
    Alike R E ((xs.forM visit : Run σ Unit) s) ((xs.forM visit : Run σ Unit) t) := by
  induction xs generalizing s t with
  | nil => exact .ok hst
  | cons x xs ih =>
      rw [forM_cons]
      exact (h x (by simp) s t hst).bind fun _ s' t' h' => ih (fun y hy => h y (by simp [hy])) h'

end Alike

/-! ### Calls that carry one relation to another -/

/-- On states related by `R` the call ends alike, and if it succeeds then the
states it leaves are related by `R'`. -/
def Carries (R R' : σ → σ → Prop) (f : Run σ β) : Prop :=
  ∀ s t, R s t → Alike R' (fun _ _ => True) (f s) (f t)

section Carries

variable {R R' R'' : σ → σ → Prop}

theorem carries_pure (b : β) : Carries R R (pure b : Run σ β) := fun _ _ hst => .ok hst

theorem carries_report (e : Error) : Carries R R' (report e : Run σ β) :=
  fun _ _ _ => .error trivial

theorem carries_check (x : Except Error β) : Carries R R (liftM x : Run σ β) := by
  intro s t hst
  rcases x with e | b
  · exact .error trivial
  · exact .ok hst

theorem carries_compute (x : Outcome β) : Carries R R (liftM x : Run σ β) := by
  intro s t hst
  rcases x with e | b
  · exact .error trivial
  · exact .ok hst

theorem Carries.bind {f : Run σ β} {g : β → Run σ γ} (hf : Carries R R' f)
    (hg : ∀ b, Carries R' R'' (g b)) : Carries R R'' (f >>= g) :=
  fun s t hst => (hf s t hst).bind fun b s' t' h' => hg b s' t' h'

/-- What is done after a look at the state may depend on that of the state which
related states share. -/
theorem carries_get {f : σ → Run σ β} (hread : ∀ s t, R s t → f t = f s)
    (hf : ∀ s, Carries R R' (f s)) : Carries R R' ((get : Run σ σ) >>= f) := by
  intro s t hst
  rw [get_bind_apply, get_bind_apply, hread s t hst]
  exact hf s s t hst

theorem Carries.forM {visit : ι → Run σ Unit} {xs : List ι}
    (h : ∀ x ∈ xs, Carries R R (visit x)) : Carries R R (xs.forM visit : Run σ Unit) :=
  fun _ _ hst => alike_forM h hst

theorem Carries.mono {S S' : σ → σ → Prop} {f : Run σ β} (h : Carries R R' f)
    (hS : ∀ s t, S s t → R s t) (hS' : ∀ s t, R' s t → S' s t) : Carries S S' f :=
  fun s t hst => (h s t (hS s t hst)).mono hS' fun _ _ h => h

/-- If the call succeeds on one of two related states, it does on the other. -/
theorem Carries.ok {f : Run σ β} (h : Carries R R' f) {s t s' : σ} {b : β} (hst : R s t)
    (hs : f s = .ok b s') : ∃ t', f t = .ok b t' ∧ R' s' t' := by
  have halike := h s t hst
  rw [hs] at halike
  generalize ht : f t = y at halike
  cases halike with
  | ok related => exact ⟨_, rfl, related⟩

end Carries

end Run

end TensorProgram
