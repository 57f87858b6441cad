/-
TensorProgram/Proofs/Program/Sweep.lean

Sweeps of a program that passed the static check.  `Program.Swept` says what
holds of a context while a forward sweep goes on: what was allocated is bound,
every instruction passed so far has its operands bound, and the coordinates that
max pools saved are still theirs.  The next instruction keeps this or stops
(`Program.Swept.step`), so a forward sweep succeeds or ends with the error of
one of its instructions (`Program.Checks.sweep`), provided that there is room for
every value (`Program.Affordable`).  After one that succeeds, a backward sweep
succeeds (`Program.Swept.backward`).
-/
import TensorProgram.Proofs.Program.Backward
import TensorProgram.Proofs.Program.Check

namespace TensorProgram

variable {α : Type}

/-! ### Bringing to life -/

/-- An activation that comes to life keeps a weight that fits, or begins with
zeros; its gradient is zero. -/
theorem Context.enliven_eq [Scalar α] {c : Context α} {id : ValueId} {d : Declaration}
    (hc : c.Typed) (hd : c.declared[id]? = some d) (hfits : d.Allocatable α) :
    enliven id c = .ok () ((c.setWeight id ((c.weights[id]?).getD (.zeros d.kind d.shape))).setGrad
      id (.zeros d.kind d.shape)) := by
  have hallocated : c.allocated id = .ok ((c.weights[id]?).getD (.zeros d.kind d.shape)) := by
    rw [allocated, declaration, hd]
    rcases ht : c.weights[id]? with - | t
    · rfl
    · obtain rfl : t.declaration = d := hc.weight hd ht
      exact if_pos ⟨rfl, rfl⟩
  have hset := (evolves_setWeight (W := [id]) (G := []) (by simp) fun _ e he =>
    Option.some.inj ((declaration_allocated hallocated).symm.trans he)).typed hc
  -- the gradient is one that fits or zeros, and what is bound are zeros of its shape
  obtain ⟨g, hg⟩ : ∃ g, (c.setWeight id ((c.weights[id]?).getD
      (.zeros d.kind d.shape))).gradOrZeros id = .ok g := by
    rw [gradOrZeros, declaration]
    split
    · exact ⟨_, rfl⟩
    · rw [weights_setWeight_self]
      exact ⟨_, rfl⟩
  have hgrad : g.zero = .zeros d.kind d.shape := by
    obtain rfl : g.declaration = d := hset.gradOrZeros hd hg
    rfl
  rw [enliven_of_allocatable hd hfits]
  apply change_of_ok
  rw [enlivened, allocate, hallocated, Except.ok_bind, Except.pure_eq_ok, Except.ok_bind, hg, Except.ok_bind,
    Except.pure_eq_ok, hgrad]

namespace Instruction

/-! ### What a max pool saved -/

/-- The instruction does not write over the coordinates that another one saved. -/
def Spares (i j : Instruction α) : Prop :=
  ∀ (q : Pool) (coords : ValueId), j = pool q → q.kind = .max → q.coords = some coords →
    i ≠ j → i.isLifecycle = false → (coords, .write) ∉ i.operands

variable {Γ : Signature} {i j : Instruction α} {c c' : Context α}

/-- What is changed in place is declared with scalars. -/
theorem Typed.floats_of_update (ht : i.Typed Γ) {id : ValueId} (h : (id, .update) ∈ i.operands) :
    ∃ s, Γ.Floats id s := by
  cases ht with
  | batchNorm dest src axis scale bias mean var =>
      simp only [operands, List.mem_cons, Prod.mk.injEq, List.not_mem_nil, or_false, reduceCtorEq,
        and_false, false_or, and_true] at h
      rcases h with rfl | rfl
      · exact ⟨_, mean⟩
      · exact ⟨_, var⟩
  | maxPool _ _ _ named => simp [operands, named] at h
  | @avgPool i => rcases hcoords : i.coords with - | coords <;> simp [operands, hcoords] at h
  | _ => simp [operands] at h

/-- What is written and declared with indices is an output. -/
theorem Typed.write_of_indices (ht : i.Typed Γ) {id : ValueId} {s : Shape} (hs : Γ.Indices id s)
    (h : id ∈ i.written) : (id, .write) ∈ i.operands := by
  obtain ⟨⟨id, access⟩, ho, rfl⟩ := List.mem_map.mp h
  obtain ⟨hmem, haccess⟩ := List.mem_filter.mp ho
  cases access with
  | write => exact hmem
  | read => simp at haccess
  | update =>
      obtain ⟨t, ht⟩ := ht.floats_of_update hmem
      have hkind := (Declaration.mk.inj (Option.some.inj (ht.symm.trans hs))).1
      cases hkind

/-- What a max pool saved stays where its coordinates do. -/
theorem Saved.congr (h : j.Saved Γ c)
    (hcoords : ∀ (q : Pool) (coords : ValueId), j = pool q → q.kind = .max →
      q.coords = some coords → c'.weights[coords]? = c.weights[coords]?) : j.Saved Γ c' := by
  cases j with
  | pool q =>
      intro d s t coords hkind hsrc hdest hfits hnamed
      obtain ⟨saved, hbound, hsaved⟩ := h d s t coords hkind hsrc hdest hfits hnamed
      exact ⟨saved, (hcoords q coords rfl hkind hnamed).trans hbound, hsaved⟩
  | _ => trivial

/-- The coordinates that a well typed max pool saves are declared with
indices. -/
theorem Typed.indices_coords {q : Pool} (ht : (pool q : Instruction α).Typed Γ)
    (hkind : q.kind = .max) {coords : ValueId} (hnamed : q.coords = some coords) :
    ∃ s, Γ.Indices coords s := by
  cases ht with
  | maxPool _ _ _ named saved =>
      obtain rfl := Option.some.inj (named.symm.trans hnamed)
      exact ⟨_, saved⟩
  | avgPool kind => cases hkind.symm.trans kind

end Instruction

namespace Program

/-! ### Forward -/

/-- What holds of a context while a forward sweep goes on: the activations in
`allocated` were brought to life and the instructions in `done` were run. -/
structure Swept (p : Program α) (allocated : List ValueId) (done : List (Instruction α))
    (c : Context α) : Prop where
  /-- The declarations. -/
  declared : ∀ id : ValueId, c.declared[id]? = p.signature id
  /-- Bindings fit. -/
  typed : c.Typed
  /-- Weights are bound. -/
  weights : ∀ v ∈ p.weights, (c.weights[v.id]?).isSome
  /-- What was allocated is bound. -/
  allocated : ∀ id ∈ allocated, (c.weights[id]?).isSome
  /-- The instructions are well typed. -/
  rules : ∀ i ∈ done, i.Typed p.signature
  /-- None of them stops. -/
  goes : ∀ i ∈ done, ∀ e, ¬ i.Stops p.signature e
  /-- What they use is bound. -/
  used : ∀ i ∈ done, i.isLifecycle = false →
    ∀ id ∈ i.operands.map Prod.fst, (c.weights[id]?).isSome
  /-- What they saved is still there. -/
  saved : ∀ i ∈ done, i.Saved p.signature c

variable {p : Program α} {allocated : List ValueId} {done : List (Instruction α)}
  {i : Instruction α} {c c' : Context α}

/-- A sweep is ready for every instruction that is admitted. -/
theorem Swept.ready (h : p.Swept allocated done c) (hp : p.Placed) (hi : p.Admits allocated i)
    (hlife : i.isLifecycle = false) : i.Ready p.signature c := by
  refine ⟨h.declared, h.typed, fun id hid => ?_⟩
  obtain ⟨v, hv, hactive⟩ := hi.used hlife id hid
  rcases hrole : v.role with - | -
  · have hmem : v ∈ p.weights := mem_weights.mpr ⟨List.mem_of_getElem? hv, hrole⟩
    rw [← hp hv]
    exact h.weights v hmem
  · exact h.allocated id (hactive hrole)

/-- What one more instruction leaves, given what it changed. -/
theorem Swept.next {W G : List ValueId} (h : p.Swept allocated done c)
    (hmove : Context.Evolves W G c c') (ht : i.Typed p.signature)
    (hgoes : ∀ e, ¬ i.Stops p.signature e)
    (hused : i.isLifecycle = false → ∀ id ∈ i.operands.map Prod.fst, (c.weights[id]?).isSome)
    (hallocated : ∀ id ∈ allocatedAfter allocated i, (c'.weights[id]?).isSome)
    (hnew : i.Saved p.signature c') (hold : ∀ j ∈ done, j.Saved p.signature c') :
    p.Swept (allocatedAfter allocated i) (i :: done) c' where
  declared id := by rw [hmove.declared, h.declared]
  typed := hmove.typed h.typed
  weights v hv := hmove.weightBound (h.weights v hv)
  allocated := hallocated
  rules := List.forall_mem_cons.mpr ⟨ht, h.rules⟩
  goes := List.forall_mem_cons.mpr ⟨hgoes, h.goes⟩
  used := List.forall_mem_cons.mpr ⟨fun hlife id hid => hmove.weightBound (hused hlife id hid),
    fun j hj hlife id hid => hmove.weightBound (h.used j hj hlife id hid)⟩
  saved := List.forall_mem_cons.mpr ⟨hnew, hold⟩

/-- Coordinates that are not written over are still there. -/
theorem Swept.saved_of_spares (h : p.Swept allocated done c)
    (hmove : Context.Evolves i.written i.enlivened c c') (ht : i.Typed p.signature)
    (hlife : i.isLifecycle = false) (hnew : i.Saved p.signature c')
    (hspares : ∀ j ∈ done, i.Spares j) : ∀ j ∈ done, j.Saved p.signature c' := by
  intro j hj
  by_cases hij : i = j
  · exact hij ▸ hnew
  · refine (h.saved j hj).congr fun q coords hq hkind hnamed => hmove.weights fun hwritten => ?_
    obtain ⟨s, hs⟩ := Instruction.Typed.indices_coords (hq ▸ h.rules j hj) hkind hnamed
    exact hspares j hj q coords hq hkind hnamed hij hlife (ht.write_of_indices hs hwritten)

variable [Scalar α]

/-- Beginning or ending a life succeeds and changes no weight that is bound. -/
theorem Swept.forward_lifecycle (h : p.Swept allocated done c) (hi : p.Admits allocated i)
    (hfits : i.Affords c) (hlife : i.isLifecycle = true) (train : Bool) :
    ∃ c', i.forward train c = .ok () c' ∧
      (∀ id ∈ allocatedAfter allocated i, (c'.weights[id]?).isSome) ∧
      ∀ id : ValueId, (c.weights[id]?).isSome → c'.weights[id]? = c.weights[id]? := by
  cases i with
  | alloc dest =>
      obtain ⟨v, hv, -⟩ := hi.lives rfl dest (by simp [Instruction.operands])
      have hd : c.declared[dest]? = some v.declaration := by rw [h.declared, signature, hv]; rfl
      refine ⟨_, Context.enliven_eq h.typed hd (hfits dest _ rfl hd), fun id hid => ?_, fun id hid => ?_⟩
      · rw [Context.weights_setGrad, Context.weights_setWeight]
        split
        · rfl
        · rename_i hne
          rcases List.mem_cons.mp hid with rfl | hid
          · exact absurd rfl hne
          · exact h.allocated id hid
      · rw [Context.weights_setGrad, Context.weights_setWeight]
        split
        · rename_i heq
          obtain ⟨t, ht⟩ := Option.isSome_iff_exists.mp hid
          subst heq
          rw [ht]
          rfl
        · rfl
  | dealloc src => exact ⟨c, rfl, h.allocated, fun _ _ => rfl⟩
  | _ => cases hlife

/-- **One more instruction.**  The instruction succeeds and the sweep goes on, or
it ends with an error for which it stops. -/
theorem Swept.step (h : p.Swept allocated done c) (hp : p.Placed) (hi : p.Admits allocated i)
    (hsep : i.Separate) (hspares : ∀ j ∈ done, i.Spares j) (hfits : i.Affords c) (train : Bool) :
    (∃ c', i.forward train c = .ok () c' ∧
      p.Swept (allocatedAfter allocated i) (i :: done) c') ∨
    ∃ e c', i.forward train c = .error (.error e) c' ∧ i.Stops p.signature e := by
  rcases hlife : i.isLifecycle with - | -
  · have hready := h.ready hp hi hlife
    rcases hi.typed.computes_or_stops hsep hlife train with hgoes | ⟨e, hstops, hhalts⟩
    · -- it computes: what it writes is bound and typed as declared
      left
      obtain ⟨outs, houts⟩ := hgoes.computes c hready
      have hrun := houts.run c hready fun _ _ => rfl
      have hmove : Context.Evolves i.written i.enlivened c (c.setWeights outs) :=
        Run.after_of_ok hrun ▸ i.moves_forward train c
      have hnew := houts.saved c hready
      have hallocated : allocatedAfter allocated i = allocated := by
        cases i with
        | alloc dest => cases hlife
        | _ => rfl
      refine ⟨_, hrun, h.next hmove hi.typed hgoes.goes (fun _ => hready.bound) ?_ hnew
        (h.saved_of_spares hmove hi.typed hlife hnew hspares)⟩
      rw [hallocated]
      exact fun id hid => hmove.weightBound (h.allocated id hid)
    · -- it stops, for a reason that the types tell
      right
      obtain ⟨c', hc', -⟩ := hhalts c hready
      exact ⟨e, c', hc', hstops⟩
  · left
    obtain ⟨c', hc', hallocated, hkept⟩ := h.forward_lifecycle hi hfits hlife train
    have hmove : Context.Evolves i.written i.enlivened c c' :=
      Run.after_of_ok hc' ▸ i.moves_forward train c
    refine ⟨c', hc', h.next hmove hi.typed ?_ ?_ hallocated ?_ fun j hj => ?_⟩
    · rintro e (_ | _ | _) <;> cases hlife
    · intro hfalse
      cases hlife.symm.trans hfalse
    · cases i with
      | pool q => cases hlife
      | _ => trivial
    · -- coordinates are operands of the max pool, so they were bound
      refine (h.saved j hj).congr fun q coords hq hkind hnamed => hkept coords ?_
      subst hq
      exact h.used _ hj rfl coords (by simp [Instruction.operands, hnamed])

/-- Every declared value can be allocated. -/
def Affordable (p : Program α) : Prop := ∀ v ∈ p.values, v.declaration.Allocatable α

theorem Swept.affords (h : p.Swept allocated done c) (hfits : p.Affordable)
    (i : Instruction α) : i.Affords c := by
  rintro id d - hd
  rw [h.declared, signature] at hd
  obtain ⟨v, hv, rfl⟩ := Option.map_eq_some_iff.mp hd
  exact hfits v (List.mem_of_getElem? hv)

/-- **A forward sweep succeeds or one of its instructions stops.** -/
theorem Checks.sweep {is : List (Instruction α)} (hcheck : p.Checks allocated is) (hp : p.Placed)
    (hsep : ∀ i ∈ is, i.Separate) (hspares : ∀ i ∈ is, ∀ j ∈ done ++ is, i.Spares j)
    (hfits : p.Affordable) (h : p.Swept allocated done c) (train : Bool) :
    (∃ c' later, is.forM (·.forward train) c = .ok () c' ∧ p.Swept later (is.reverse ++ done) c') ∨
    ∃ e c', is.forM (·.forward train) c = .error (.error e) c' ∧
      ∃ i ∈ is, i.Stops p.signature e := by
  -- along the check, which goes through the instructions as the sweep does
  induction hcheck generalizing done c with
  | @nil allocated => exact .inl ⟨c, allocated, rfl, h⟩
  | @cons allocated i rest hi _ ih =>
      have hstep := h.step hp hi (hsep i (by simp)) (fun j hj =>
        hspares i (by simp) j (by simp [hj])) (h.affords hfits i) train
      rcases hstep with ⟨c', hc', hnext⟩ | ⟨e, c', hc', hstops⟩
      · have hrest := ih (fun j hj => hsep j (by simp [hj]))
          (fun j hj k hk => hspares j (by simp [hj]) k (by simp at hk ⊢; tauto)) hnext
        rw [Run.forM_cons, Run.bind_of_ok hc']
        rcases hrest with ⟨c'', later, hc'', hswept⟩ | ⟨e, c'', hc'', j, hj, hstops⟩
        · refine .inl ⟨c'', later, hc'', ?_⟩
          rw [List.reverse_cons, List.append_assoc]
          exact hswept
        · exact .inr ⟨e, c'', hc'', j, by simp [hj], hstops⟩
      · rw [Run.forM_cons, Run.bind_of_error hc']
        exact .inr ⟨e, c', rfl, i, by simp, hstops⟩

/-! ### Backward -/

omit [Scalar α] in
/-- A call that changes no weight keeps what a forward sweep left. -/
theorem Swept.of_evolves {G : List ValueId} (h : p.Swept allocated done c)
    (hmove : Context.Evolves [] G c c') : p.Swept allocated done c' where
  declared id := by rw [hmove.declared, h.declared]
  typed := hmove.typed h.typed
  weights v hv := hmove.weightBound (h.weights v hv)
  allocated id hid := hmove.weightBound (h.allocated id hid)
  rules := h.rules
  goes := h.goes
  used j hj hlife id hid := hmove.weightBound (h.used j hj hlife id hid)
  saved j hj := (h.saved j hj).congr fun _ _ _ _ _ => hmove.weights (by simp)

/-- **A backward sweep succeeds** after a forward sweep that went through. -/
theorem Swept.backward {is : List (Instruction α)} (h : p.Swept allocated done c)
    (config : Config α) (his : ∀ i ∈ is, i ∈ done) (hsep : ∀ i ∈ is, i.Separate) :
    ∃ c', is.forM (·.backward config) c = .ok () c' := by
  induction is generalizing c with
  | nil => exact ⟨c, rfl⟩
  | cons i is ih =>
      have hi : i ∈ done := his i (by simp)
      have hrevisits : i.Revisits p.signature c :=
        ⟨h.declared, h.typed, i.bound_revisited fun hlife => h.used i hi hlife⟩
      obtain ⟨combine, ds, hds⟩ : ∃ combine ds, i.Contributes p.signature config c combine ds :=
        (h.rules i hi).contributes (hsep i (by simp)) (h.goes i hi) hrevisits (h.saved i hi)
      have hrun := hds.run c hrevisits (.refl i c)
      have hmove : Context.Evolves [] i.receivers c (c.deposits combine ds) :=
        Run.after_of_ok hrun ▸ i.moves_backward config c
      rw [Run.forM_cons, Run.bind_of_ok hrun]
      exact ih (h.of_evolves hmove) (fun j hj => his j (by simp [hj]))
        fun j hj => hsep j (by simp [hj])

/-! ### Sound programs -/

/-- A program that passed the static check, whose instructions write no value
that they also name elsewhere and do not write over saved coordinates. -/
structure Sound (p : Program α) : Prop where
  /-- Values are named by position. -/
  placed : p.Placed
  /-- The static check passed. -/
  checks : p.Checks [] p.instructions
  /-- What an instruction writes it names once. -/
  separate : ∀ i ∈ p.instructions, i.Separate
  /-- Saved coordinates are not written over. -/
  spares : ∀ i ∈ p.instructions, ∀ j ∈ p.instructions, i.Spares j

omit [Scalar α] in
theorem Sound.typed (hp : p.Sound) {i : Instruction α} (hi : i ∈ p.instructions) :
    i.Typed p.signature := by
  obtain ⟨earlier, h⟩ := hp.checks.admits i hi
  exact h.typed

end Program

end TensorProgram
