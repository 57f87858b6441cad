/-
TensorProgram/Proofs/Program/Lockstep.lean

Two runs of one program side by side, on contexts that agree on the weights of
`W` and the gradients of `G` (`Context.Agree W G`).  An instruction that
consults only values in `W` ends alike on both; what it overwrites is the same
afterwards, and so is the gradient of what it brings to life
(`Program.Swept.step_alike`).  So two forward sweeps end alike
(`Program.Checks.lockstep`), and from contexts that agree on everything that
instructions use, so do two backward sweeps (`Program.Swept.backward_alike`).
-/
import TensorProgram.Proofs.Context.Agreement
import TensorProgram.Proofs.Program.Construction

namespace TensorProgram

variable {α : Type}

namespace Context

variable {c d : Context α} {W G : ValueId → Prop} {id : ValueId}

/-- Binding the same weight twice. -/
theorem Agree.setWeight (h : Agree W G c d) (id : ValueId) (t : Tensor α) :
    Agree (fun j => W j ∨ j = id) G (c.setWeight id t) (d.setWeight id t) where
  weights j hj := by
    rw [weights_setWeight, weights_setWeight]
    split
    · rfl
    · rename_i hne
      exact h.weights j (hj.resolve_right fun heq => hne heq.symm)
  grads := h.grads

/-- Binding the same gradient twice. -/
theorem Agree.setGrad (h : Agree W G c d) (id : ValueId) (g : Tensor α) :
    Agree W (fun j => G j ∨ j = id) (c.setGrad id g) (d.setGrad id g) where
  weights := h.weights
  grads j hj := by
    rw [grads_setGrad, grads_setGrad]
    split
    · rfl
    · rename_i hne
      exact h.grads j (hj.resolve_right fun heq => hne heq.symm)

/-- Binding the same list of weights twice. -/
theorem Agree.setWeights (h : Agree W G c d) (ws : List (ValueId × Tensor α)) :
    Agree (fun j => W j ∨ j ∈ ws.map Prod.fst) G (c.setWeights ws) (d.setWeights ws) := by
  induction ws generalizing c d W with
  | nil => exact h.mono (by simp) fun _ hj => hj
  | cons w ws ih =>
      refine (ih (h.setWeight w.1 w.2)).mono (fun j hj => ?_) fun _ hj => hj
      simpa [or_assoc] using hj

/-- The same activation comes to life twice: its weight is kept or made from the same
zeros, and its gradient is reset. -/
theorem Agree.enlivened (h : Agree W G c d) (dest : ValueId) (z : Tensor α) :
    Agree W (fun j => G j ∨ j = dest)
      ((c.setWeight dest ((c.weights[dest]?).getD z)).setGrad dest z)
      ((d.setWeight dest ((d.weights[dest]?).getD z)).setGrad dest z) := by
  have hbound : Agree W G (c.setWeight dest ((c.weights[dest]?).getD z))
      (d.setWeight dest ((d.weights[dest]?).getD z)) := by
    refine ⟨fun j hj => ?_, h.grads⟩
    rw [weights_setWeight, weights_setWeight]
    split
    · rename_i heq
      rw [heq, h.weights j hj]
    · exact h.weights j hj
  exact hbound.setGrad dest z

variable [Scalar α]

theorem Agree.gradOrZeros (h : Agree W W c d) (hdecl : d.declared = c.declared) (hid : W id) :
    d.gradOrZeros id = c.gradOrZeros id :=
  gradOrZeros_congr (by rw [hdecl]) (h.weights id hid) (h.grads id hid)

/-- Making the same deposits twice. -/
theorem Agree.deposits (h : Agree W W c d) (hdecl : d.declared = c.declared)
    (combine : α → α → α) {ds : List (Deposit α)} (hds : ∀ e ∈ ds, W e.1) :
    Agree W W (c.deposits combine ds) (d.deposits combine ds) := by
  -- each deposit finds the same gradient on both sides and leaves the same
  induction ds generalizing c d with
  | nil => exact h
  | cons e ds ih =>
      have he : W e.1 := hds e (by simp)
      refine ih ⟨fun j hj => ?_, fun j hj => ?_⟩ ?_ fun e' he' => hds e' (by simp [he'])
      · rw [weights_deposit, weights_deposit, h.weights j hj]
      · by_cases hne : e.1 = j
        · subst hne
          unfold deposit
          rw [h.gradOrZeros hdecl he]
          split
          · rw [grads_setGrad_self, grads_setGrad_self]
          · exact h.grads _ hj
        · rw [grads_deposit_of_ne hne, grads_deposit_of_ne hne, h.grads j hj]
      · rw [declared_deposit, declared_deposit, hdecl]

end Context

open Context (Agree)

namespace Program

variable [Scalar α] {p : Program α} {allocated known : List ValueId} {done : List (Instruction α)}
  {i : Instruction α} {c d : Context α} {W G : ValueId → Prop}

/-- A forward step that succeeds keeps what holds of a sweep. -/
theorem Swept.of_ok (h : p.Swept allocated done c) (hp : p.Placed) (hi : p.Admits allocated i)
    (hsep : i.Separate) (hspares : ∀ j ∈ done, i.Spares j) {train : Bool} {c' : Context α}
    (hrun : i.forward train c = .ok () c') :
    p.Swept (allocatedAfter allocated i) (i :: done) c' := by
  by_cases hfits : i.Affords c
  case neg => cases (i.forward_of_not_affords train hfits).symm.trans hrun
  rcases h.step hp hi hsep hspares hfits train with ⟨c'', hc'', hswept⟩ | ⟨e, c'', hc'', -⟩
  · rw [hrun] at hc''
    obtain rfl := (EStateM.Result.ok.inj hc'').2
    exact hswept
  · rw [hrun] at hc''
    cases hc''

section Step

variable (hc : p.Swept allocated done c) (hd : p.Swept allocated done d) (hp : p.Placed)
  (hi : p.Admits allocated i) (hagree : Agree W G c d) (hreads : ∀ id ∈ i.consulted, W id)

include hc hd hp hi hagree

include hreads in
/-- An instruction that computes leaves the same outputs on both contexts. -/
theorem Swept.computes_alike (hlife : i.isLifecycle = false) {train : Bool}
    (hgoes : i.Goes p.signature train) :
    Run.Alike (Agree (fun id => W id ∨ id ∈ i.outputs) G)
      (Agree (fun id => W id ∧ id ∉ i.outputs) G) (i.forward train c) (i.forward train d) := by
  have hready := hc.ready hp hi hlife
  obtain ⟨outs, houts⟩ := hgoes.computes c hready
  rw [houts.run c hready fun _ _ => rfl,
    houts.run d (hd.ready hp hi hlife) fun id hid => hagree.weights id (hreads id hid)]
  exact .ok ((hagree.setWeights outs).mono (fun id hid => hid.imp_right (houts.outputs id))
    fun _ hid => hid)

/-- An instruction that stops does so on both contexts, and has changed nothing but
outputs. -/
theorem Swept.halts_alike (hlife : i.isLifecycle = false) {train : Bool} {e : Error}
    (hhalts : i.Halts p.signature train e) :
    Run.Alike (Agree (fun id => W id ∨ id ∈ i.outputs) G)
      (Agree (fun id => W id ∧ id ∉ i.outputs) G) (i.forward train c) (i.forward train d) := by
  obtain ⟨c', hc', hkept⟩ := hhalts c (hc.ready hp hi hlife)
  obtain ⟨d', hd', hkept'⟩ := hhalts d (hd.ready hp hi hlife)
  have hmove := i.moves_forward train c
  have hmove' := i.moves_forward train d
  rw [Run.after_of_error hc', Instruction.enlivened_of_works hlife] at hmove
  rw [Run.after_of_error hd', Instruction.enlivened_of_works hlife] at hmove'
  rw [hc', hd']
  refine .error ⟨fun id hid => ?_, fun id hid => ?_⟩
  · rw [hkept id hid.2, hkept' id hid.2, hagree.weights id hid.1]
  · rw [hmove.grads (by simp), hmove'.grads (by simp), hagree.grads id hid]

include hreads in
/-- **One instruction on two contexts.** -/
theorem Swept.step_alike (hsep : i.Separate) (train : Bool) :
    Run.Alike (Agree (fun id => W id ∨ id ∈ i.outputs) fun id => G id ∨ id ∈ i.enlivened)
      (Agree (fun id => W id ∧ id ∉ i.outputs) G) (i.forward train c) (i.forward train d) := by
  rcases hlife : i.isLifecycle with - | -
  · -- computing and stopping depend on the operands, which agree
    have hlives : ∀ id, G id ∨ id ∈ i.enlivened → G id := fun id hid => by
      simpa [Instruction.enlivened_of_works hlife] using hid
    rcases hi.typed.computes_or_stops hsep hlife train with hgoes | ⟨e, -, hhalts⟩
    · exact (hc.computes_alike hd hp hi hagree hreads hlife hgoes).mono
        (fun _ _ h => h.mono (fun _ hid => hid) hlives) fun _ _ h => h
    · exact (hc.halts_alike hd hp hi hagree hlife hhalts).mono
        (fun _ _ h => h.mono (fun _ hid => hid) hlives) fun _ _ h => h
  · -- both runs keep the weight that is bound, or begin with zeros, or find no room
    cases i with
    | alloc dest =>
        obtain ⟨v, hv, -⟩ := hi.lives rfl dest (by simp [Instruction.operands])
        have hsig : p.signature dest = some v.declaration := by rw [signature, hv]; rfl
        have hcd := (hc.declared dest).trans hsig
        have hdd := (hd.declared dest).trans hsig
        by_cases hfits : v.declaration.Allocatable α
        · rw [Instruction.forward, Context.enliven_eq hc.typed hcd hfits,
            Context.enliven_eq hd.typed hdd hfits]
          exact .ok ((hagree.enlivened dest _).mono (by simp [Instruction.outputs])
            (by simp [Instruction.enlivened]))
        · rw [Instruction.forward, Context.enliven_of_not_allocatable hcd hfits,
            Context.enliven_of_not_allocatable hdd hfits]
          exact .error (hagree.mono (fun _ hid => hid.1) fun _ hid => hid)
    | dealloc src =>
        exact .ok (hagree.mono (by simp [Instruction.outputs]) (by simp [Instruction.enlivened]))
    | _ => cases hlife

end Step

/-- What holds of two sweeps that go on side by side. -/
structure Paired (p : Program α) (allocated : List ValueId) (done : List (Instruction α))
    (W G : ValueId → Prop) (c d : Context α) : Prop where
  /-- The first one. -/
  left : p.Swept allocated done c
  /-- The second one. -/
  right : p.Swept allocated done d
  /-- They agree. -/
  agree : Agree W G c d

/-- **Two forward sweeps end alike.** -/
theorem Checks.lockstep {is : List (Instruction α)} (hcheck : p.Checks allocated is)
    (hfed : Fed known is) (hp : p.Placed) (hsep : ∀ i ∈ is, i.Separate)
    (hspares : ∀ i ∈ is, ∀ j ∈ done ++ is, i.Spares j)
    (h : p.Paired allocated done (· ∈ known) G c d) (train : Bool) :
    ∃ later, Run.Alike
      (p.Paired later (is.reverse ++ done) (fun id => id ∈ known ∨ id ∈ is.flatMap (·.outputs))
        fun id => G id ∨ id ∈ is.flatMap (·.enlivened))
      (Agree (fun id => id ∈ known ∧ id ∉ is.flatMap (·.outputs)) G)
      (is.forM (·.forward train) c) (is.forM (·.forward train) d) := by
  induction hcheck generalizing done known G c d with
  | @nil allocated => exact ⟨allocated, .ok ⟨h.left, h.right, h.agree.mono (by simp) (by simp)⟩⟩
  | @cons allocated i rest hi _ ih =>
      obtain - | ⟨hreads, hrest⟩ := hfed
      have hi' : i.Separate := hsep i (by simp)
      have hold : ∀ j ∈ done, i.Spares j := fun j hj => hspares i (by simp) j (by simp [hj])
      have hstep := h.left.step_alike h.right hp hi h.agree hreads hi' train
      rw [Run.forM_cons]
      generalize hc : i.forward train c = x at hstep
      generalize hd : i.forward train d = y at hstep
      -- both runs take the step, or both end here with one error
      cases hstep with
      | @ok _ c' d' hagree =>
          have hpaired : p.Paired (allocatedAfter allocated i) (i :: done)
              (· ∈ i.outputs ++ known) (fun id => G id ∨ id ∈ i.enlivened) c' d' := by
            refine ⟨h.left.of_ok hp hi hi' hold hc, h.right.of_ok hp hi hi' hold hd, ?_⟩
            refine hagree.mono (fun id hid => ?_) fun _ hid => hid
            exact (List.mem_append.mp hid).symm
          obtain ⟨later, hlater⟩ := ih hrest (fun j hj => hsep j (by simp [hj]))
            (fun j hj k hk => hspares j (by simp [hj]) k (by simp at hk ⊢; tauto)) hpaired
          refine ⟨later, ?_⟩
          rw [Run.bind_of_ok hc, Run.bind_of_ok hd, List.reverse_cons, List.append_assoc]
          refine hlater.mono (fun s t hst => ⟨hst.left, hst.right, ?_⟩) fun s t hst => ?_
          · refine hst.agree.mono (fun id hid => ?_) fun id hid => ?_
            · simp only [List.flatMap_cons, List.mem_append] at hid ⊢
              tauto
            · simp only [List.flatMap_cons, List.mem_append] at hid
              tauto
          · refine hst.mono (fun id hid => ?_) fun id hid => .inl hid
            simp only [List.flatMap_cons, List.mem_append] at hid ⊢
            tauto
      | error hagree =>
          refine ⟨allocated, ?_⟩
          rw [Run.bind_of_error hc, Run.bind_of_error hd]
          refine .error (hagree.mono (fun id hid => ?_) fun _ hid => hid)
          simp only [List.flatMap_cons, List.mem_append] at hid
          tauto

/-- **Two backward sweeps end alike**, on contexts that agree on everything that
the instructions name. -/
theorem Swept.backward_alike {is : List (Instruction α)}
    (h : p.Paired allocated done W W c d) (config : Config α) (his : ∀ i ∈ is, i ∈ done)
    (hsep : ∀ i ∈ is, i.Separate) (hW : ∀ i ∈ is, ∀ id ∈ i.operands.map Prod.fst, W id) :
    Run.Alike (Agree W W) (Agree W W) (is.forM (·.backward config) c)
      (is.forM (·.backward config) d) := by
  induction is generalizing c d with
  | nil => exact .ok h.agree
  | cons i is ih =>
      have hi : i ∈ done := his i (by simp)
      have hrevisits {c : Context α} (hc : p.Swept allocated done c) :
          i.Revisits p.signature c :=
        ⟨hc.declared, hc.typed, i.bound_revisited fun hlife => hc.used i hi hlife⟩
      -- the deposits depend on the operands alone, so both runs make the same ones
      obtain ⟨combine, ds, hds⟩ : ∃ combine ds, i.Contributes p.signature config c combine ds :=
        (h.left.rules i hi).contributes (hsep i (by simp)) (h.left.goes i hi) (hrevisits h.left)
          (h.left.saved i hi)
      have hsame : i.SameOperands c d := by
        refine ⟨fun id hid => ?_, fun id hid => ?_⟩
        · exact h.agree.weights id (hW i (by simp) id hid)
        · exact h.agree.grads id (hW i (by simp) id hid)
      have hc := hds.run c (hrevisits h.left) (.refl i c)
      have hd := hds.run d (hrevisits h.right) hsame
      have hmove {c : Context α} (hc : i.backward config c = .ok () (c.deposits combine ds)) :
          Context.Evolves [] i.receivers c (c.deposits combine ds) :=
        Run.after_of_ok hc ▸ i.moves_backward config c
      have hdecl : d.declared = c.declared :=
        Std.ExtTreeMap.ext_getElem? fun id =>
          (h.right.declared id).trans (h.left.declared id).symm
      rw [Run.forM_cons, Run.bind_of_ok hc, Run.bind_of_ok hd]
      refine ih ⟨h.left.of_evolves (hmove hc), h.right.of_evolves (hmove hd), ?_⟩
        (fun j hj => his j (by simp [hj])) (fun j hj => hsep j (by simp [hj]))
        fun j hj => hW j (by simp [hj])
      exact h.agree.deposits hdecl combine fun e he => hW i (by simp) e.1 (hds.operands e he)

end Program

end TensorProgram
