/-
TensorProgram/Proofs/Gradient/Adjoint.lean

A backward sweep is the adjoint of the forward sweep.  Pair every gradient with
the tangent of its value and add up.  When an instruction that adds and
multiplies runs backward, the pairing of its output is handed on to the values
that it reads (`Instruction.Form.paired_backward`).

Main statement: a backward sweep over a grown program hands every pairing on to
the weights (`Program.Grown.paired_backward`).  One sweep serves all directions
in which the weights can move.
-/
import TensorProgram.Proofs.Gradient.Solution

namespace TensorProgram

variable {K : Type} [ExactScalar K]

/-! ### One instruction -/

namespace Instruction

variable {Γ : Signature} {i : Instruction K} {dest : ValueId} {s : Shape} {cells : List (Cell K)}
  {c : Context K}

/-- The gradient of the output, paired with the tangent, is paired with the
slopes of the cells. -/
theorem Form.paired_dest (h : i.Form Γ dest s cells) (hc : i.Revisits Γ c) {T : Place → K}
    (hT : ∀ cell ∈ cells, T (dest, cell.position) = cell.slope c.entry T) :
    c.paired T dest = pairedCells cells (fun k => c.gradEntry (dest, k)) c.entry T := by
  obtain ⟨out, hout, rfl⟩ := hc.grad h.declared
  rw [gradEntry_view hout, Context.paired_of_gradOrZeros hout, pairedCells]
  calc ∑ k ∈ Finset.range out.shape.elemCount, out.entry k * T (dest, k)
      = (cells.map fun cell => out.entry cell.position * T (dest, cell.position)).sum :=
        h.fill.sum_range fun k => out.entry k * T (dest, k)
    _ = (cells.map fun cell => out.entry cell.position * cell.slope c.entry T).sum := by
        congr 1
        exact List.map_congr_left fun cell hcell => by rw [hT cell hcell]

/-- **The pairing of the output is handed on.**  The values that are read come
before the output, and they move by `T`. -/
theorem Form.paired_backward (h : i.Form Γ dest s cells) {config : Config K}
    (hpolicy : config.gradientPolicy = .accumulate) (hsource : config.filterGradSource = .currentBatch)
    (hread : ∀ id ∈ i.consulted, id < dest) (hc : i.Revisits Γ c) :
    ∃ c', i.backward config c = .ok () c' ∧ (∀ id > dest, c'.grads[id]? = c.grads[id]?) ∧
      ∀ T : Place → K, (∀ cell ∈ cells, T (dest, cell.position) = cell.slope c.entry T) →
        (∀ id t, Γ.Floats id t → ∀ k, t.elemCount ≤ k → T (id, k) = 0) →
        ∑ id ∈ Finset.range dest, c'.paired T id
          = ∑ id ∈ Finset.range (dest + 1), c.paired T id := by
  obtain ⟨ds, hrun, hds, hsum⟩ := h.backward config hpolicy hsource c hc
  refine ⟨_, hrun, fun id hid => ?_, fun T hslopes houtside => ?_⟩
  · refine Context.grads_deposits_of_ne fun e he => ?_
    rcases hds e he with rfl | ⟨hmem, -⟩
    · exact Nat.ne_of_lt hid
    · exact Nat.ne_of_lt ((hread e.1 hmem).trans hid)
  · have hsteps : ∀ e ∈ ds, (∃ id, dest ≤ id ∧ e = (id, [])) ∨ (e.1 < dest ∧
        ∃ t, c.HasGrad e.1 t ∧ ∀ k, t.elemCount ≤ k → T (e.1, k) = 0) := by
      intro e he
      rcases hds e he with rfl | ⟨hmem, t, ht⟩
      · exact .inl ⟨dest, Nat.le_refl dest, rfl⟩
      · exact .inr ⟨hread e.1 hmem, t, hc.hasGrad ht, houtside e.1 t ht⟩
    rw [Context.sum_paired_deposits hsteps, hsum T, ← h.paired_dest hc hslopes,
      Finset.sum_range_succ]

end Instruction

/-! ### A backward sweep -/

namespace Program

variable {p : Program K} {vs : List (Value K)} {is : List (Instruction K)} {c c₁ : Context K}

/-- The context is that of a forward sweep up to gradients. -/
structure Returns (p : Program K) (c₁ c : Context K) : Prop where
  /-- The declarations. -/
  declared : ∀ id : ValueId, c.declared[id]? = p.signature id
  /-- Bindings fit. -/
  typed : c.Typed
  /-- The weights of the forward sweep. -/
  weights : c.weights = c₁.weights

/-- Running backward changes gradients only. -/
theorem Returns.backward (h : p.Returns c₁ c) {i : Instruction K} {config : Config K}
    {c' : Context K} (hrun : i.backward config c = .ok () c') : p.Returns c₁ c' := by
  have hmove : Context.Evolves [] i.receivers c c' := Run.after_of_ok hrun ▸ i.moves_backward config c
  refine ⟨fun id => by rw [hmove.declared, h.declared], hmove.typed h.typed, ?_⟩
  rw [← h.weights]
  exact Std.ExtTreeMap.ext_getElem? fun id => hmove.weights (by simp)

/-- The beginnings of lives are skipped on the way back. -/
theorem backward_allocs (us : List (Value K)) (config : Config K) (c : Context K) :
    (us.map fun u => (.alloc u.id : Instruction K)).reverse.forM (·.backward config) c
      = .ok () c := by
  have hskip : ∀ i ∈ (us.map fun u => (.alloc u.id : Instruction K)).reverse, ∀ c : Context K,
      i.backward config c = .ok () c := by
    intro i hi c
    obtain ⟨u, -, rfl⟩ := List.mem_map.mp (List.mem_reverse.mp hi)
    rfl
  exact (Run.forM_eq_ok hskip c).trans (by rw [List.foldl_fixed])

/-- The gradients of the weights among these values, paired with a tangent. -/
def pairedWeights (c : Context K) (T : Place → K) (vs : List (Value K)) : K :=
  (((vs.filter fun v => v.role == .weight).map (·.id)).map (c.paired T)).sum

/-- **A backward sweep hands every pairing on to the weights.** -/
theorem Grown.paired_backward (h : Grown vs is) (hvs : ∀ v ∈ vs, v ∈ p.values)
    (hrules : ∀ i ∈ is, i.Typed p.signature)
    (hpoly : ∀ i ∈ is, i.isLifecycle = false → i.isPolynomial = true)
    {config : Config K} (hpolicy : config.gradientPolicy = .accumulate)
    (hsource : config.filterGradSource = .currentBatch)
    (hbound : ∀ v ∈ vs, (c₁.weights[v.id]?).isSome) (hc : p.Returns c₁ c) :
    ∃ c', is.reverse.forM (·.backward config) c = .ok () c' ∧ p.Returns c₁ c' ∧
      (∀ id ≥ vs.length, c'.grads[id]? = c.grads[id]?) ∧
      ∀ T, Tangent p is c₁ T →
        pairedWeights c' T vs = ∑ id ∈ Finset.range vs.length, c.paired T id := by
  -- backward the last block runs first, so the induction is over all contexts
  induction h generalizing c with
  | empty => exact ⟨c, rfl, hc, fun _ _ => rfl, fun _ _ => rfl⟩
  | @weight vs is v before named role ih =>
      obtain ⟨c', hrun, hc', hgrads, hsum⟩ := ih (fun u hu => hvs u (by simp [hu])) hrules hpoly
        (fun u hu => hbound u (by simp [hu])) hc
      refine ⟨c', hrun, hc', fun id hid => hgrads id ?_, fun T hT => ?_⟩
      · rw [List.length_append] at hid
        exact Nat.le_of_add_right_le hid
      · -- the weight is the last value: its pairing goes over from one sum to the other
        have hv : c'.paired T v.id = c.paired T vs.length := by
          rw [named]
          exact Context.paired_congr (hgrads vs.length (Nat.le_refl _))
        rw [List.length_append, List.length_singleton, Finset.sum_range_succ, ← hsum T hT, ← hv]
        simp [pairedWeights, List.filter_append, role]
  | @dealloc vs is id before ih =>
      obtain ⟨c', hrun, hc', hgrads, hsum⟩ := ih hvs (fun i hi => hrules i (by simp [hi]))
        (fun i hi => hpoly i (by simp [hi])) hbound hc
      refine ⟨c', ?_, hc', hgrads, fun T hT => hsum T (hT.mono (by simp))⟩
      -- backward a deallocation does nothing
      have hskip : [(.dealloc id : Instruction K)].reverse.forM (·.backward config) c = .ok () c := rfl
      rw [List.reverse_append, Run.forM_append_of_ok hskip, hrun]
  | @block vs us is i before named roles writer ih =>
      obtain ⟨dest, s, cells, hform⟩ := (hrules i (by simp)).exists_form writer.separate
        (hpoly i (by simp) writer.works)
      -- a polynomial instruction has one output, so the block declares that value alone
      obtain ⟨hone, rfl⟩ := block_singleton named (writer.outputs.symm.trans hform.outputs)
      have hrevisits : i.Revisits p.signature c := by
        refine ⟨hc.declared, hc.typed, i.bound_revisited fun _ id hid => ?_⟩
        rw [hc.weights]
        rcases Instruction.mem_outs_or_consulted writer hid with hout | hread
        · obtain ⟨u, hu, rfl⟩ := List.mem_map.mp hout
          exact hbound u (by simp [hu])
        · obtain ⟨v, hv, rfl⟩ := before.exists_value (writer.consulted id hread)
          exact hbound v (by simp [hv])
      -- no weight changes on the way back, so the slopes are those at its start
      have hentry : c.entry = c₁.entry := by
        funext q
        exact Context.entry_congr (by rw [hc.weights])
      obtain ⟨c₂, hrun₂, hgrads₂, hsum₂⟩ :=
        hform.paired_backward hpolicy hsource writer.consulted hrevisits
      obtain ⟨c', hrun, hc', hgrads, hsum⟩ := ih (fun u hu => hvs u (by simp [hu]))
        (fun j hj => hrules j (by simp [hj])) (fun j hj => hpoly j (by simp [hj]))
        (fun u hu => hbound u (by simp [hu])) (hc.backward hrun₂)
      refine ⟨c', ?_, hc', fun id hid => ?_, fun T hT => ?_⟩
      · rw [List.reverse_append, List.reverse_append, List.reverse_singleton, List.singleton_append,
          Run.forM_cons, Run.bind_of_ok hrun₂, Run.forM_append_of_ok (backward_allocs us config c₂),
          hrun]
      · rw [List.length_append, hone] at hid
        rw [hgrads id (Nat.le_of_succ_le hid), hgrads₂ id hid]
      · -- outputs are no weights, so the block adds nothing to the sum over weights
        have hnone : us.filter (fun u => u.role == .weight) = [] := by
          refine List.filter_eq_nil_iff.mpr fun u hu => ?_
          rw [roles u hu]
          decide
        have hslopes := hT.slopes i (by simp) _ s cells hform
        rw [← hentry] at hslopes
        rw [List.length_append, hone, ← hsum₂ T hslopes hT.outside, ← hsum T (hT.mono (by simp)),
          pairedWeights, List.filter_append, hnone, List.append_nil, pairedWeights]

/-- If only `x` moves among the weights, its pairing is the sum. -/
theorem Grown.pairedWeights_eq (h : Grown p.values p.instructions) {x : Value K}
    (hx : x ∈ p.weights) {T : Place → K}
    (hT : ∀ v ∈ p.weights, v.id ≠ x.id → ∀ k, T (v.id, k) = 0) :
    pairedWeights c T p.values = c.paired T x.id := by
  have hnodup : (p.weights.map (·.id)).Nodup := by
    refine List.Nodup.sublist (List.filter_sublist.map _) ?_
    rw [h.map_id]
    exact List.nodup_range
  have hsum := List.sum_map_eq_nsmul_single (l := p.weights.map (·.id)) x.id (c.paired T) ?_
  · rw [List.count_eq_one_of_mem hnodup (List.mem_map_of_mem hx), one_nsmul] at hsum
    exact hsum
  · intro id hne hid
    obtain ⟨v, hv, rfl⟩ := List.mem_map.mp hid
    exact Context.paired_of_direction (hT v hv hne)

end Program

end TensorProgram
