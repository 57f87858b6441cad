/-
TensorProgram/Proofs/Gradient/Solution.lean

A forward sweep solves equations.  After a sweep of a grown program whose
instructions add and multiply, every element of every activation is the value of
its cell at the elements around it (`Program.Grown.settles`).  The equation of
an instruction holds when it has run, and no later instruction writes a value
that it mentions, so it holds at the end.

If the weights are polynomials in a parameter, then so are all elements after
the sweep (`Program.Grown.polynomial`), and their coefficients of degree one
solve the equations of the slopes (`Program.Grown.tangent`).
-/
import TensorProgram.Proofs.Gradient.Form
import TensorProgram.Proofs.Program.Construction

namespace TensorProgram

open Polynomial

variable {K : Type} [ExactScalar K]

/-- Exact scalars take no room. -/
theorem Declaration.allocatable_of_exact (d : Declaration) : d.Allocatable K := by
  rw [Declaration.Allocatable, ExactScalar.bytes_eq, Nat.mul_zero]
  decide

/-! ### Equations -/

namespace Context

/-- The elements of a value are the values of these cells. -/
def Solves (c : Context K) (dest : ValueId) (s : Shape) (cells : List (Cell K)) : Prop :=
  c.weights[dest]? = some ⟨s, .float (filled _ (cellWrites cells c.entry))⟩

variable {c c' : Context K} {dest : ValueId} {s : Shape} {cells : List (Cell K)}

theorem Solves.entry_position (h : c.Solves dest s cells) (hfill : Fill cells s.elemCount)
    {cell : Cell K} (hcell : cell ∈ cells) :
    c.entry (dest, cell.position) = cell.value c.entry := by
  rw [entry_of_weight h, Tensor.entry_float, hfill.entry_filled c.entry hcell]

theorem Solves.entry_of_le (h : c.Solves dest s cells) {k : Nat} (hk : s.elemCount ≤ k) :
    c.entry (dest, k) = 0 := by
  rw [entry_of_weight h, Tensor.entry_float]
  exact View.entry_of_le _ hk

end Context

namespace Instruction

variable {Γ : Signature} {i : Instruction K} {dest : ValueId} {s : Shape} {cells : List (Cell K)}
  {c c' : Context K}

/-- The values of the cells are those of the values that are read. -/
theorem Form.cellWrites_congr (h : i.Form Γ dest s cells)
    (hw : ∀ id ∈ i.consulted, c'.weights[id]? = c.weights[id]?) :
    cellWrites cells c'.entry = cellWrites cells c.entry := by
  refine List.map_congr_left fun cell hcell => ?_
  have hvalue : cell.value c'.entry = cell.value c.entry :=
    Cell.value_congr fun u hu p hp => Context.entry_congr (hw p.1 (h.places cell hcell u hu p hp))
  rw [hvalue]

/-- An equation holds as long as what it mentions stays. -/
theorem Form.solves_of_agree (h : i.Form Γ dest s cells) (hc : c.Solves dest s cells)
    (hdest : c'.weights[dest]? = c.weights[dest]?)
    (hw : ∀ id ∈ i.consulted, c'.weights[id]? = c.weights[id]?) : c'.Solves dest s cells := by
  rw [Context.Solves, hdest, h.cellWrites_congr hw]
  exact hc

/-- After running forward the equation of an instruction holds. -/
theorem Form.solves_forward (h : i.Form Γ dest s cells) (hread : dest ∉ i.consulted)
    {train : Bool} (hc : i.Ready Γ c) (hrun : i.forward train c = .ok () c') :
    c'.Solves dest s cells := by
  obtain ⟨-, rfl⟩ := EStateM.Result.ok.inj (hrun.symm.trans (h.forward train c hc))
  generalize ht : (⟨s, .float (filled _ (cellWrites cells c.entry))⟩ : Tensor K) = t
  have hwrites : cellWrites cells (c.setWeight dest t).entry = cellWrites cells c.entry := by
    refine h.cellWrites_congr fun id hid => Context.weights_setWeight_of_ne ?_
    rintro rfl
    exact hread hid
  rw [Context.Solves, hwrites, Context.weights_setWeight_self, ht]

/-- An instruction that begins or ends a life has no form. -/
theorem Form.works (h : i.Form Γ dest s cells) : i.isLifecycle = false :=
  works_of_mem_outputs (h.outputs ▸ List.mem_singleton_self dest)

end Instruction

/-! ### A forward sweep -/

namespace Run

variable {σ ι : Type} {visit : ι → Run σ Unit} {xs ys : List ι} {s s' : σ}

theorem forM_append_of_ok (h : xs.forM visit s = .ok () s') :
    (xs ++ ys).forM visit s = ys.forM visit s' := by
  induction xs generalizing s with
  | nil =>
      obtain ⟨-, rfl⟩ := EStateM.Result.ok.inj h
      rfl
  | cons x xs ih =>
      rw [forM_cons] at h
      rw [List.cons_append, forM_cons]
      rcases hx : visit x s with ⟨_, s₁⟩ | ⟨e, s₁⟩
      · rw [bind_of_ok hx] at h ⊢
        exact ih h
      · rw [bind_of_error hx] at h
        cases h

theorem forM_singleton (x : ι) : [x].forM visit s = visit x s := by
  rw [forM_cons]
  rcases hx : visit x s with ⟨_, s₁⟩ | ⟨e, s₁⟩
  · rw [bind_of_ok hx]
    rfl
  · rw [bind_of_error hx]

end Run

namespace Program

variable {p : Program K} {vs : List (Value K)} {is : List (Instruction K)}

/-- A forward sweep from `c₀` has come to `c`: the values of `vs` are known, and
the equations of the instructions hold. -/
structure Settled (p : Program K) (vs : List (Value K)) (is : List (Instruction K))
    (c₀ c : Context K) : Prop where
  /-- The declarations. -/
  declared : ∀ id : ValueId, c.declared[id]? = p.signature id
  /-- Bindings fit. -/
  typed : c.Typed
  /-- Weights and the values of `vs` are bound. -/
  bound : ∀ v ∈ p.values, v.role = .weight ∨ v ∈ vs → (c.weights[v.id]?).isSome
  /-- Weights are those at the beginning. -/
  kept : ∀ v ∈ p.weights, c.weights[v.id]? = c₀.weights[v.id]?
  /-- Gradients vanish. -/
  grads : ∀ q : Place, c.gradEntry q = 0
  /-- The equations hold. -/
  solved : ∀ i ∈ is, ∀ dest s cells, i.Form p.signature dest s cells → c.Solves dest s cells

/-- Outside of its buffer a value has no elements. -/
theorem Settled.entry_of_le {c₀ c : Context K} (h : p.Settled vs is c₀ c) {id : ValueId} {s : Shape}
    (hs : Signature.Floats p.signature id s) {k : Nat} (hk : s.elemCount ≤ k) : c.entry (id, k) = 0 := by
  rcases hw : c.weights[id]? with - | t
  · rw [Context.entry, hw]
    rfl
  · obtain ⟨data, ht⟩ := Tensor.eq_float (h.typed.weight ((h.declared id).trans hs) hw)
    rw [Context.entry_of_weight hw, ht, Tensor.entry_float]
    exact View.entry_of_le _ hk

/-- Activations come to life with gradients of zero. -/
theorem forward_allocs (us : List (Value K)) (train : Bool) {c : Context K}
    (hdecl : ∀ u ∈ us, ∃ d, c.declared[u.id]? = some d) (hc : c.Typed)
    (hgrads : ∀ q : Place, c.gradEntry q = 0) :
    ∃ c', (us.map fun u => (.alloc u.id : Instruction K)).forM (·.forward train) c = .ok () c' ∧
      Context.Evolves (us.map (·.id)) (us.map (·.id)) c c' ∧
      (∀ u ∈ us, (c'.weights[u.id]?).isSome) ∧ ∀ q : Place, c'.gradEntry q = 0 := by
  induction us generalizing c with
  | nil => exact ⟨c, rfl, .refl _ _ c, by simp, hgrads⟩
  | cons u us ih =>
      obtain ⟨d, hd⟩ := hdecl u (by simp)
      have hrun : (.alloc u.id : Instruction K).forward train c = .ok () _ :=
        Context.enliven_eq hc hd d.allocatable_of_exact
      -- the weight is kept or begins with zeros, the gradient begins with zeros
      generalize hc₁ : (c.setWeight u.id ((c.weights[u.id]?).getD (.zeros d.kind d.shape))).setGrad
        u.id (.zeros d.kind d.shape) = c₁ at hrun
      have hmove : Context.Evolves [u.id] [u.id] c c₁ :=
        Run.after_of_ok hrun ▸ (.alloc u.id : Instruction K).moves_forward train c
      have hgrads₁ : ∀ q : Place, c₁.gradEntry q = 0 := by
        intro q
        rw [← hgrads q, ← hc₁, Context.gradEntry, Context.grads_setGrad]
        split
        · rw [hgrads q]
          exact Tensor.entry_zeros ..
        · rfl
      obtain ⟨c', hrest, hmove', hbound, hgrads'⟩ := ih (c := c₁)
        (fun v hv => by
          obtain ⟨e, he⟩ := hdecl v (by simp [hv])
          exact ⟨e, by rw [hmove.declared, he]⟩)
        (hmove.typed hc) hgrads₁
      refine ⟨c', ?_, ?_, List.forall_mem_cons.mpr ⟨?_, hbound⟩, hgrads'⟩
      · rw [List.map_cons, Run.forM_cons, Run.bind_of_ok hrun, hrest]
      · exact (hmove.mono (by simp) (by simp)).trans (hmove'.mono (by simp) (by simp))
      · refine hmove'.weightBound ?_
        rw [← hc₁, Context.weights_setGrad, Context.weights_setWeight_self]
        rfl

variable {c₀ c : Context K}

omit [ExactScalar K] in
/-- The names that an instruction reads are those of values declared before. -/
theorem Grown.lt_of_mem_consulted (h : Grown vs is) {i : Instruction K} (hi : i ∈ is)
    (hlife : i.isLifecycle = false) {id : ValueId} (hid : id ∈ i.consulted) : id < vs.length := by
  induction h with
  | empty => cases hi
  | weight _ _ _ ih =>
      rw [List.length_append]
      exact Nat.lt_add_right _ (ih hi)
  | dealloc _ ih =>
      rcases List.mem_append.mp hi with hi | hi
      · exact ih hi
      · obtain rfl := List.mem_singleton.mp hi
        cases hlife
  | block _ _ _ writer ih =>
      rw [List.length_append]
      simp only [List.append_assoc, List.mem_append, List.mem_map, List.mem_singleton] at hi
      -- an instruction before, an allocation of the block, or the one that writes it
      rcases hi with hi | ⟨u, -, rfl⟩ | rfl
      · exact Nat.lt_add_right _ (ih hi)
      · cases hlife
      · exact Nat.lt_add_right _ (writer.consulted id hid)

section Block

variable {us : List (Value K)} {i : Instruction K}

/-- The outputs of a block come to life.  Their names are new, so the equations so far
still hold. -/
theorem Settled.allocs (h : p.Settled vs is c₀ c) (hp : p.Placed) (before : Grown vs is)
    (named : us.map (·.id) = List.range' vs.length us.length)
    (roles : ∀ u ∈ us, u.role = .activation) (hus : ∀ u ∈ us, u ∈ p.values) (train : Bool) :
    ∃ c', (us.map fun u => (.alloc u.id : Instruction K)).forM (·.forward train) c = .ok () c' ∧
      p.Settled (vs ++ us) (is ++ us.map fun u => .alloc u.id) c₀ c' := by
  obtain ⟨c', hrun, hmove, hbound, hgrads⟩ := forward_allocs us train
    (fun u hu => ⟨_, (h.declared u.id).trans (hp.signature (hus u hu))⟩) h.typed h.grads
  -- the equations so far are about values declared before the block
  have hold {id : ValueId} (hid : id < vs.length) : c'.weights[id]? = c.weights[id]? :=
    hmove.weights fun hmem => Nat.not_lt.mpr (le_of_mem_block named hmem) hid
  refine ⟨c', hrun, fun id => by rw [hmove.declared, h.declared], hmove.typed h.typed,
    fun v hv hknown => ?_, fun v hv => ?_, hgrads, fun j hj dest s cells hform => ?_⟩
  · rcases hknown with hweight | hmem
    · exact hmove.weightBound (h.bound v hv (.inl hweight))
    · rcases List.mem_append.mp hmem with hmem | hmem
      · exact hmove.weightBound (h.bound v hv (.inr hmem))
      · exact hbound v hmem
  · have hne : v.id ∉ us.map (·.id) := by
      intro hmem
      obtain ⟨u, hu, hid⟩ := List.mem_map.mp hmem
      exact hp.activation_ne (hus u hu) (roles u hu) hv hid
    rw [hmove.weights hne, h.kept v hv]
  · rcases List.mem_append.mp hj with hj | hj
    · refine hform.solves_of_agree (h.solved j hj dest s cells hform) ?_ fun id hid => ?_
      · exact hold (before.lt_of_mem_outputs hj (by simp [hform.outputs]))
      · exact hold (before.lt_of_mem_consulted hj hform.works hid)
    · obtain ⟨u, -, rfl⟩ := List.mem_map.mp hj
      cases hform.works

/-- The instruction of a block runs over its operands and makes its own equation hold.
It writes an output of the block only, which no equation so far mentions. -/
theorem Settled.computed (h : p.Settled (vs ++ us) (is ++ us.map fun u => .alloc u.id) c₀ c)
    (hp : p.Placed) (before : Grown vs is)
    (named : us.map (·.id) = List.range' vs.length us.length)
    (roles : ∀ u ∈ us, u.role = .activation) (writer : i.Extends vs.length (us.map (·.id)))
    (hvs : ∀ v ∈ vs ++ us, v ∈ p.values) (hrule : i.Typed p.signature)
    (hpoly : i.isPolynomial = true) (train : Bool) :
    ∃ c', i.forward train c = .ok () c' ∧
      p.Settled (vs ++ us) ((is ++ us.map fun u => .alloc u.id) ++ [i]) c₀ c' := by
  have hready : i.Ready p.signature c := by
    refine ⟨h.declared, h.typed, fun id hid => ?_⟩
    rcases Instruction.mem_outs_or_consulted writer hid with hout | hread
    · obtain ⟨u, hu, rfl⟩ := List.mem_map.mp hout
      exact h.bound u (hvs u (by simp [hu])) (.inr (by simp [hu]))
    · obtain ⟨v, hv, rfl⟩ := before.exists_value (writer.consulted id hread)
      exact h.bound v (hvs v (by simp [hv])) (.inr (by simp [hv]))
  obtain ⟨dest, s, cells, hform⟩ := hrule.exists_form writer.separate hpoly
  have hrun := hform.forward train c hready
  have hmove := i.moves_forward train c
  rw [Run.after_of_ok hrun] at hmove
  have houts : us.map (·.id) = [dest] := writer.outputs.symm.trans hform.outputs
  have hdest : vs.length ≤ dest := le_of_mem_block named (by simp [houts])
  -- one output of the block is written; all values before it are as they were
  generalize hc' : c.setWeight dest _ = c' at hrun hmove
  have hold {id : ValueId} (hid : id < vs.length) : c'.weights[id]? = c.weights[id]? := by
    rw [← hc', Context.weights_setWeight_of_ne (Nat.lt_of_lt_of_le hid hdest).ne']
  refine ⟨c', hrun, fun id => by rw [hmove.declared, h.declared], hmove.typed h.typed,
    fun v hv hknown => hmove.weightBound (h.bound v hv hknown), fun v hv => ?_, fun q => ?_,
    fun j hj dest' s' cells' hform' => ?_⟩
  · have hne : dest ≠ v.id := by
      rintro rfl
      obtain ⟨u, hu, hid⟩ := List.mem_map.mp (houts ▸ List.mem_singleton_self v.id)
      exact hp.activation_ne (hvs u (by simp [hu])) (roles u hu) hv hid
    rw [← hc', Context.weights_setWeight_of_ne hne, h.kept v hv]
  · rw [← h.grads q, ← hc']
    rfl
  · rcases List.mem_append.mp hj with hj | hj
    · have hsolved := h.solved j hj dest' s' cells' hform'
      rcases List.mem_append.mp hj with hj | hj
      · refine hform'.solves_of_agree hsolved ?_ fun id hid => ?_
        · exact hold (before.lt_of_mem_outputs hj (by simp [hform'.outputs]))
        · exact hold (before.lt_of_mem_consulted hj hform'.works hid)
      · obtain ⟨u, -, rfl⟩ := List.mem_map.mp hj
        cases hform'.works
    · obtain rfl := List.mem_singleton.mp hj
      -- its own equation holds, because it reads no output of its block
      refine hform'.solves_forward (fun hread => ?_) hready hrun
      have hdest' : vs.length ≤ dest' :=
        le_of_mem_block named (by simp [← writer.outputs, hform'.outputs])
      exact Nat.not_lt.mpr hdest' (writer.consulted dest' hread)

end Block

/-- **A forward sweep goes through and solves the equations.** -/
theorem Grown.settles (h : Grown vs is) (hp : p.Placed) (hvs : ∀ v ∈ vs, v ∈ p.values)
    (hrules : ∀ i ∈ is, i.Typed p.signature)
    (hpoly : ∀ i ∈ is, i.isLifecycle = false → i.isPolynomial = true) (train : Bool)
    (hc₀ : p.Settled [] [] c₀ c₀) :
    ∃ c, is.forM (·.forward train) c₀ = .ok () c ∧ p.Settled vs is c₀ c := by
  induction h with
  | empty => exact ⟨c₀, rfl, hc₀⟩
  | @weight vs is v before named role ih =>
      obtain ⟨c, hrun, hc⟩ := ih (fun u hu => hvs u (by simp [hu])) hrules hpoly
      -- weights stand in the context from the beginning
      refine ⟨c, hrun, { hc with bound := fun u hu hknown => hc.bound u hu ?_ }⟩
      rcases hknown with hweight | hmem
      · exact .inl hweight
      · rcases List.mem_append.mp hmem with hmem | hmem
        · exact .inr hmem
        · obtain rfl := List.mem_singleton.mp hmem
          exact .inl role
  | @dealloc vs is id before ih =>
      obtain ⟨c, hrun, hc⟩ := ih hvs (fun i hi => hrules i (by simp [hi]))
        fun i hi => hpoly i (by simp [hi])
      refine ⟨c, ?_, { hc with solved := fun i hi dest s cells hform => ?_ }⟩
      · rw [Run.forM_append_of_ok hrun]
        rfl
      · rcases List.mem_append.mp hi with hi | hi
        · exact hc.solved i hi dest s cells hform
        · obtain rfl := List.mem_singleton.mp hi
          cases hform.works
  | @block vs us is i before named roles writer ih =>
      obtain ⟨c₁, hrun₁, hc₁⟩ := ih (fun u hu => hvs u (by simp [hu]))
        (fun i hi => hrules i (by simp [hi])) fun i hi => hpoly i (by simp [hi])
      -- first room for the outputs, then the one instruction that writes them
      obtain ⟨c₂, hrun₂, hc₂⟩ :=
        hc₁.allocs hp before named roles (fun u hu => hvs u (by simp [hu])) train
      obtain ⟨c₃, hrun₃, hc₃⟩ := hc₂.computed hp before named roles writer hvs
        (hrules i (by simp)) (hpoly i (by simp) writer.works) train
      refine ⟨c₃, ?_, hc₃⟩
      rw [List.append_assoc, Run.forM_append_of_ok hrun₁, Run.forM_append_of_ok hrun₂,
        Run.forM_singleton, hrun₃]

/-! ### Weights that are polynomials -/

/-- A shorter sweep has come as far with what it knows. -/
theorem Settled.mono {us : List (Value K)} {js : List (Instruction K)} (h : p.Settled vs is c₀ c)
    (hvs : us ⊆ vs) (his : js ⊆ is) : p.Settled us js c₀ c :=
  { h with
    bound := fun v hv hknown => h.bound v hv (hknown.imp_right fun hmem => hvs hmem)
    solved := fun i hi => h.solved i (his hi) }

omit [ExactScalar K] in
/-- A block with one output declares one activation, the next one. -/
theorem block_singleton {us : List (Value K)}
    (named : us.map (·.id) = List.range' vs.length us.length) {dest : ValueId}
    (houts : us.map (·.id) = [dest]) : us.length = 1 ∧ dest = vs.length := by
  have hone : us.length = 1 := by rw [← List.length_map, houts, List.length_singleton]
  rw [houts, hone, List.range'_one] at named
  exact ⟨hone, List.singleton_inj.mp named⟩

/-- **Elements are polynomials if the weights are.**  The sweeps begin with
weights that are polynomials in a parameter. -/
theorem Grown.polynomial (h : Grown vs is) (hvs : ∀ v ∈ vs, v ∈ p.values)
    (hrules : ∀ i ∈ is, i.Typed p.signature)
    (hpoly : ∀ i ∈ is, i.isLifecycle = false → i.isPolynomial = true)
    {c₀ c : K → Context K} (hc : ∀ t, p.Settled vs is (c₀ t) (c t))
    (hweights : ∀ v ∈ p.weights, ∀ k, ∃ P : K[X], ∀ t, (c₀ t).entry (v.id, k) = P.eval t) :
    ∀ id < vs.length, ∀ k, ∃ P : K[X], ∀ t, (c t).entry (id, k) = P.eval t := by
  induction h with
  | empty =>
      intro id hid
      cases hid
  | @weight vs is v before named role ih =>
      intro id hid k
      rw [List.length_append, List.length_singleton] at hid
      rcases Nat.lt_succ_iff_lt_or_eq.mp hid with hlt | rfl
      · exact ih (fun u hu => hvs u (by simp [hu])) hrules hpoly
          (fun t => (hc t).mono (by simp) (by simp)) id hlt k
      · have hv : v ∈ p.weights := mem_weights.mpr ⟨hvs v (by simp), role⟩
        obtain ⟨P, hP⟩ := hweights v hv k
        refine ⟨P, fun t => ?_⟩
        rw [← hP t, named]
        exact Context.entry_congr (named ▸ (hc t).kept v hv)
  | dealloc before ih =>
      exact ih hvs (fun i hi => hrules i (by simp [hi])) (fun i hi => hpoly i (by simp [hi]))
        fun t => (hc t).mono (by simp) (by simp)
  | @block vs us is i before named roles writer ih =>
      have hold := ih (fun u hu => hvs u (by simp [hu])) (fun i hi => hrules i (by simp [hi]))
        (fun i hi => hpoly i (by simp [hi])) fun t => (hc t).mono (by simp) (by simp)
      obtain ⟨dest, s, cells, hform⟩ := (hrules i (by simp)).exists_form writer.separate
        (hpoly i (by simp) writer.works)
      have hsolves (t : K) : (c t).Solves dest s cells :=
        (hc t).solved i (by simp) dest s cells hform
      intro id hid k
      by_cases hlt : id < vs.length
      · exact hold id hlt k
      -- a new element is the value of its cell at old ones
      obtain ⟨hone, hdest⟩ := block_singleton named (writer.outputs.symm.trans hform.outputs)
      obtain rfl : id = dest := by
        rw [List.length_append, hone] at hid
        rw [hdest]
        exact Nat.le_antisymm (Nat.le_of_lt_succ hid) (Nat.not_lt.mp hlt)
      by_cases hk : k < s.elemCount
      · obtain ⟨cell, hcell, rfl⟩ := hform.fill.exists_cell hk
        choose! X hX using hold
        refine ⟨cell.value fun q => X q.1 q.2, fun t => ?_⟩
        rw [(hsolves t).entry_position hform.fill hcell, Cell.eval_value]
        refine Cell.value_congr fun u hu q hq => ?_
        exact hX q.1 (writer.consulted q.1 (hform.places cell hcell u hu q hq)) q.2 t
      · exact ⟨0, fun t => by rw [(hsolves t).entry_of_le (Nat.not_lt.mp hk), eval_zero]⟩

/-! ### Coefficients of degree one -/

/-- How elements move: as the equations of the instructions make them, given how
the weights move. -/
structure Tangent (p : Program K) (is : List (Instruction K)) (c : Context K) (T : Place → K) :
    Prop where
  /-- The equations of the slopes hold. -/
  slopes : ∀ i ∈ is, ∀ dest s cells, i.Form p.signature dest s cells → ∀ cell ∈ cells,
    T (dest, cell.position) = cell.slope c.entry T
  /-- Outside of its buffer a value has no elements. -/
  outside : ∀ id s, Signature.Floats p.signature id s → ∀ k, s.elemCount ≤ k → T (id, k) = 0

theorem Tangent.mono {js : List (Instruction K)} {T : Place → K}
    (h : Tangent p is c T) (his : js ⊆ is) : Tangent p js c T where
  slopes i hi := h.slopes i (his hi)
  outside := h.outside

/-- **Coefficients of degree one move with the slopes.**  If the elements are
polynomials in a parameter, these are their tangents where it vanishes. -/
theorem Grown.tangent [Infinite K] (h : Grown vs is) {c₀ c : K → Context K}
    (hc : ∀ t, p.Settled vs is (c₀ t) (c t)) {X : Place → K[X]}
    (hX : ∀ t, ∀ id < vs.length, ∀ k, (c t).entry (id, k) = (X (id, k)).eval t)
    (hnew : ∀ id, vs.length ≤ id → ∀ k, X (id, k) = 0) :
    Tangent p is (c 0) fun q => (X q).coeff 1 := by
  refine ⟨fun i hi dest s cells hform cell hcell => ?_, fun id s hs k hk => ?_⟩
  · have hread {u : Summand K} (hu : u ∈ cell.summands) {q : Place} (hq : q ∈ u.places) :
        q.1 < vs.length := h.lt_of_mem_consulted hi hform.works (hform.places cell hcell u hu q hq)
    have hdest : dest < vs.length := h.lt_of_mem_outputs hi (by simp [hform.outputs])
    have hcell' : X (dest, cell.position) = cell.value X := by
      -- the equation holds at infinitely many parameters, hence between the polynomials
      refine Polynomial.funext fun t => ?_
      rw [← hX t dest hdest, ((hc t).solved i hi dest s cells hform).entry_position hform.fill hcell,
        Cell.eval_value]
      exact Cell.value_congr fun u hu q hq => hX t q.1 (hread hu hq) q.2
    rw [hcell', Cell.coeff_one_value]
    refine Cell.slope_congr fun u hu q hq => ?_
    rw [coeff_zero_eq_eval_zero, ← hX 0 q.1 (hread hu hq)]
  · by_cases hid : id < vs.length
    · have hzero : X (id, k) = 0 := by
        refine Polynomial.funext fun t => ?_
        rw [← hX t id hid, (hc t).entry_of_le hs hk, eval_zero]
      rw [hzero, coeff_zero]
    · rw [hnew id (Nat.not_lt.mp hid) k, coeff_zero]

end Program

end TensorProgram
