/-
TensorProgram/Proofs/Gradient/Additivity.lean

The way back adds.  Where gradients accumulate and the scalars are exact, the
gradient of every value after an instruction is the one before, zero if it was
missing, plus a contribution.  The contribution is the same on all contexts with
the same weights and the same gradient of the output: what is written there are
the same writes (`Instruction.inStep_backward`), and writes that accumulate add
the sum of their values at each position (`Tensor.write_accumulate`).

Main statement: every instruction has such a contribution
(`Instruction.backward_is_additive`), so running it back twice adds it twice.
-/
import TensorProgram.Proofs.Gradient.Pairing
import TensorProgram.Proofs.Kernel.Frame
import TensorProgram.Proofs.Kernel.Parallel

namespace TensorProgram

open Std (ExtTreeMap)

variable {K : Type} [ExactScalar K]

/-! ### Adding to a tensor -/

/-- What a list of writes adds up to at a position. -/
def total (ws : List (Nat × K)) (k : Nat) : K := (ws.map fun w => if w.1 = k then w.2 else 0).sum

/-- Writes that accumulate add their total. -/
theorem getElem_applyWrites_accumulate {n k : Nat} (ws : List (Nat × K)) (data : Vector K n)
    (hk : k < n) : (applyWrites accumulate ws data)[k] = data[k] + total ws k := by
  induction ws generalizing data with
  | nil => rw [applyWrites_nil, total, List.map_nil, List.sum_nil, add_zero]
  | cons w ws ih =>
      rw [applyWrites_cons, ih, getElem_applyWrite, total, total, List.map_cons, List.sum_cons,
        ← add_assoc]
      congr 1
      split
      · rfl
      · rw [add_zero]

namespace Tensor

variable {t u : Tensor K} {δ : Nat → K}

/-- Add numbers to the elements of a tensor of scalars. -/
def plus (t : Tensor K) (δ : Nat → K) : Tensor K :=
  match t with
  | ⟨s, .float data⟩ => ⟨s, .float (Vector.ofFn fun k => data[k] + δ k)⟩
  | ⟨s, .index data⟩ => ⟨s, .index data⟩

@[simp] theorem declaration_plus (t : Tensor K) (δ : Nat → K) :
    (t.plus δ).declaration = t.declaration := by
  obtain ⟨s, data | data⟩ := t <;> rfl

theorem plus_zero (t : Tensor K) : (t.plus fun _ => 0) = t := by
  obtain ⟨s, data | data⟩ := t
  · rw [plus]
    congr 2
    ext k hk
    rw [Vector.getElem_ofFn, add_zero]
    rfl
  · rfl

theorem write_accumulate (t : Tensor K) (ws : List (Nat × K)) :
    t.write accumulate ws = t.plus (total ws) := by
  obtain ⟨s, data | data⟩ := t
  · rw [write, plus]
    congr 2
    ext k hk
    rw [getElem_applyWrites_accumulate ws data hk, Vector.getElem_ofFn]
    rfl
  · rfl

/-- By how much a tensor has grown can be read off, and added to another one of
the same kind and shape it makes that grow as much. -/
theorem plus_difference (h : u.declaration = t.declaration) (δ : Nat → K) :
    (t.plus fun k => (u.plus δ).entry k - u.entry k) = t.plus δ := by
  obtain ⟨s, data | data⟩ := t
  · obtain ⟨data', rfl⟩ := eq_float h
    rw [plus, plus, plus]
    congr 2
    ext k hk
    rw [Vector.getElem_ofFn, Vector.getElem_ofFn, entry_float, entry_float, View.entry, View.entry,
      dif_pos hk, dif_pos hk, Vector.getElem_ofFn]
    congr 1
    exact add_sub_cancel_left _ _
  · rfl

end Tensor

/-! ### Contexts in which gradients grow -/

namespace Context

/-- Weights are the same, and every gradient is the one before, zero if it was
missing, with these numbers added. -/
structure Accrued (c c' : Context K) (δ : Place → K) : Prop where
  /-- Declarations and weights are the same. -/
  same : SameValues c c'
  /-- Gradients stay bound. -/
  bound : ∀ id : ValueId, (c.grads[id]?).isSome → (c'.grads[id]?).isSome
  /-- Gradients are added to. -/
  grads : ∀ id, c'.gradOrZeros id = (c.gradOrZeros id).map (·.plus fun k => δ (id, k))

end Context

namespace Instruction

open Context (Accrued Comparable SameValues)

variable (i : Instruction K)

/-- The weights of the operands are bound, and bound gradients have the kind and
shape of their weights. -/
structure Prepared (c : Context K) : Prop where
  /-- The operands have weights. -/
  bound : ∀ id ∈ i.operands.map Prod.fst, (c.weights[id]?).isSome
  /-- Gradients fit weights. -/
  fits : ∀ {id : ValueId} {t g : Tensor K}, c.weights[id]? = some t → c.grads[id]? = some g →
    g.declaration = t.declaration

variable {i} {c c' d : Context K} {config : Config K} {g : Tensor K} {δ : Place → K}

/-- A bound weight has a gradient of its kind and shape, present or zero. -/
theorem Prepared.exists_grad (h : i.Prepared c) {id : ValueId} {t : Tensor K}
    (ht : c.weights[id]? = some t) :
    ∃ g, c.gradOrZeros id = .ok g ∧ g.declaration = t.declaration := by
  rcases hg : c.grads[id]? with - | g
  · refine ⟨t.zerosLike, ?_, Tensor.declaration_zerosLike t⟩
    simp only [Context.gradOrZeros, hg, ht]
  · exact ⟨g, Context.gradOrZeros_of_grad hg, h.fits ht hg⟩

theorem Prepared.comparable (hc : i.Prepared c) (hd : i.Prepared d) (hw : d.weights = c.weights)
    (hg : d.gradOrZeros i.dest = c.gradOrZeros i.dest) :
    Comparable (i.operands.map Prod.fst) i.dest c d where
  weights id _ := by rw [hw]
  out := hg
  grads id hid := by
    obtain ⟨t, ht⟩ := Option.isSome_iff_exists.mp (hc.bound id hid)
    obtain ⟨g, hgc, hdecl⟩ := hc.exists_grad ht
    obtain ⟨g', hgd, hdecl'⟩ := hd.exists_grad (by rw [hw, ht])
    rw [hgc, hgd]
    exact congrArg Except.ok (hdecl'.trans hdecl.symm)

/-- A context whose gradients have grown is as prepared as before. -/
theorem Prepared.accrued (h : i.Prepared c) (hc : c.Accrued c' δ) : i.Prepared c' where
  bound id hid := by
    rw [hc.same.weights]
    exact h.bound id hid
  fits {id t g'} ht hg' := by
    rw [hc.same.weights] at ht
    obtain ⟨g, hg, hdecl⟩ := h.exists_grad ht
    have hgrown := hc.grads id
    rw [Context.gradOrZeros_of_grad hg', hg] at hgrown
    obtain rfl := Except.ok.inj hgrown
    rw [Tensor.declaration_plus, hdecl]

/-! ### The contribution -/

/-- On some context with these weights and this gradient of its output, the
instruction changes gradients by these numbers. -/
def Adds (i : Instruction K) (config : Config K) (w : ExtTreeMap ValueId (Tensor K))
    (g : Tensor K) (δ : Place → K) : Prop :=
  ∃ c c', i.Prepared c ∧ c.weights = w ∧ c.gradOrZeros i.dest = .ok g ∧
    i.backward config c = .ok () c' ∧ ∀ q, δ q = c'.gradEntry q - c.gradEntry q

/-- What the instruction adds on one context it adds on all that have the same
weights and the same gradient of its output. -/
theorem Adds.accrued (hcombine : i.combine config = accumulate) (hc : i.Prepared c)
    (hg : c.gradOrZeros i.dest = .ok g) (hrun : i.backward config c = .ok () c')
    (h : i.Adds config c.weights g δ) : c.Accrued c' δ := by
  obtain ⟨d, d', hd, hw, hgd, hrund, hδ⟩ := h
  have h₀ : Comparable (i.operands.map Prod.fst) i.dest c d := hc.comparable hd hw (hgd.trans hg.symm)
  have hstep := i.inStep_backward config (S := i.operands.map Prod.fst) fun _ hid => hid
  rw [hcombine] at hstep
  obtain ⟨d'', hd'', hpar⟩ := (hstep c d h₀).ok (.refl _ _ c d) hrun
  obtain rfl : d' = d'' := (EStateM.Result.ok.inj (hrund.symm.trans hd'')).2
  have hframe : i.BackwardFrame c c' := Run.after_of_ok hrun ▸ i.backwardFrame config c
  have hframe' : i.BackwardFrame d d' := Run.after_of_ok hrund ▸ i.backwardFrame config d
  refine ⟨hpar.left, hframe.bound, fun id => ?_⟩
  -- nothing is added to gradients that stay as they are in both contexts
  have hkept (hcc : c'.grads[id]? = c.grads[id]?) (hdd : d'.grads[id]? = d.grads[id]?) :
      c'.gradOrZeros id = (c.gradOrZeros id).map (·.plus fun k => δ (id, k)) := by
    have hzero : (fun k => δ (id, k)) = fun _ => 0 :=
      funext fun k => by rw [hδ, Context.gradEntry, Context.gradEntry, hdd, sub_self]
    rw [hpar.left.gradOrZeros hcc, hzero]
    rcases c.gradOrZeros id with e | t
    · rfl
    · exact congrArg Except.ok t.plus_zero.symm
  by_cases hid : id ∈ i.operands.map Prod.fst
  · cases hpar.received id hid with
    | nothing left right => exact hkept left right
    | writes t u ws ht hu left right =>
        have hdecl := h₀.grads id hid
        rw [ht, hu] at hdecl
        rw [Tensor.write_accumulate] at left right
        rw [Context.gradOrZeros_of_grad left, ht]
        refine congrArg Except.ok ?_
        rw [← Tensor.plus_difference (Except.ok.inj hdecl)]
        congr 1
        funext k
        rw [hδ, Context.gradEntry_of_gradOrZeros (Context.gradOrZeros_of_grad right),
          Context.gradEntry_of_gradOrZeros hu]
  · exact hkept (hframe.grads id hid) (hframe'.grads id hid)

open Classical in
/-- What the instruction adds to gradients on contexts with these weights and
this gradient of its output, if it succeeds on any. -/
noncomputable def contribution (i : Instruction K) (config : Config K)
    (w : ExtTreeMap ValueId (Tensor K)) (g : Tensor K) : Place → K :=
  if h : ∃ δ, i.Adds config w g δ then h.choose else 0

theorem accrued_contribution (hcombine : i.combine config = accumulate) (hc : i.Prepared c)
    (hg : c.gradOrZeros i.dest = .ok g) (hrun : i.backward config c = .ok () c') :
    c.Accrued c' (i.contribution config c.weights g) := by
  have hadds : ∃ δ, i.Adds config c.weights g δ := ⟨_, c, c', hc, rfl, hg, hrun, fun _ => rfl⟩
  rw [contribution, dif_pos hadds]
  exact hadds.choose_spec.accrued hcombine hc hg hrun

theorem combine_eq_accumulate
    (h : config.gradientPolicy = .accumulate ∨ i.heedsPolicy = false) :
    i.combine config = accumulate := by
  rw [combine]
  rcases h with h | h
  · rw [h, GradientPolicy.combine]
    split <;> rfl
  · rw [h]
    rfl

/-- **The way back adds.**  If gradients accumulate, or the instruction does not
heed the policy, then what it adds to gradients is a function of the weights and
of the gradient of its output; run again with that gradient unchanged it
succeeds and adds the same. -/
theorem backward_is_additive (i : Instruction K) (config : Config K)
    (hpolicy : config.gradientPolicy = .accumulate ∨ i.heedsPolicy = false) :
    ∃ contribution : ExtTreeMap ValueId (Tensor K) → Tensor K → Place → K,
      ∀ c c' : Context K, i.Prepared c → i.backward config c = .ok () c' →
        ∃ g, c.gradOrZeros i.dest = .ok g ∧ c.Accrued c' (contribution c.weights g) ∧
          (c'.gradOrZeros i.dest = .ok g → ∃ c'', i.backward config c' = .ok () c'' ∧
            c'.Accrued c'' (contribution c.weights g)) := by
  have hcombine := combine_eq_accumulate hpolicy
  refine ⟨i.contribution config, fun c c' hc hrun => ?_⟩
  obtain ⟨t, ht⟩ := Option.isSome_iff_exists.mp (hc.bound i.dest i.dest_mem)
  obtain ⟨g, hg, -⟩ := hc.exists_grad ht
  have haccrued := accrued_contribution hcombine hc hg hrun
  refine ⟨g, hg, haccrued, fun hg' => ?_⟩
  have hc' : i.Prepared c' := hc.accrued haccrued
  have hweights := haccrued.same.weights
  -- the second run goes like the first, which found the same weights and the same gradient
  have h₀ := hc.comparable hc' hweights (hg'.trans hg.symm)
  have hstep := i.inStep_backward config (S := i.operands.map Prod.fst) fun _ hid => hid
  obtain ⟨c'', hrun', -⟩ := (hstep c c' h₀).ok (.refl _ _ c c') hrun
  have haccrued' := accrued_contribution hcombine hc' hg' hrun'
  rw [hweights] at haccrued'
  exact ⟨c'', hrun', haccrued'⟩

/-- Rational numbers, with zero for what would leave them. -/
local instance rationals : ExactScalar ℚ :=
  exactScalars (fun _ => 0) (fun _ => 0) (fun _ _ => 0) fun _ _ _ => 0

/-- The square of a vector. -/
def squared : Instruction ℚ := .arithmetic ⟨.mul, 1, 0, 0⟩

/-- Gradients accumulate. -/
def accumulating : Config ℚ := { Config.default with gradientPolicy := .accumulate }

/-- A vector, its square and the gradient of the square. -/
def squaredVector : Context ℚ :=
  ((({} : Context ℚ).setWeight 0 ⟨⟨[2]⟩, .float #v[2, 5]⟩).setWeight 1
    ⟨⟨[2]⟩, .float #v[4, 25]⟩).setGrad 1 ⟨⟨[2]⟩, .float #v[1, 3]⟩

theorem prepared_squaredVector : squared.Prepared squaredVector where
  bound := by decide
  fits {id t g} ht hg := by
    rw [squaredVector, Context.grads_setGrad] at hg
    split at hg
    · rename_i hid
      rw [squaredVector, Context.weights_setGrad, Context.weights_setWeight, if_pos hid] at ht
      obtain rfl := Option.some.inj hg
      obtain rfl := Option.some.inj ht
      rfl
    · cases hg

theorem backward_is_additive_squaredVector :
    ∃ contribution : ExtTreeMap ValueId (Tensor ℚ) → Tensor ℚ → Place → ℚ, ∃ g c' c'',
      squaredVector.gradOrZeros 1 = .ok g ∧
      squared.backward accumulating squaredVector = .ok () c' ∧
      squared.backward accumulating c' = .ok () c'' ∧
      squaredVector.Accrued c' (contribution squaredVector.weights g) ∧
      c'.Accrued c'' (contribution squaredVector.weights g) := by
  obtain ⟨contribution, h⟩ := backward_is_additive squared accumulating (.inl rfl)
  obtain ⟨c', hrun, hg'⟩ : ∃ c', squared.backward accumulating squaredVector = .ok () c' ∧
      c'.gradOrZeros squared.dest = squaredVector.gradOrZeros squared.dest := ⟨_, rfl, rfl⟩
  obtain ⟨g, hg, haccrued, hagain⟩ := h squaredVector c' prepared_squaredVector hrun
  obtain ⟨c'', hrun', haccrued'⟩ := hagain (hg'.trans hg)
  exact ⟨contribution, g, c', c'', hg, hrun, hrun', haccrued, haccrued'⟩

end Instruction

end TensorProgram
