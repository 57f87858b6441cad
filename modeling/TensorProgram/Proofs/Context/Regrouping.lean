/-
TensorProgram/Proofs/Context/Regrouping.lean

Which order deposits are made in.  Deposits to different values do not meet, so
of a list of deposits a value only notices the writes to itself, in their order
(`Context.writesTo`, `Context.grads_deposits`).  Two lists in which every value
finds the same writes therefore leave the same context, however the deposits to
different values are mixed (`Context.deposits_congr`).

This is what lets the passes of a way back be separated: as long as no pass reads
what another one writes, only the order within each gradient counts.
-/
import TensorProgram.Proofs.Context.Deposits
import TensorProgram.Proofs.Context.Mirror

namespace TensorProgram

variable {α : Type} [Scalar α]

namespace Context

variable {c c' : Context α} {id : ValueId} {s : Shape} {combine : α → α → α}
  {ds es : List (Deposit α)}

/-! ### The writes to one value -/

/-- The writes to a value, in the order of the deposits. -/
def writesTo (id : ValueId) (ds : List (Deposit α)) : List (Nat × α) :=
  (ds.filter fun d => d.1 = id).flatMap Prod.snd

section Writes

omit [Scalar α]

@[simp] theorem writesTo_nil : writesTo id ([] : List (Deposit α)) = [] := rfl

theorem writesTo_cons (d : Deposit α) :
    writesTo id (d :: ds) = if d.1 = id then d.2 ++ writesTo id ds else writesTo id ds := by
  by_cases h : d.1 = id <;> simp [writesTo, h]

theorem writesTo_append : writesTo id (ds ++ es) = writesTo id ds ++ writesTo id es := by
  simp [writesTo]

/-- A walk of deposits is a walk of the writes to each value. -/
theorem writesTo_flatMap {ι : Type} (xs : List ι) (f : ι → List (Deposit α)) :
    writesTo id (xs.flatMap f) = xs.flatMap fun x => writesTo id (f x) := by
  induction xs with
  | nil => rfl
  | cons x xs ih => rw [List.flatMap_cons, List.flatMap_cons, writesTo_append, ih]

end Writes

/-! ### What deposits leave -/

@[simp] theorem weights_deposits : (c.deposits combine ds).weights = c.weights := by
  induction ds generalizing c with
  | nil => rfl
  | cons d ds ih => rw [deposits_cons, ih, weights_deposit]

@[simp] theorem declared_deposits : (c.deposits combine ds).declared = c.declared := by
  induction ds generalizing c with
  | nil => rfl
  | cons d ds ih => rw [deposits_cons, ih, declared_deposit]

/-- A bound gradient receives the writes to its value. -/
theorem grads_deposits_of_grad {data : Vector α s.elemCount}
    (h : c.grads[id]? = some ⟨s, .float data⟩) :
    (c.deposits combine ds).grads[id]?
      = some ⟨s, .float (applyWrites combine (writesTo id ds) data)⟩ := by
  induction ds generalizing c data with
  | nil => exact h
  | cons d ds ih =>
      obtain ⟨j, ws⟩ := d
      rw [deposits_cons, writesTo_cons]
      by_cases hj : j = id
      · subst hj
        rw [if_pos rfl, applyWrites_append]
        exact ih (grads_deposit_self ws (gradOrZeros_of_grad h))
      · rw [if_neg hj]
        exact ih ((grads_deposit_of_ne hj).trans h)

/-- The gradient of a value with a deposit is bound afterwards; it has received
the writes to the value. -/
theorem grads_deposits {data : Vector α s.elemCount}
    (h : c.gradOrZeros id = .ok ⟨s, .float data⟩) (hid : id ∈ ds.map Prod.fst) :
    (c.deposits combine ds).grads[id]?
      = some ⟨s, .float (applyWrites combine (writesTo id ds) data)⟩ := by
  induction ds generalizing c with
  | nil => cases hid
  | cons d ds ih =>
      obtain ⟨j, ws⟩ := d
      rw [deposits_cons, writesTo_cons]
      by_cases hj : j = id
      · subst hj
        rw [if_pos rfl, applyWrites_append]
        exact grads_deposits_of_grad (grads_deposit_self ws h)
      · rw [if_neg hj]
        exact ih ((gradOrZeros_deposit_of_ne hj).trans h) (by simpa [Ne.symm hj] using hid)

/-- Deposits to the same values leave the same context if every value finds the
same writes to itself. -/
theorem deposits_congr (hids : ∀ id, id ∈ ds.map Prod.fst ↔ id ∈ es.map Prod.fst)
    (hgrad : ∀ id ∈ ds.map Prod.fst, ∃ s, c.HasGrad id s)
    (hwrites : ∀ id ∈ ds.map Prod.fst, writesTo id ds = writesTo id es) :
    c.deposits combine ds = c.deposits combine es := by
  refine ext_lookup (fun id => by rw [declared_deposits, declared_deposits])
    (fun id => by rw [weights_deposits, weights_deposits]) fun id => ?_
  by_cases hid : id ∈ ds.map Prod.fst
  · obtain ⟨s, data, hdata⟩ := hgrad id hid
    rw [grads_deposits hdata hid, grads_deposits hdata ((hids id).mp hid), hwrites id hid]
  · have hne {fs : List (Deposit α)} (h : id ∉ fs.map Prod.fst) : ∀ d ∈ fs, d.1 ≠ id :=
      fun d hd heq => h (heq ▸ List.mem_map_of_mem hd)
    rw [grads_deposits_of_ne (hne hid), grads_deposits_of_ne (hne fun h => hid ((hids id).mpr h))]

/-- Once all gradients are bound, the deposits may be made in pieces and in any
mixture that keeps the order of the writes to each value. -/
theorem deposits_regroup (ds : List (Deposit α)) (hids : ∀ e ∈ es, e.1 ∈ ds.map Prod.fst)
    (hgrad : ∀ id ∈ ds.map Prod.fst, ∃ s, c.HasGrad id s)
    (hwrites : ∀ id ∈ ds.map Prod.fst, writesTo id es = writesTo id ds) :
    c.deposits combine ((ds.map fun d => (d.1, [])) ++ es) = c.deposits combine ds := by
  have hids' (id : ValueId) :
      id ∈ ((ds.map fun d => ((d.1, []) : Deposit α)) ++ es).map Prod.fst ↔ id ∈ ds.map Prod.fst := by
    rw [List.map_append, List.map_map, List.mem_append]
    refine or_iff_left_of_imp fun h => ?_
    obtain ⟨e, he, rfl⟩ := List.mem_map.mp h
    exact hids e he
  have hbound (id : ValueId) : writesTo id (ds.map fun d => ((d.1, []) : Deposit α)) = [] := by
    rw [writesTo, List.filter_map, List.flatMap_map]
    exact List.flatMap_eq_nil_iff.mpr fun _ _ => rfl
  refine deposits_congr hids' (fun id hid => hgrad id ((hids' id).mp hid)) fun id hid => ?_
  rw [writesTo_append, hbound, List.nil_append, hwrites id ((hids' id).mp hid)]

/-! ### Making gradients -/

/-- A value bound to scalars has a gradient of its shape, as long as gradients
mirror weights. -/
theorem Mirrored.hasGrad (hc : c.Mirrored) {v : View α} (h : c.weights[id]? = some v.tensor) :
    c.HasGrad id v.shape := by
  obtain ⟨g, hg⟩ := exists_gradOrZeros h
  obtain ⟨data, rfl⟩ := Tensor.eq_float (hc.gradOrZeros hg h)
  exact ⟨data, hg⟩

/-- What binds a gradient has found the one that was there, or zeros. -/
theorem of_ensureGrad_ok (h : change (fun c => c.ensureGrad id) c = .ok () c') :
    ∃ g, c.gradOrZeros id = .ok g ∧ c' = c.setGrad id g := by
  rcases hg : c.gradOrZeros id with e | g
  · rw [change, ensureGrad, hg] at h
    cases h
  · rw [change, ensureGrad, hg] at h
    obtain ⟨-, rfl⟩ := EStateM.Result.ok.inj h
    exact ⟨g, rfl, rfl⟩

/-- What updates a gradient has found it and bound what its inner call left. -/
theorem of_updateGrad_ok {β : Type} {f : Context α → Run (Tensor α) β} {b : β}
    (h : updateGrad id f c = .ok b c') : ∃ g g', c.gradOrZeros id = .ok g ∧
      f (c.withoutGrad id) g = .ok b g' ∧ c' = c.setGrad id g' := by
  rcases hg : c.gradOrZeros id with e | g
  · rw [updateGrad, hg] at h
    cases h
  · rw [updateGrad, hg] at h
    rcases hf : f (c.withoutGrad id) g with ⟨r, g'⟩ | ⟨e, g'⟩
    · simp only [hf] at h
      obtain ⟨rfl, rfl⟩ := EStateM.Result.ok.inj h
      exact ⟨g, g', rfl, hf, rfl⟩
    · simp only [hf] at h
      cases h

end Context

end TensorProgram
