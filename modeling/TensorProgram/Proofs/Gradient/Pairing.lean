/-
TensorProgram/Proofs/Gradient/Pairing.lean

Gradients paired with directions.  The pairing of a value is the sum, over its
elements, of the gradient times the direction in which the element moves; a
missing gradient counts as zero.

Main statement: a deposit that accumulates changes the pairing of its value by
the sum of what it adds times the direction there, and no other pairing
(`Context.sum_paired_deposits`).  A value may receive several deposits, from one
instruction or from many.
-/
import TensorProgram.Proofs.Gradient.Cell
import TensorProgram.Proofs.Context.Deposits

namespace TensorProgram

variable {K : Type} [ExactScalar K]

/-- The element of a tensor of scalars at a position; zero outside of it, and of
indices. -/
def Tensor.entry (t : Tensor K) (k : Nat) : K :=
  match t with
  | ⟨s, .float data⟩ => (View.mk s data).entry k
  | ⟨_, .index _⟩ => 0

@[simp] theorem Tensor.entry_float (s : Shape) (data : Vector K s.elemCount) (k : Nat) :
    (⟨s, .float data⟩ : Tensor K).entry k = (View.mk s data).entry k := rfl

@[simp] theorem View.entry_tensor (v : View K) (k : Nat) : v.tensor.entry k = v.entry k := rfl

/-- Outside of its buffer a view has no elements. -/
theorem View.entry_of_le (v : View K) {k : Nat} (h : v.shape.elemCount ≤ k) : v.entry k = 0 := by
  rw [View.entry, dif_neg (Nat.not_lt.mpr h)]

/-- The elements of zeros are zero. -/
theorem Tensor.entry_zeros (kind : ElemKind) (s : Shape) (k : Nat) :
    (Tensor.zeros kind s : Tensor K).entry k = 0 := by
  cases kind with
  | index => rfl
  | float =>
      show (View.mk s (Vector.replicate s.elemCount (0 : K))).entry k = 0
      rw [View.entry]
      split
      · exact Vector.getElem_replicate _
      · rfl

/-- The sum of products of the elements of a tensor with these numbers. -/
def Tensor.paired (t : Tensor K) (d : Nat → K) : K :=
  ∑ k ∈ Finset.range t.shape.elemCount, t.entry k * d k

theorem Tensor.paired_of_entry {t : Tensor K} (h : ∀ k, t.entry k = 0) (d : Nat → K) :
    t.paired d = 0 := by
  apply Finset.sum_eq_zero
  intro k _
  rw [h, zero_mul]

/-! ### Elements of a context -/

namespace Context

variable {c c' : Context K} {id : ValueId} {s : Shape} {d : Place → K}

/-- An element of a weight; zero if there is none. -/
def entry (c : Context K) (p : Place) : K := (c.weights[p.1]?).elim 0 (·.entry p.2)

/-- An element of a gradient; zero if there is none. -/
def gradEntry (c : Context K) (p : Place) : K := (c.grads[p.1]?).elim 0 (·.entry p.2)

theorem entry_of_weight {t : Tensor K} (h : c.weights[id]? = some t) (k : Nat) :
    c.entry (id, k) = t.entry k := by
  rw [entry, h]
  rfl

theorem entry_congr {p : Place} (h : c'.weights[p.1]? = c.weights[p.1]?) :
    c'.entry p = c.entry p := by
  rw [entry, entry, h]

/-- The elements that an instruction starts from when it reads a gradient. -/
theorem gradEntry_of_gradOrZeros {g : Tensor K} (h : c.gradOrZeros id = .ok g) (k : Nat) :
    c.gradEntry (id, k) = g.entry k := by
  rw [gradEntry]
  rw [gradOrZeros] at h
  rcases hg : c.grads[id]? with - | g'
  · rw [hg] at h
    dsimp only at h
    rcases hw : c.weights[id]? with - | t
    · rw [hw] at h
      obtain ⟨e, -, he⟩ := Except.bind_eq_ok.mp h
      obtain rfl := Except.ok.inj he
      exact (Tensor.entry_zeros _ _ k).symm
    · rw [hw] at h
      obtain rfl := Except.ok.inj h
      exact (Tensor.entry_zeros _ _ k).symm
  · rw [hg] at h
    obtain rfl := Except.ok.inj h
    rfl

/-- The gradient of a value paired with a direction. -/
def paired (c : Context K) (d : Place → K) (id : ValueId) : K :=
  (c.grads[id]?).elim 0 (·.paired fun k => d (id, k))

theorem paired_congr (h : c'.grads[id]? = c.grads[id]?) : c'.paired d id = c.paired d id := by
  rw [paired, paired, h]

theorem paired_of_grad {g : Tensor K} (h : c.grads[id]? = some g) :
    c.paired d id = g.paired fun k => d (id, k) := by
  rw [paired, h]
  rfl

/-- Gradients that vanish pair to zero. -/
theorem paired_of_gradEntry (h : ∀ k, c.gradEntry (id, k) = 0) : c.paired d id = 0 := by
  rw [paired]
  rcases hg : c.grads[id]? with - | g
  · rfl
  · refine Tensor.paired_of_entry (fun k => ?_) _
    rw [← h k, gradEntry, hg]
    rfl

/-- The pairing is a sum over the elements that an instruction starts from. -/
theorem paired_of_gradOrZeros {g : Tensor K} (h : c.gradOrZeros id = .ok g) :
    c.paired d id = g.paired fun k => d (id, k) := by
  rcases hg : c.grads[id]? with - | g'
  · have hentry (k : Nat) : c.gradEntry (id, k) = 0 := by
      rw [gradEntry, hg]
      rfl
    rw [paired_of_gradEntry hentry, Tensor.paired_of_entry fun k => ?_]
    rw [← gradEntry_of_gradOrZeros h k, hentry k]
  · obtain rfl : g' = g := Except.ok.inj ((gradOrZeros_of_grad hg).symm.trans h)
    exact paired_of_grad hg

/-- A gradient of this shape, present or missing, is paired element by element. -/
theorem paired_of_hasGrad (h : c.HasGrad id s) :
    c.paired d id = ∑ k ∈ Finset.range s.elemCount, c.gradEntry (id, k) * d (id, k) := by
  obtain ⟨data, hdata⟩ := h
  rw [paired_of_gradOrZeros hdata, Tensor.paired]
  exact Finset.sum_congr rfl fun k _ => by rw [gradEntry_of_gradOrZeros hdata k]

/-- A value that does not move pairs to zero. -/
theorem paired_of_direction (h : ∀ k, d (id, k) = 0) : c.paired d id = 0 := by
  rw [paired]
  rcases c.grads[id]? with - | g
  · rfl
  · show g.paired (fun k => d (id, k)) = 0
    simp only [h, Tensor.paired, mul_zero, Finset.sum_const_zero]

end Context

/-! ### Deposits -/

/-- What a deposit adds, paired with a direction. -/
def pairedDeposit (d : Place → K) (e : Deposit K) : K :=
  (e.2.map fun w => w.2 * d (e.1, w.1)).sum

@[simp] theorem pairedDeposit_nil (d : Place → K) (id : ValueId) :
    pairedDeposit d (id, []) = 0 := rfl

/-- A write that adds changes a sum over the buffer by its term; a direction is
zero outside. -/
theorem sum_entry_applyWrite {s : Shape} {f : Nat → K} (hf : ∀ k, s.elemCount ≤ k → f k = 0)
    (w : Nat × K) (data : Vector K s.elemCount) :
    ∑ k ∈ Finset.range s.elemCount, (View.mk s (applyWrite accumulate data w)).entry k * f k
      = ∑ k ∈ Finset.range s.elemCount, (View.mk s data).entry k * f k + w.2 * f w.1 := by
  have hentry : ∀ k ∈ Finset.range s.elemCount,
      (View.mk s (applyWrite accumulate data w)).entry k * f k
        = (View.mk s data).entry k * f k + if w.1 = k then w.2 * f k else 0 := by
    intro k hk
    have hlt : k < s.elemCount := Finset.mem_range.mp hk
    rw [View.entry, View.entry, dif_pos hlt, dif_pos hlt, getElem_applyWrite accumulate data w hlt]
    split
    · rw [accumulate, add_mul]
    · rw [add_zero]
  rw [Finset.sum_congr rfl hentry, Finset.sum_add_distrib, Finset.sum_ite_eq]
  congr 1
  split
  · rfl
  · -- a write outside the buffer adds nothing, as the direction is zero there
    rename_i hout
    rw [hf w.1 (Nat.not_lt.mp fun hlt => hout (Finset.mem_range.mpr hlt)), mul_zero]

/-- Writes that add change it by the sum of their terms. -/
theorem sum_entry_applyWrites {s : Shape} {f : Nat → K} (hf : ∀ k, s.elemCount ≤ k → f k = 0)
    (ws : List (Nat × K)) (data : Vector K s.elemCount) :
    ∑ k ∈ Finset.range s.elemCount, (View.mk s (applyWrites accumulate ws data)).entry k * f k
      = ∑ k ∈ Finset.range s.elemCount, (View.mk s data).entry k * f k
        + (ws.map fun w => w.2 * f w.1).sum := by
  induction ws generalizing data with
  | nil => rw [applyWrites_nil, List.map_nil, List.sum_nil, add_zero]
  | cons w ws ih =>
      rw [applyWrites_cons, ih, sum_entry_applyWrite hf, List.map_cons, List.sum_cons, add_assoc]

namespace Context

variable {c : Context K} {d : Place → K}

/-- A deposit changes the pairing of its value by what it adds. -/
theorem paired_deposit_self {id : ValueId} {s : Shape} (hgrad : c.HasGrad id s)
    (hd : ∀ k, s.elemCount ≤ k → d (id, k) = 0) (ws : List (Nat × K)) :
    (c.deposit accumulate (id, ws)).paired d id = c.paired d id + pairedDeposit d (id, ws) := by
  obtain ⟨data, hdata⟩ := hgrad
  rw [paired_of_grad (grads_deposit_self ws hdata), paired_of_gradOrZeros hdata]
  exact sum_entry_applyWrites hd ws data

theorem paired_deposit_of_ne {id : ValueId} {e : Deposit K} (h : e.1 ≠ id) :
    (c.deposit accumulate e).paired d id = c.paired d id := paired_congr (grads_deposit_of_ne h)

/-- Among the values below `n` a deposit changes the sum of the pairings by what
it adds, if it is made to one of them. -/
theorem sum_paired_deposit {n : Nat} {e : Deposit K} {s : Shape} (he : e.1 < n)
    (hgrad : c.HasGrad e.1 s) (hd : ∀ k, s.elemCount ≤ k → d (e.1, k) = 0) :
    ∑ id ∈ Finset.range n, (c.deposit accumulate e).paired d id
      = ∑ id ∈ Finset.range n, c.paired d id + pairedDeposit d e := by
  have hpaired : ∀ id ∈ Finset.range n, (c.deposit accumulate e).paired d id
      = c.paired d id + if e.1 = id then pairedDeposit d e else 0 := by
    intro id _
    split
    · rename_i hid
      subst hid
      exact paired_deposit_self hgrad hd e.2
    · rename_i hid
      rw [paired_deposit_of_ne hid, add_zero]
  rw [Finset.sum_congr rfl hpaired, Finset.sum_add_distrib, Finset.sum_ite_eq,
    if_pos (Finset.mem_range.mpr he)]

/-- **Deposits change the sum of the pairings by what they add.**  Each is made
to a value below `n`, or it adds nothing. -/
theorem sum_paired_deposits {n : Nat} {ds : List (Deposit K)}
    (hds : ∀ e ∈ ds, (∃ id, n ≤ id ∧ e = (id, [])) ∨ (e.1 < n ∧
      ∃ s, c.HasGrad e.1 s ∧ ∀ k, s.elemCount ≤ k → d (e.1, k) = 0)) :
    ∑ id ∈ Finset.range n, (c.deposits accumulate ds).paired d id
      = ∑ id ∈ Finset.range n, c.paired d id + (ds.map (pairedDeposit d)).sum := by
  induction ds generalizing c with
  | nil => rw [deposits_nil, List.map_nil, List.sum_nil, add_zero]
  | cons e ds ih =>
      have hhead : ∑ id ∈ Finset.range n, (c.deposit accumulate e).paired d id
          = ∑ id ∈ Finset.range n, c.paired d id + pairedDeposit d e := by
        rcases hds e (by simp) with ⟨id, hid, rfl⟩ | ⟨hlt, s, hgrad, hd⟩
        · rw [pairedDeposit_nil, add_zero]
          refine Finset.sum_congr rfl fun j hj => paired_deposit_of_ne ?_
          exact (Nat.lt_of_lt_of_le (Finset.mem_range.mp hj) hid).ne'
        · exact sum_paired_deposit hlt hgrad hd
      rw [deposits_cons, ih, hhead, List.map_cons, List.sum_cons, add_assoc]
      intro e' he'
      rcases hds e' (by simp [he']) with h | ⟨hlt, s, hgrad, hd⟩
      · exact .inl h
      · exact .inr ⟨hlt, s, hgrad.deposit e, hd⟩

end Context

end TensorProgram
