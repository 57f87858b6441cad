/-
TensorProgram/Proofs/Context/Deposits.lean

Contributions to gradients.  The way back of an instruction makes sure that its
output has a gradient and then adds to the gradients of its inputs, one after
the other.  A deposit is one such addition: a value and a list of writes that
are combined with its gradient, which counts as zeros if it is missing.

The writes of all deposits of an instruction are computed from the weights of
its operands and the gradient of its output, and no deposit changes these.  So
the deposits are those of the context before the instruction
(`Context.Deposits.backward`), and two contexts that agree on them receive the
same ones.
-/
import TensorProgram.Proofs.Context.Evolution

namespace TensorProgram

variable {α : Type} [Scalar α]

/-- A value and the writes that are combined with its gradient. -/
abbrev Deposit (α : Type) := ValueId × List (Nat × α)

namespace Context

variable {c c₀ : Context α} {id dest a b : ValueId} {s : Shape} {combine : α → α → α}

/-- The gradient of a value, present or still missing, is one of scalars of this
shape. -/
def HasGrad (c : Context α) (id : ValueId) (s : Shape) : Prop :=
  ∃ data : Vector α s.elemCount, c.gradOrZeros id = .ok ⟨s, .float data⟩

/-- Combine writes with the gradient of a value. -/
def deposit (combine : α → α → α) (c : Context α) (d : Deposit α) : Context α :=
  match c.gradOrZeros d.1 with
  | .ok ⟨s, .float data⟩ => c.setGrad d.1 ⟨s, .float (applyWrites combine d.2 data)⟩
  | _ => c

theorem deposit_eq {data : Vector α s.elemCount} (ws : List (Nat × α))
    (h : c.gradOrZeros id = .ok ⟨s, .float data⟩) :
    c.deposit combine (id, ws) = c.setGrad id ⟨s, .float (applyWrites combine ws data)⟩ := by
  simp only [deposit, h]

/-- Updating a gradient by writes is a deposit. -/
theorem updateGrad_deposit {f : Context α → Run (Tensor α) Unit}
    {g : (s : Shape) → Run (Vector α s.elemCount) Unit} {ws : List (Nat × α)}
    (hgrad : c.HasGrad id s) (hf : f (c.withoutGrad id) = Tensor.onFloats g)
    (hg : Run.Performs combine (g s) ws) :
    updateGrad id f c = .ok () (c.deposit combine (id, ws)) := by
  obtain ⟨data, hdata⟩ := hgrad
  rw [deposit_eq ws hdata]
  refine updateGrad_of_ok hdata ?_
  rw [hf]
  exact Tensor.onFloats_of_ok (hg.run data)

/-! ### What a deposit leaves alone -/

@[simp] theorem weights_deposit (d : Deposit α) : (c.deposit combine d).weights = c.weights := by
  unfold deposit
  split <;> rfl

@[simp] theorem declared_deposit (d : Deposit α) :
    (c.deposit combine d).declared = c.declared := by
  unfold deposit
  split <;> rfl

theorem grads_deposit_of_ne {d : Deposit α} (h : d.1 ≠ b) :
    (c.deposit combine d).grads[b]? = c.grads[b]? := by
  unfold deposit
  split
  · exact grads_setGrad_of_ne h
  · rfl

theorem gradOrZeros_congr {c c' : Context α} (hdecl : c'.declared[id]? = c.declared[id]?)
    (hw : c'.weights[id]? = c.weights[id]?) (hg : c'.grads[id]? = c.grads[id]?) :
    c'.gradOrZeros id = c.gradOrZeros id := by
  rw [gradOrZeros, gradOrZeros, declaration, declaration, hdecl, hw, hg]

theorem gradOrZeros_of_grad {g : Tensor α} (h : c.grads[id]? = some g) :
    c.gradOrZeros id = .ok g := by
  simp only [gradOrZeros, h]

theorem gradOrZeros_deposit_of_ne {d : Deposit α} (h : d.1 ≠ b) :
    (c.deposit combine d).gradOrZeros b = c.gradOrZeros b :=
  gradOrZeros_congr (by rw [declared_deposit]) (by rw [weights_deposit]) (grads_deposit_of_ne h)

/-- What a deposit makes of the gradient of its value. -/
theorem grads_deposit_self {data : Vector α s.elemCount} (ws : List (Nat × α))
    (h : c.gradOrZeros id = .ok ⟨s, .float data⟩) :
    (c.deposit combine (id, ws)).grads[id]? = some ⟨s, .float (applyWrites combine ws data)⟩ := by
  rw [deposit_eq ws h]
  exact grads_setGrad_self

theorem HasGrad.deposit (h : c.HasGrad id s) (d : Deposit α) :
    (c.deposit combine d).HasGrad id s := by
  obtain ⟨data, hdata⟩ := h
  by_cases hd : d.1 = id
  · subst hd
    exact ⟨_, gradOrZeros_of_grad (grads_deposit_self d.2 hdata)⟩
  · exact ⟨data, (gradOrZeros_deposit_of_ne hd).trans hdata⟩

/-- In a context that fits, a value declared with scalars has such a gradient. -/
theorem Typed.hasGrad (hc : c.Typed) (hd : c.declared[id]? = some ⟨.float, s⟩) :
    c.HasGrad id s := by
  have hok : ∃ g, c.gradOrZeros id = .ok g := by
    rw [Context.gradOrZeros, Context.declaration, hd]
    split
    · exact ⟨_, rfl⟩
    · split <;> exact ⟨_, rfl⟩
  obtain ⟨g, hg⟩ := hok
  obtain ⟨data, rfl⟩ := Tensor.eq_float (hc.gradOrZeros hd hg)
  exact ⟨data, hg⟩

/-! ### Lists of deposits -/

/-- Make a list of deposits in order. -/
def deposits (combine : α → α → α) (c : Context α) (ds : List (Deposit α)) : Context α :=
  ds.foldl (deposit combine) c

@[simp] theorem deposits_nil : c.deposits combine [] = c := rfl

@[simp] theorem deposits_cons (d : Deposit α) (ds : List (Deposit α)) :
    c.deposits combine (d :: ds) = (c.deposit combine d).deposits combine ds := rfl

theorem deposits_append (ds es : List (Deposit α)) :
    c.deposits combine (ds ++ es) = (c.deposits combine ds).deposits combine es := by
  simp [deposits]

theorem grads_deposits_of_ne {ds : List (Deposit α)} (h : ∀ d ∈ ds, d.1 ≠ b) :
    (c.deposits combine ds).grads[b]? = c.grads[b]? := by
  induction ds generalizing c with
  | nil => rfl
  | cons d ds ih =>
      rw [deposits_cons, ih fun e he => h e (by simp [he]), grads_deposit_of_ne (h d (by simp))]

/-- The gradient of `dest` is at hand, and otherwise the context is `c₀` up to
the contents of gradients. -/
structure Serves (c₀ : Context α) (dest : ValueId) (out : View α) (c : Context α) : Prop where
  /-- The weights are those of `c₀`. -/
  weights : c.weights = c₀.weights
  /-- The gradient of the output is bound. -/
  grad : c.grads[dest]? = some out.tensor
  /-- All other gradients fit as they did. -/
  hasGrad : ∀ {id : ValueId} {s : Shape}, c₀.HasGrad id s → c.HasGrad id s

variable {out : View α}

theorem Serves.deposit (h : Serves c₀ dest out c) {d : Deposit α} (hd : d.1 ≠ dest) :
    Serves c₀ dest out (c.deposit combine d) where
  weights := by rw [weights_deposit, h.weights]
  grad := by rw [grads_deposit_of_ne hd, h.grad]
  hasGrad hid := (h.hasGrad hid).deposit d

theorem Serves.deposits (h : Serves c₀ dest out c) {ds : List (Deposit α)}
    (hds : ∀ d ∈ ds, d.1 ≠ dest) : Serves c₀ dest out (c.deposits combine ds) := by
  induction ds generalizing c with
  | nil => exact h
  | cons d ds ih =>
      exact ih (h.deposit (hds d (by simp))) fun e he => hds e (by simp [he])

theorem Serves.weight (h : Serves c₀ dest out c) {t : Tensor α}
    (ht : c₀.weights[id]? = some t) : c.weights[id]? = some t := by rw [h.weights, ht]

/-- On every context that serves, the call makes these deposits, none of them to
`dest`. -/
structure Deposits (c₀ : Context α) (dest : ValueId) (out : View α) (combine : α → α → α)
    (f : Run (Context α) Unit) (ds : List (Deposit α)) : Prop where
  /-- The gradient of the output stays. -/
  ne : ∀ d ∈ ds, d.1 ≠ dest
  /-- The call makes the deposits. -/
  run : ∀ c, Serves c₀ dest out c → f c = .ok () (c.deposits combine ds)

theorem Deposits.nil : Deposits c₀ dest out combine (pure ()) [] := ⟨by simp, fun _ _ => rfl⟩

theorem Deposits.bind {f g : Run (Context α) Unit} {ds es : List (Deposit α)}
    (hf : Deposits c₀ dest out combine f ds) (hg : Deposits c₀ dest out combine g es) :
    Deposits c₀ dest out combine (f >>= fun _ => g) (ds ++ es) where
  ne d hd := (List.mem_append.mp hd).elim (hf.ne d) (hg.ne d)
  run c hc := by
    rw [Run.bind_of_ok (hf.run c hc), hg.run _ (hc.deposits hf.ne), deposits_append]

/-- A loop makes the deposits of its visits. -/
theorem Deposits.forM {ι : Type} {xs : List ι} {visit : ι → Run (Context α) Unit}
    {ds : ι → List (Deposit α)}
    (h : ∀ x ∈ xs, Deposits c₀ dest out combine (visit x) (ds x)) :
    Deposits c₀ dest out combine (xs.forM visit) (xs.flatMap ds) := by
  induction xs with
  | nil => exact .nil
  | cons x xs ih =>
      rw [Run.forM_cons, List.flatMap_cons]
      exact (h x (by simp)).bind (ih fun y hy => h y (by simp [hy]))

/-- Updating a gradient by writes that are the same on every context that serves
is one deposit. -/
theorem deposits_updateGrad {f : Context α → Run (Tensor α) Unit}
    {g : (s : Shape) → Run (Vector α s.elemCount) Unit} {ws : List (Nat × α)}
    (hne : id ≠ dest) (hgrad : c₀.HasGrad id s)
    (hf : ∀ c, c.weights = c₀.weights → c.grads[dest]? = some out.tensor →
      f c = Tensor.onFloats g)
    (hg : Run.Performs combine (g s) ws) :
    Deposits c₀ dest out combine (updateGrad id f) [(id, ws)] where
  ne d hd := by
    obtain rfl := List.mem_singleton.mp hd
    exact hne
  run c hc := by
    refine updateGrad_deposit (hc.hasGrad hgrad) ?_ hg
    exact hf (c.withoutGrad id) hc.weights ((grads_withoutGrad_of_ne hne).trans hc.grad)

/-- Once its output has a gradient, the way back makes its deposits. -/
theorem Deposits.backward {f : Run (Context α) Unit} {ds : List (Deposit α)}
    (hout : c₀.gradOrZeros dest = .ok out.tensor) (hf : Deposits c₀ dest out combine f ds) :
    ((change fun c => c.ensureGrad dest) >>= fun _ => f) c₀
      = .ok () (c₀.deposits combine ((dest, []) :: ds)) := by
  have hset : c₀.deposit combine (dest, []) = c₀.setGrad dest out.tensor := deposit_eq [] hout
  have hensure : change (fun c => c.ensureGrad dest) c₀ = .ok () (c₀.setGrad dest out.tensor) := by
    apply change_of_ok
    rw [ensureGrad, hout]
    rfl
  have hserves : Serves c₀ dest out (c₀.setGrad dest out.tensor) := by
    refine ⟨rfl, grads_setGrad_self, fun hid => ?_⟩
    rw [← hset]
    exact hid.deposit _
  rw [Run.bind_of_ok hensure, hf.run _ hserves, deposits_cons, hset]

end Context

end TensorProgram
