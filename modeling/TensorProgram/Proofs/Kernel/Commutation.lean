/-
TensorProgram/Proofs/Kernel/Commutation.lean

Instructions that do not touch each other's operands may be exchanged.  A call
is confined to `A` and `W` if it looks only at values in `A`, `W` among them,
and changes only values in `W`.  Of two calls of which neither changes what the
other looks at, the order is immaterial (`Context.Confined.exchange`): each one
finds the same before and after the other.

Main statement: this is so of any two instructions forward if neither writes an
operand of the other, and backward if they have no operand in common
(`Instruction.independent_commute`).  Nothing is asked of the scalars, so the
two orders agree bit for bit.
-/
import TensorProgram.Proofs.Kernel.Frame
import TensorProgram.Proofs.Kernel.Parallel
import TensorProgram.Scalar.Binary32

namespace TensorProgram

variable {α : Type}

/-- The two calls, one after the other, both succeed and lead from one state to
the other. -/
def Run.InSequence {σ : Type} (f g : Run σ Unit) (s s' : σ) : Prop :=
  ∃ s₁, f s = .ok () s₁ ∧ g s₁ = .ok () s'

namespace Context

open Run (Carries Moves InSequence)

variable {A B W V : List ValueId} {f g : Run (Context α) Unit} {c c' : Context α}

/-- The call looks only at values in `A` and changes only values in `W`. -/
structure Confined (A W : List ValueId) (f : Run (Context α) Unit) : Prop where
  /-- What it changes it may look at. -/
  subset : W ⊆ A
  /-- On contexts that are similar there it does the same. -/
  looks : Carries (Similar A) (Similar A) f
  /-- It changes nothing else. -/
  moves : Moves (Evolves W W) f

theorem Confined.evolves (h : Confined A W f) (hf : f c = .ok () c') : Evolves W W c c' :=
  Run.after_of_ok hf ▸ h.moves c

theorem Confined.similar (h : Confined A W f) (hf : f c = .ok () c') (hW : ∀ id ∈ W, id ∉ B) :
    Similar B c c' :=
  (h.evolves hf).similar (fun id hid hmem => hW id hmem hid) fun id hid hmem => hW id hmem hid

/-- A call that changes nothing that another one looks at may be made after it
instead of before it. -/
theorem Confined.exchange (hf : Confined A W f) (hg : Confined B V g) (hW : ∀ id ∈ W, id ∉ B)
    (hV : ∀ id ∈ V, id ∉ A) (h : InSequence f g c c') : InSequence g f c c' := by
  obtain ⟨c₁, hfc, hgc⟩ := h
  obtain ⟨d₁, hgd, hd₁⟩ := hg.looks.ok (hf.similar hfc hW).symm hgc
  obtain ⟨d', hfd, hd'⟩ := hf.looks.ok (hg.similar hgd hV) hfc
  refine ⟨d₁, hgd, ?_⟩
  -- what is known of a value: in `W` only `f` changes it, in `V` only `g`, elsewhere neither
  have hsame (look : Context α → ValueId → Option (Tensor α))
      (hevolves : ∀ {U c c'}, Evolves U U c c' → ∀ id ∉ U, look c' id = look c id)
      (hsimilar : ∀ {S c d}, Similar S c d → ∀ id ∈ S, look d id = look c id) (id : ValueId) :
      look d' id = look c' id := by
    by_cases hid : id ∈ W
    · have hnot : id ∉ V := fun hmem => hW id hid (hg.subset hmem)
      rw [hsimilar hd' id (hf.subset hid), hevolves (hg.evolves hgc) id hnot]
    · rw [hevolves (hf.evolves hfd) id hid]
      by_cases hid' : id ∈ V
      · exact hsimilar hd₁ id (hg.subset hid')
      · rw [hevolves (hg.evolves hgd) id hid', hevolves (hg.evolves hgc) id hid',
          hevolves (hf.evolves hfc) id hid]
  have heq : d' = c' := by
    refine ext_lookup (fun id => ?_)
      (hsame (fun c id => c.weights[id]?) (fun h _ hid => h.weights hid) fun h => h.weights)
      (hsame (fun c id => c.grads[id]?) (fun h _ hid => h.grads hid) fun h => h.grads)
    rw [(hf.evolves hfd).declared, (hg.evolves hgd).declared, (hg.evolves hgc).declared,
      (hf.evolves hfc).declared]
  rw [hfd, heq]

/-- On contexts that are similar on the operands a way back does the same. -/
theorem InStep.looks [Scalar α] {combine : α → α → α} {dest : ValueId}
    (h : InStep combine A dest f) (hdest : dest ∈ A) : Carries (Similar A) (Similar A) f := by
  intro c d hcd
  have hgrad {id : ValueId} (hid : id ∈ A) : d.gradOrZeros id = c.gradOrZeros id :=
    gradOrZeros_congr (hcd.declared id hid) (hcd.weights id hid) (hcd.grads id hid)
  have h₀ : Comparable A dest c d :=
    ⟨hcd.weights, hgrad hdest, fun id hid => by rw [hgrad hid]⟩
  refine (h c d h₀ c d (.refl combine A c d)).mono (fun c' d' h' => ?_) fun _ _ h => h
  refine ⟨⟨fun id hid => ?_, fun id hid => ?_⟩, fun id hid => ?_⟩
  · rw [h'.left.weights, h'.right.weights, hcd.weights id hid]
  · cases h'.received id hid with
    | nothing left right => rw [left, right, hcd.grads id hid]
    | writes t u ws ht hu left right =>
        obtain rfl : u = t := Except.ok.inj (hu.symm.trans ((hgrad hid).trans ht))
        rw [left, right]
  · rw [h'.left.declared, h'.right.declared, hcd.declared id hid]

end Context

namespace Instruction

open Context (Confined)
open Run (InSequence)

/-- Neither instruction writes an operand of the other. -/
def Independent (a b : Instruction α) : Prop :=
  (∀ id ∈ a.written, id ∉ b.operands.map Prod.fst) ∧
    ∀ id ∈ b.written, id ∉ a.operands.map Prod.fst

/-- The instructions have no operand in common. -/
def Apart (a b : Instruction α) : Prop :=
  ∀ id ∈ a.operands.map Prod.fst, id ∉ b.operands.map Prod.fst

instance (a b : Instruction α) : Decidable (a.Independent b) :=
  inferInstanceAs (Decidable (_ ∧ _))

instance (a b : Instruction α) : Decidable (a.Apart b) :=
  inferInstanceAs (Decidable (∀ id ∈ a.operands.map Prod.fst, id ∉ b.operands.map Prod.fst))

theorem Independent.symm {a b : Instruction α} (h : a.Independent b) : b.Independent a :=
  ⟨h.2, h.1⟩

theorem Apart.symm {a b : Instruction α} (h : a.Apart b) : b.Apart a :=
  fun id hb ha => h id ha hb

theorem enlivened_subset (i : Instruction α) : i.enlivened ⊆ i.written := by
  cases i <;> simp [enlivened, written, operands]

variable [Scalar α]

theorem confined_forward (i : Instruction α) (train : Bool) :
    Confined (i.operands.map Prod.fst) i.written (i.forward train) where
  subset := i.written_subset
  looks := i.carries_forward train fun _ hid => hid
  moves c := (i.moves_forward train c).mono (fun _ hid => hid) i.enlivened_subset

theorem confined_backward (i : Instruction α) (config : Config α) :
    Confined (i.operands.map Prod.fst) i.receivers (i.backward config) where
  subset := i.receivers_subset
  looks := (i.inStep_backward config fun _ hid => hid).looks i.dest_mem
  moves c := (i.moves_backward config c).mono (by simp) fun _ hid => hid

theorem Independent.exchange {a b : Instruction α} (h : a.Independent b) {train : Bool}
    {c c' : Context α} (hrun : InSequence (a.forward train) (b.forward train) c c') :
    InSequence (b.forward train) (a.forward train) c c' :=
  (a.confined_forward train).exchange (b.confined_forward train) h.1 h.2 hrun

theorem Apart.exchange {a b : Instruction α} (h : a.Apart b) {config : Config α}
    {c c' : Context α} (hrun : InSequence (a.backward config) (b.backward config) c c') :
    InSequence (b.backward config) (a.backward config) c c' :=
  (a.confined_backward config).exchange (b.confined_backward config)
    (fun id hid => h id (a.receivers_subset hid))
    (fun id hid => h.symm id (b.receivers_subset hid)) hrun

/-- **Independent instructions commute.**  Forward, if neither writes an operand
of the other, and backward, if they have no operand in common, both succeed in
one order exactly if both succeed in the other order, and then they end in the
same context. -/
theorem independent_commute (a b : Instruction α) (train : Bool) (config : Config α)
    (c c' : Context α) :
    (a.Independent b → (InSequence (a.forward train) (b.forward train) c c' ↔
      InSequence (b.forward train) (a.forward train) c c')) ∧
    (a.Apart b → (InSequence (a.backward config) (b.backward config) c c' ↔
      InSequence (b.backward config) (a.backward config) c c')) :=
  ⟨fun h => ⟨h.exchange, h.symm.exchange⟩, fun h => ⟨h.exchange, h.symm.exchange⟩⟩

/-- A vector and its positive part. -/
def positivePart : Instruction Float32 := .activation .relu ⟨1, 0⟩

/-- Another vector and its square. -/
def square : Instruction Float32 := .arithmetic ⟨.mul, 3, 2, 2⟩

/-- Four vectors of ones. -/
def fourVectors : Context Float32 :=
  [0, 1, 2, 3].foldl (fun c id => c.setWeight id (.full 1 ⟨[2]⟩)) {}

theorem independent_commute_square : positivePart.Independent square ∧ positivePart.Apart square ∧
    (∃ c', InSequence (positivePart.forward true) (square.forward true) fourVectors c' ∧
      InSequence (square.forward true) (positivePart.forward true) fourVectors c') ∧
    ∃ c', InSequence (positivePart.backward .default) (square.backward .default) fourVectors c' ∧
      InSequence (square.backward .default) (positivePart.backward .default) fourVectors c' := by
  have hindependent : positivePart.Independent square := by decide
  have hapart : positivePart.Apart square := by decide
  have hforward : ∃ c', InSequence (positivePart.forward true) (square.forward true) fourVectors c' :=
    ⟨_, _, rfl, rfl⟩
  have hbackward : ∃ c',
      InSequence (positivePart.backward .default) (square.backward .default) fourVectors c' :=
    ⟨_, _, rfl, rfl⟩
  obtain ⟨c₁, h₁⟩ := hforward
  obtain ⟨c₂, h₂⟩ := hbackward
  refine ⟨hindependent, hapart, ⟨c₁, h₁, ?_⟩, c₂, h₂, ?_⟩
  · exact ((independent_commute positivePart square true .default fourVectors c₁).1 hindependent).mp h₁
  · exact ((independent_commute positivePart square true .default fourVectors c₂).2 hapart).mp h₂

end Instruction

end TensorProgram
