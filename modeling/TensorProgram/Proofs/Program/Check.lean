/-
TensorProgram/Proofs/Program/Check.lean

What the static check establishes.  It walks the instructions with the list of
the activations allocated so far, and admits an instruction if it is well typed
and uses weights and allocated activations only (`Program.Admits`).  A program
that passes is admitted instruction by instruction
(`Program.checks_of_verify`).
-/
import TensorProgram.Proofs.Program.Typing

namespace TensorProgram.Program

variable {α : Type}

/-- The instruction is well typed; it begins or ends the life of an activation,
or it uses weights and allocated activations. -/
structure Admits (p : Program α) (allocated : List ValueId) (i : Instruction α) : Prop where
  /-- It is well typed. -/
  typed : i.Typed p.signature
  /-- What it uses is a weight or allocated. -/
  used : i.isLifecycle = false → ∀ id ∈ i.operands.map Prod.fst,
    ∃ v, p.values[id]? = some v ∧ (v.role = .activation → id ∈ allocated)
  /-- What begins or ends its life is an activation. -/
  lives : i.isLifecycle = true → ∀ id ∈ i.operands.map Prod.fst,
    ∃ v, p.values[id]? = some v ∧ v.role = .activation

/-- Every instruction is admitted where it stands. -/
inductive Checks (p : Program α) : List ValueId → List (Instruction α) → Prop
  /-- The end. -/
  | nil {allocated : List ValueId} : Checks p allocated []
  /-- An instruction and those after it. -/
  | cons {allocated : List ValueId} {i : Instruction α} {rest : List (Instruction α)}
      (head : p.Admits allocated i) (tail : Checks p (allocatedAfter allocated i) rest) :
      Checks p allocated (i :: rest)

variable {p : Program α} {allocated : List ValueId} {i : Instruction α} {k : Nat}

theorem value_eq_ok {id : ValueId} {v : Value α} (h : p.value id = .ok v) :
    p.values[id]? = some v := by
  rw [value] at h
  split at h
  · rename_i u hu
    rw [hu, Except.ok.inj h]
  · cases h

/-- Operands that pass the check are declared, and allocated where that is
needed. -/
theorem exists_value_of_verifyOperands (h : p.verifyOperands allocated k i = .ok ()) :
    ∀ id ∈ i.operands.map Prod.fst, ∃ v, p.values[id]? = some v ∧
      (i.isLifecycle = false → v.role = .activation → id ∈ allocated) := by
  intro id hid
  obtain ⟨o, ho, rfl⟩ := List.mem_map.mp hid
  obtain ⟨v, hv, hcheck⟩ := Except.bind_eq_ok.mp (Except.forM_eq_ok h o ho)
  refine ⟨v, value_eq_ok hv, fun hlife hrole => ?_⟩
  by_contra hfree
  rw [if_pos ⟨hrole, hlife, hfree⟩] at hcheck
  cases hcheck

theorem eq_ok_of_mapError {f : Error → Error} {x : Except Error Unit} (h : x.mapError f = .ok ()) :
    x = .ok () := by
  cases x with
  | error e => cases h
  | ok u => rfl

/-- An instruction that passes is admitted. -/
theorem admits_of_verify (hoperands : p.verifyOperands allocated k i = .ok ())
    (hdemands : p.verifyInstruction i = .ok ()) : p.Admits allocated i := by
  have hvalues := exists_value_of_verifyOperands hoperands
  refine ⟨typed_of_verifyInstruction hdemands, fun hlife id hid => ?_, fun hlife id hid => ?_⟩
  · obtain ⟨v, hv, hrole⟩ := hvalues id hid
    exact ⟨v, hv, hrole hlife⟩
  · cases i with
    | alloc dest =>
        obtain rfl : id = dest := by simpa [Instruction.operands] using hid
        exact exists_activation hdemands
    | dealloc src =>
        obtain rfl : id = src := by simpa [Instruction.operands] using hid
        exact exists_activation hdemands
    | _ => cases hlife

/-- **The static check walks the program.** -/
theorem checks_of_verifyFrom {is : List (Instruction α)}
    (h : p.verifyFrom allocated k is = .ok ()) : p.Checks allocated is := by
  induction is generalizing allocated k with
  | nil => exact .nil
  | cons i rest ih =>
      rw [verifyFrom] at h
      obtain ⟨_, hoperands, h⟩ := Except.bind_eq_ok.mp h
      obtain ⟨_, hdemands, h⟩ := Except.bind_eq_ok.mp h
      exact .cons (admits_of_verify hoperands (eq_ok_of_mapError hdemands)) (ih h)

/-- Every instruction of a program that passes meets its demands. -/
theorem verifyInstruction_of_verifyFrom {is : List (Instruction α)}
    (h : p.verifyFrom allocated k is = .ok ()) : ∀ i ∈ is, p.verifyInstruction i = .ok () := by
  induction is generalizing allocated k with
  | nil => simp
  | cons i rest ih =>
      rw [verifyFrom] at h
      obtain ⟨_, -, h⟩ := Except.bind_eq_ok.mp h
      obtain ⟨_, hdemands, h⟩ := Except.bind_eq_ok.mp h
      exact List.forall_mem_cons.mpr ⟨eq_ok_of_mapError hdemands, ih h⟩

theorem checks_of_verify (h : p.verify = .ok ()) : p.Checks [] p.instructions :=
  checks_of_verifyFrom h

theorem Checks.admits {is : List (Instruction α)} (h : p.Checks allocated is) :
    ∀ i ∈ is, ∃ earlier, p.Admits earlier i := by
  induction h with
  | nil => simp
  | cons head _ ih => exact List.forall_mem_cons.mpr ⟨⟨_, head⟩, ih⟩

end TensorProgram.Program
