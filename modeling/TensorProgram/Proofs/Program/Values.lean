/-
TensorProgram/Proofs/Program/Values.lean

The value table of a program.  Every value is named by its position
(`Program.placed_of_ofParts`), so its name determines what it declares
(`Program.signature`).  The footprint of a program collects those of its
instructions: what they write, bring to life and deposit into.
-/
import TensorProgram.Program.Basic
import TensorProgram.Proofs.Kernel.Footprint

namespace TensorProgram

variable {α : Type}

/-- The kind and shape that a value declares. -/
def Value.declaration (v : Value α) : Declaration := ⟨v.kind, v.shape⟩

namespace Program

/-- What a value of a program declares. -/
def signature (p : Program α) (id : ValueId) : Option Declaration :=
  p.values[id]?.map (·.declaration)

/-- The values that running a program forward writes or changes in place. -/
def written (p : Program α) : List ValueId := p.instructions.flatMap (·.written)

/-- The activations that a program brings to life. -/
def enlivened (p : Program α) : List ValueId := p.instructions.flatMap (·.enlivened)

/-- The values whose gradient running a program backward makes or changes. -/
def receivers (p : Program α) : List ValueId := p.instructions.flatMap (·.receivers)

/-- Every value is named by its position. -/
def Placed (p : Program α) : Prop := ∀ ⦃k : Nat⦄ ⦃v : Value α⦄, p.values[k]? = some v → v.id = k

/-- A program of parts is placed. -/
theorem placed_of_ofParts {values : List (Value α)} {instructions : List (Instruction α)}
    {p : Program α} (h : ofParts values instructions = .ok p) : p.Placed := by
  rw [ofParts] at h
  split at h
  · cases h
  · rename_i hnone
    obtain rfl := Except.ok.inj h
    intro k v hv
    have hmem : (v, k) ∈ values.zipIdx := List.mk_mem_zipIdx_iff_getElem?.mpr hv
    simpa using List.find?_eq_none.mp hnone (v, k) hmem

variable {p : Program α}

theorem Placed.getElem? (hp : p.Placed) {v : Value α} (hv : v ∈ p.values) :
    p.values[v.id]? = some v := by
  obtain ⟨k, hk⟩ := List.mem_iff_getElem?.mp hv
  rw [hp hk, hk]

/-- Values of one name are equal. -/
theorem Placed.eq_of_id (hp : p.Placed) {u v : Value α} (hu : u ∈ p.values) (hv : v ∈ p.values)
    (hid : u.id = v.id) : u = v := by
  have hsame : some u = some v := by rw [← hp.getElem? hu, hid, hp.getElem? hv]
  exact Option.some.inj hsame

theorem Placed.signature (hp : p.Placed) {v : Value α} (hv : v ∈ p.values) :
    p.signature v.id = some v.declaration := by
  rw [Program.signature, hp.getElem? hv]
  rfl

theorem mem_values_of_mem_trainable {v : Value α} (hv : v ∈ p.trainable) : v ∈ p.values :=
  (List.mem_filter.mp hv).1

theorem mem_weights {v : Value α} : v ∈ p.weights ↔ v ∈ p.values ∧ v.role = .weight := by
  simp [weights]

/-- An activation and a weight have different names. -/
theorem Placed.activation_ne (hp : p.Placed) {u v : Value α} (hu : u ∈ p.values)
    (hrole : u.role = .activation) (hv : v ∈ p.weights) : u.id ≠ v.id := by
  intro hid
  obtain ⟨hmem, hweight⟩ := mem_weights.mp hv
  obtain rfl := hp.eq_of_id hu hmem hid
  cases hrole.symm.trans hweight

theorem mem_weights_of_mem_trainable {v : Value α} (hv : v ∈ p.trainable) : v ∈ p.weights := by
  simp only [trainable, List.mem_filter, Bool.and_eq_true, beq_iff_eq] at hv
  exact mem_weights.mpr ⟨hv.1, hv.2.1⟩

end Program

end TensorProgram
