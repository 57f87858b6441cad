/-
TensorProgram/Context.lean

The bindings of a running program.  A context remembers the declared kind and
shape of values and binds up to two tensors to each: the weight, which is the
value itself, and its gradient.  All three are extensional maps, so two
contexts are equal as soon as they answer every look-up alike.

An output is written through `updateWeight`, `updateWeightPair` or
`updateGrad`.  These take the tensor out of the context for the duration of the
update and put it back afterwards, whether the update succeeds or fails.
While it is out, the update cannot see it: an instruction that reads the value
it writes fails with a missing tensor instead of reading half-written data.
-/
import TensorProgram.Tensor.Update
import Std.Data.ExtTreeMap

namespace TensorProgram

open Std (ExtTreeMap)

/-- The kind and shape a value is allocated with. -/
structure Declaration where
  /-- The kind of its elements. -/
  kind : ElemKind
  /-- Its extents. -/
  shape : Shape
deriving DecidableEq

/-- A tensor of this kind and shape can be allocated: it takes less than half of the
addresses, and so its elements can be counted in words. -/
def Declaration.Allocatable (α : Type) [Scalar α] (d : Declaration) : Prop :=
  2 * (d.shape.elemCount * Scalar.bytes (α := α) d.kind) < UInt64.size

instance (α : Type) [Scalar α] (d : Declaration) : Decidable (d.Allocatable α) :=
  inferInstanceAs (Decidable (_ < _))

/-- Declarations, weights and gradients of values. -/
@[ext] structure Context (α : Type) where
  /-- Declared kinds and shapes. -/
  declared : ExtTreeMap ValueId Declaration := ∅
  /-- Bound weights. -/
  weights : ExtTreeMap ValueId (Tensor α) := ∅
  /-- Bound gradients. -/
  grads : ExtTreeMap ValueId (Tensor α) := ∅

namespace Context

variable {α β : Type}

/-! ### Looking up -/

/-- The declared kind and shape of a value. -/
def declaration (ctx : Context α) (id : ValueId) : Except Error Declaration :=
  match ctx.declared[id]? with
  | some d => .ok d
  | none => .error (.undeclaredValue id)

/-- The weight of a value. -/
def weight (ctx : Context α) (id : ValueId) : Except Error (Tensor α) :=
  match ctx.weights[id]? with
  | some t => .ok t
  | none => .error (.missingTensor id .weight)

/-- The gradient of a value. -/
def grad (ctx : Context α) (id : ValueId) : Except Error (Tensor α) :=
  match ctx.grads[id]? with
  | some t => .ok t
  | none => .error (.missingTensor id .gradient)

/-- The elements of a weight of scalars. -/
def floats (ctx : Context α) (id : ValueId) : Except Error (View α) := do
  (← ctx.weight id).floats

/-- The elements of a weight of indices. -/
def indices (ctx : Context α) (id : ValueId) : Except Error (View Nat) := do
  (← ctx.weight id).indices

/-- The elements of a gradient of scalars. -/
def gradFloats (ctx : Context α) (id : ValueId) : Except Error (View α) := do
  (← ctx.grad id).floats

/-- The shape of a weight. -/
def shapeOf (ctx : Context α) (id : ValueId) : Except Error Shape := do
  return (← ctx.weight id).shape

/-- The values with a gradient, in ascending order. -/
def gradIds (ctx : Context α) : List ValueId := ctx.grads.keys

/-! ### Binding -/

/-- Bind the weight of a value, whatever is declared. -/
def setWeight (ctx : Context α) (id : ValueId) (t : Tensor α) : Context α :=
  { ctx with weights := ctx.weights.insert id t }

/-- Bind the gradient of a value. -/
def setGrad (ctx : Context α) (id : ValueId) (t : Tensor α) : Context α :=
  { ctx with grads := ctx.grads.insert id t }

/-- The context without the weight of a value. -/
def withoutWeight (ctx : Context α) (id : ValueId) : Context α :=
  { ctx with weights := ctx.weights.erase id }

/-- The context without the gradient of a value. -/
def withoutGrad (ctx : Context α) (id : ValueId) : Context α :=
  { ctx with grads := ctx.grads.erase id }

/-- Declare the kind and shape of a value. -/
def declare (ctx : Context α) (id : ValueId) (d : Declaration) : Context α :=
  { ctx with declared := ctx.declared.insert id d }

/-- Bind a weight.  A declared value only takes a tensor of its kind and shape. -/
def insert (ctx : Context α) (id : ValueId) (t : Tensor α) : Except Error (Context α) :=
  match ctx.declared[id]? with
  | none => .ok (ctx.setWeight id t)
  | some d =>
      if t.kind ≠ d.kind then .error (.kindMismatch d.kind t.kind)
      else if t.shape ≠ d.shape then .error (.shapeMismatch "bound tensor" d.shape t.shape)
      else .ok (ctx.setWeight id t)

/-- Unbind the weight and the gradient of a value. -/
def remove (ctx : Context α) (id : ValueId) : Context α :=
  (ctx.withoutWeight id).withoutGrad id

/-! ### What a binding answers -/

section Answers

variable (ctx : Context α) (id j : ValueId) (t : Tensor α)

/-- Contexts that answer every look-up alike are equal. -/
theorem ext_lookup {c d : Context α} (declared : ∀ j : ValueId, c.declared[j]? = d.declared[j]?)
    (weights : ∀ j : ValueId, c.weights[j]? = d.weights[j]?)
    (grads : ∀ j : ValueId, c.grads[j]? = d.grads[j]?) : c = d :=
  Context.ext (ExtTreeMap.ext_getElem? declared) (ExtTreeMap.ext_getElem? weights)
    (ExtTreeMap.ext_getElem? grads)

theorem weights_setWeight :
    (ctx.setWeight id t).weights[j]? = if id = j then some t else ctx.weights[j]? := by
  by_cases h : id = j <;> simp [setWeight, ExtTreeMap.getElem?_insert, h]

theorem weights_withoutWeight :
    (ctx.withoutWeight id).weights[j]? = if id = j then none else ctx.weights[j]? := by
  by_cases h : id = j <;> simp [withoutWeight, ExtTreeMap.getElem?_erase, h]

theorem grads_setGrad :
    (ctx.setGrad id t).grads[j]? = if id = j then some t else ctx.grads[j]? := by
  by_cases h : id = j <;> simp [setGrad, ExtTreeMap.getElem?_insert, h]

theorem grads_withoutGrad :
    (ctx.withoutGrad id).grads[j]? = if id = j then none else ctx.grads[j]? := by
  by_cases h : id = j <;> simp [withoutGrad, ExtTreeMap.getElem?_erase, h]

end Answers

section Allocation

variable [Scalar α]

/-- The weight that a declared value has after its allocation: the bound one if
it fits the declaration, and zeros otherwise. -/
def allocated (ctx : Context α) (id : ValueId) : Except Error (Tensor α) := do
  let d ← ctx.declaration id
  match ctx.weights[id]? with
  | some t => if t.kind = d.kind ∧ t.shape = d.shape then return t
              else return .zeros d.kind d.shape
  | none => return .zeros d.kind d.shape

/-- Bind the weight that a declared value has after its allocation. -/
def allocate (ctx : Context α) (id : ValueId) : Except Error (Context α) := do
  return ctx.setWeight id (← ctx.allocated id)

/-- The gradient of a value, or the zeros that a missing one starts from: like
the bound weight, or like the declaration if no weight is bound. -/
def gradOrZeros (ctx : Context α) (id : ValueId) : Except Error (Tensor α) :=
  match ctx.grads[id]? with
  | some g => .ok g
  | none =>
      match ctx.weights[id]? with
      | some t => .ok t.zerosLike
      | none => do
          let d ← ctx.declaration id
          return .zeros d.kind d.shape

/-- Bind a gradient to a value that has none. -/
def ensureGrad (ctx : Context α) (id : ValueId) : Except Error (Context α) := do
  return ctx.setGrad id (← ctx.gradOrZeros id)

end Allocation

/-! ### Calls on a context -/

/-- A change of the context that leaves it alone when it fails. -/
def change (f : Context α → Except Error (Context α)) : Run (Context α) Unit := fun ctx =>
  match f ctx with
  | .ok ctx' => .ok () ctx'
  | .error e => .error (.error e) ctx

/-- Bind a gradient to every one of these values that has none. -/
def ensureGrads [Scalar α] (ids : List ValueId) : Run (Context α) Unit :=
  ids.forM fun id => change (·.ensureGrad id)

/-- Write the weight of a value while reading the rest of the context. -/
def updateWeight (id : ValueId) (f : Context α → Run (Tensor α) β) :
    Run (Context α) β := fun ctx =>
  match ctx.weight id with
  | .error e => .error (.error e) ctx
  | .ok t =>
      match f (ctx.withoutWeight id) t with
      | .ok b t' => .ok b (ctx.setWeight id t')
      | .error e t' => .error e (ctx.setWeight id t')

/-- Write the weights of two distinct values together while reading the rest of
the context. -/
def updateWeightPair (a b : ValueId)
    (f : Context α → Run (Tensor α × Tensor α) β) : Run (Context α) β := fun ctx =>
  match ctx.weight a with
  | .error e => .error (.error e) ctx
  | .ok s =>
      match (ctx.withoutWeight a).weight b with
      | .error e => .error (.error e) ctx
      | .ok t =>
          match f ((ctx.withoutWeight a).withoutWeight b) (s, t) with
          | .ok r (s', t') => .ok r ((ctx.setWeight a s').setWeight b t')
          | .error e (s', t') => .error e ((ctx.setWeight a s').setWeight b t')

/-- Write the gradient of a value, from zeros if it has none, while reading the
rest of the context. -/
def updateGrad [Scalar α] (id : ValueId) (f : Context α → Run (Tensor α) β) :
    Run (Context α) β := fun ctx =>
  match ctx.gradOrZeros id with
  | .error e => .error (.error e) ctx
  | .ok g =>
      match f (ctx.withoutGrad id) g with
      | .ok b g' => .ok b (ctx.setGrad id g')
      | .error e g' => .error e (ctx.setGrad id g')

end Context

end TensorProgram
