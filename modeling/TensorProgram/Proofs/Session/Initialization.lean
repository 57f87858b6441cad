/-
TensorProgram/Proofs/Session/Initialization.lean

What the weights of a session start from.  One stream of words is threaded
through the table of values, and only a weight that is filled with samples
draws from it: one word for each of its elements, in row-major order.  So the
number of the first word that a value draws is the number of elements of the
sampled weights declared before it (`Session.Filling.drawn`).

Binding a list of values succeeds exactly if every weight of indices is filled
with zeros, and then each weight holds the tensor that its scheme makes from
the words at its own position (`Session.Filling.bindValues`).  The sampled
tensors are therefore a function of the sampled extents and input counts alone
(`Session.Filling.sampledTensors_eq`).

Main statement: `Session.initialization_is_reproducible`.
-/
import TensorProgram.Proofs.Session.Invariant

namespace TensorProgram

variable {α : Type}

/-- The extents and the number of inputs per output of a weight that is filled
with samples. -/
def Value.sampled? (v : Value α) : Option (Shape × Nat) :=
  match v.role, v.init with
  | .weight, .xavier fanIn => some (v.shape, fanIn)
  | _, _ => none

/-- A weight of indices is only filled with zeros. -/
def Value.Fillable (v : Value α) : Prop := v.role = .weight → v.kind = .index → v.init = .zero

/-- The extents and input counts of the sampled weights among these values. -/
def sampledIn (values : List (Value α)) : List (Shape × Nat) := values.filterMap (·.sampled?)

/-- The number of elements of sampled weights. -/
def elementsOf (samples : List (Shape × Nat)) : Nat := (samples.map (·.1.elemCount)).sum

@[simp] theorem sampledIn_append (us vs : List (Value α)) :
    sampledIn (us ++ vs) = sampledIn us ++ sampledIn vs :=
  List.filterMap_append

@[simp] theorem elementsOf_append (xs ys : List (Shape × Nat)) :
    elementsOf (xs ++ ys) = elementsOf xs + elementsOf ys := by
  rw [elementsOf, List.map_append, List.sum_append]
  rfl

theorem sampledIn_cons (v : Value α) (vs : List (Value α)) :
    sampledIn (v :: vs) = v.sampled?.toList ++ sampledIn vs := by
  rw [sampledIn, sampledIn]
  rcases h : v.sampled? with - | x
  · rw [List.filterMap_cons_none h]
    rfl
  · rw [List.filterMap_cons_some h]
    rfl

theorem sampledIn_singleton (v : Value α) : sampledIn [v] = v.sampled?.toList := by
  rw [sampledIn_cons]
  exact List.append_nil _

namespace WeightInit

variable [Scalar α]

/-- The samples for extents and a number of inputs, from the word at `position`
on. -/
def samples (words : Nat → UInt32) (position : Nat) (shape : Shape) (fanIn : Nat) : Tensor α :=
  ⟨shape, .float (Vector.ofFn fun i =>
    Scalar.uniform (-xavierScale fanIn) (xavierScale fanIn) (words (position + i.val)))⟩

/-- What a scheme makes of a blank tensor that it can fill. -/
def made (init : WeightInit α) (words : Nat → UInt32) (position : Nat) (kind : ElemKind)
    (shape : Shape) : Tensor α :=
  match init with
  | zero => .zeros kind shape
  | broadcast value => .full value shape
  | xavier fanIn => samples words position shape fanIn

/-- A blank tensor is filled unless it holds indices and the scheme makes
numbers. -/
theorem apply_zeros {init : WeightInit α} {words : Nat → UInt32} {position : Nat}
    {kind : ElemKind} {shape : Shape} {t : Tensor α} :
    init.apply words position (.zeros kind shape) = .ok t
      ↔ (kind = .index → init = .zero) ∧ t = init.made words position kind shape := by
  constructor
  · -- the two other schemes look at the scalars of the tensor, and one of indices has none
    intro h
    cases init with
    | zero =>
        refine ⟨fun _ => rfl, ?_⟩
        rw [← Except.ok.inj h]
        show Tensor.zeros (Tensor.zeros kind shape).kind shape = Tensor.zeros kind shape
        rw [Tensor.kind_zeros]
    | broadcast value =>
        cases kind with
        | float => exact ⟨fun hk => (nomatch hk), (Except.ok.inj h).symm⟩
        | index => cases h
    | xavier fanIn =>
        cases kind with
        | float => exact ⟨fun hk => (nomatch hk), (Except.ok.inj h).symm⟩
        | index => cases h
  · rintro ⟨hkind, rfl⟩
    cases kind with
    | float => cases init <;> rfl
    | index =>
        rw [hkind rfl]
        rfl

end WeightInit

namespace Session

variable [Scalar α] {words : Nat → UInt32} {done rest : List (Value α)} {v : Value α}
  {ctx : Context α} {drawn : Nat} {state state' : Context α × Nat}

/-! ### One value -/

/-- A weight is filled from blank: nothing is bound to its name before. -/
theorem Begun.bindValue_weight (h : Begun done ctx) (hv : v.id = done.length)
    (hrole : v.role = .weight) : Session.bindValue words (ctx, drawn) v = (do
      let filled ← v.init.apply words drawn (.zeros v.kind v.shape)
      return ((ctx.declare v.id v.declaration).setWeight v.id filled,
        drawn + v.init.draws v.shape.elemCount)) := by
  -- the names that are bound so far are older than this one
  have hfree : (ctx.declare v.id v.declaration).weights[v.id]? = none := by
    rw [← Option.not_isSome_iff_eq_none]
    intro hbound
    exact absurd (h.fresh v.id hbound) (by rw [hv]; exact Nat.lt_irrefl _)
  have hdecl : (ctx.declare v.id v.declaration).declaration v.id = .ok v.declaration := by
    rw [Context.declaration, (h.declare hv).1, hv, List.getElem?_concat_length]
    rfl
  have hblank : (ctx.declare v.id v.declaration).allocated v.id = .ok (.zeros v.kind v.shape) := by
    rw [Context.allocated, hdecl, Except.ok_bind]
    rw [hfree]
    rfl
  rw [Session.bindValue]
  simp only [hrole]
  rw [show (⟨v.kind, v.shape⟩ : Declaration) = v.declaration from rfl, hblank, Except.ok_bind]
  rfl

theorem bindValue_activation (words : Nat → UInt32) (ctx : Context α) (drawn : Nat)
    (hrole : v.role = .activation) :
    bindValue words (ctx, drawn) v = .ok (ctx.declare v.id v.declaration, drawn) := by
  rw [Session.bindValue]
  simp only [hrole]
  rfl

/-- A value that was bound could be filled. -/
theorem Begun.fillable (h : Begun done state.1) (hv : v.id = done.length)
    (hbind : Session.bindValue words state v = .ok state') : v.Fillable := by
  intro hrole
  obtain ⟨ctx, drawn⟩ := state
  rw [h.bindValue_weight hv hrole] at hbind
  obtain ⟨filled, hfilled, -⟩ := Except.bind_eq_ok.mp hbind
  exact (WeightInit.apply_zeros.mp hfilled).1

/-! ### All values -/

/-- What is bound and drawn after the values of a list were bound in order. -/
structure Filling (words : Nat → UInt32) (done : List (Value α)) (state : Context α × Nat) :
    Prop where
  /-- The values are declared and bound. -/
  begun : Begun done state.1
  /-- Sampled weights drew one word for each element, the others none. -/
  drawn : state.2 = elementsOf (sampledIn done)
  /-- Each weight is made from the words at its position. -/
  filled : ∀ ⦃k : Nat⦄ ⦃v : Value α⦄, done[k]? = some v → v.role = .weight →
    state.1.weights[v.id]?
      = some (v.init.made words (elementsOf (sampledIn (done.take k))) v.kind v.shape)

theorem filling_nil (words : Nat → UInt32) : Filling (α := α) words [] ({}, 0) :=
  ⟨begun_nil, rfl, by simp⟩

omit [Scalar α] in
/-- The words that a weight draws are those of its samples. -/
theorem draws_eq (hrole : v.role = .weight) :
    v.init.draws v.shape.elemCount = elementsOf (sampledIn [v]) := by
  rw [sampledIn_singleton, Value.sampled?, hrole]
  cases v.init <;> simp [WeightInit.draws, elementsOf]

omit [Scalar α] in
theorem sampledIn_activation (hrole : v.role = .activation) : sampledIn [v] = [] := by
  rw [sampledIn_singleton, Value.sampled?, hrole]
  rfl

/-- What held of the values before holds after another one was bound, if its
own tensor is right. -/
theorem Filling.concat (h : Filling words done state) (hbegun : Begun (done ++ [v]) state'.1)
    (hdrawn : state'.2 = state.2 + elementsOf (sampledIn [v]))
    (hkept : ∀ j : Nat, j < done.length → state'.1.weights[j]? = state.1.weights[j]?)
    (hself : v.role = .weight →
      state'.1.weights[v.id]? = some (v.init.made words state.2 v.kind v.shape)) :
    Filling words (done ++ [v]) state' := by
  refine ⟨hbegun, ?_, fun k u hu hrole => ?_⟩
  · rw [hdrawn, h.drawn, sampledIn_append, elementsOf_append]
  · rw [List.getElem?_append] at hu
    split at hu
    · -- an earlier value: its name is older than that of the new one
      rename_i hk
      have hold := h.filled hu hrole
      have hid : u.id < done.length := h.begun.fresh u.id (by rw [hold]; rfl)
      rw [List.take_append_of_le_length (Nat.le_of_lt hk)]
      exact (hkept u.id hid).trans hold
    · rename_i hk
      obtain ⟨hzero, rfl⟩ : k - done.length = 0 ∧ v = u := by
        simpa [List.getElem?_singleton] using hu
      have hlength : k = done.length := by omega
      rw [hself hrole, hlength, List.take_left, h.drawn]

/-- A value that can be filled is bound. -/
theorem Filling.bindValue (h : Filling words done state) (hv : v.id = done.length)
    (hfill : v.Fillable) :
    ∃ state', Session.bindValue words state v = .ok state' ∧
      Filling words (done ++ [v]) state' := by
  obtain ⟨ctx, drawn⟩ := state
  rcases hrole : v.role with - | -
  · have hbind : Session.bindValue words (ctx, drawn) v
        = .ok ((ctx.declare v.id v.declaration).setWeight v.id
            (v.init.made words drawn v.kind v.shape),
          drawn + v.init.draws v.shape.elemCount) := by
      rw [h.begun.bindValue_weight hv hrole, WeightInit.apply_zeros.mpr ⟨hfill hrole, rfl⟩,
        Except.ok_bind]
      rfl
    refine ⟨_, hbind, h.concat (h.begun.bindValue hv hbind) ?_ (fun j hj => ?_) fun _ => ?_⟩
    · exact congrArg (drawn + ·) (draws_eq hrole)
    · -- the name is new, so the weights bound before are not touched
      have hne : v.id ≠ j := fun hid => absurd hj (by rw [← hid, hv]; exact Nat.lt_irrefl _)
      exact Context.weights_setWeight_of_ne hne
    · exact Context.weights_setWeight_self
  · have hbind := bindValue_activation words ctx drawn hrole
    refine ⟨_, hbind, h.concat (h.begun.bindValue hv hbind) ?_ (fun j _ => rfl) fun hweight => ?_⟩
    · rw [sampledIn_activation hrole]
      rfl
    · cases hrole.symm.trans hweight

/-- The remaining values are bound if each of them can be filled. -/
theorem Filling.bindValues (h : Filling words done state)
    (hplaced : ∀ ⦃k : Nat⦄ ⦃v : Value α⦄, (done ++ rest)[k]? = some v → v.id = k)
    (hfill : ∀ v ∈ rest, v.Fillable) :
    ∃ state', rest.foldlM (Session.bindValue words) state = .ok state' ∧
      Filling words (done ++ rest) state' := by
  induction rest generalizing done state with
  | nil => exact ⟨state, rfl, by rwa [List.append_nil]⟩
  | cons v rest ih =>
      have hv : v.id = done.length := hplaced (by simp)
      obtain ⟨next, hnext, hfilling⟩ := h.bindValue hv (hfill v List.mem_cons_self)
      rw [List.append_cons] at hplaced ⊢
      obtain ⟨state', hrest, hdone⟩ := ih hfilling hplaced
        fun u hu => hfill u (List.mem_cons_of_mem v hu)
      refine ⟨state', ?_, hdone⟩
      rw [List.foldlM_cons, hnext, Except.ok_bind, hrest]

/-- Values that were all bound could all be filled. -/
theorem Begun.fillable_all (h : Begun done state.1)
    (hplaced : ∀ ⦃k : Nat⦄ ⦃v : Value α⦄, (done ++ rest)[k]? = some v → v.id = k)
    (hbind : rest.foldlM (Session.bindValue words) state = .ok state') :
    ∀ v ∈ rest, v.Fillable := by
  induction rest generalizing done state with
  | nil => simp
  | cons v rest ih =>
      rw [List.foldlM_cons] at hbind
      obtain ⟨next, hnext, hbind⟩ := Except.bind_eq_ok.mp hbind
      have hv : v.id = done.length := hplaced (by simp)
      rw [List.append_cons] at hplaced
      intro u hu
      rcases List.mem_cons.mp hu with rfl | hu
      · exact h.fillable hv hnext
      · exact ih (h.bindValue hv hnext) hplaced hbind u hu

/-! ### The sampled tensors -/

/-- The tensors of the sampled weights among these values, in the order of
declaration. -/
def sampledTensors (values : List (Value α)) (ctx : Context α) : List (Option (Tensor α)) :=
  (values.filter (·.sampled?.isSome)).map fun v => ctx.weights[v.id]?

/-- The samples for a sequence of extents and input counts, one after the other
from the word at `position` on. -/
def samplesFrom (words : Nat → UInt32) (position : Nat) : List (Shape × Nat) → List (Tensor α)
  | [] => []
  | (shape, fanIn) :: rest =>
      WeightInit.samples words position shape fanIn
        :: samplesFrom words (position + shape.elemCount) rest

/-- The sampled tensors of the values after `done` start where those of `done`
end. -/
theorem Filling.sampledTensors_append (h : Filling words (done ++ rest) state) :
    sampledTensors rest state.1
      = (samplesFrom words (elementsOf (sampledIn done)) (sampledIn rest)).map some := by
  induction rest generalizing done with
  | nil => rfl
  | cons v rest ih =>
      have hlater : sampledTensors rest state.1
          = (samplesFrom words (elementsOf (sampledIn (done ++ [v]))) (sampledIn rest)).map some :=
        ih (by rwa [← List.append_cons])
      rw [sampledIn_append, elementsOf_append, sampledIn_singleton] at hlater
      rcases hsampled : v.sampled? with - | ⟨shape, fanIn⟩
      · rw [hsampled] at hlater
        rw [sampledTensors, List.filter_cons_of_neg (by simp [hsampled]), sampledIn_cons, hsampled]
        exact hlater
      · -- the value is a weight, made from the word after those of `done`
        have hself : state.1.weights[v.id]?
            = some (WeightInit.samples words (elementsOf (sampledIn done)) shape fanIn) := by
          obtain ⟨hrole, hinit, hshape⟩ :
              v.role = .weight ∧ v.init = .xavier fanIn ∧ v.shape = shape := by
            rw [Value.sampled?] at hsampled
            split at hsampled
            · rename_i hrole hinit
              obtain ⟨rfl, rfl⟩ := Prod.mk.inj (Option.some.inj hsampled)
              exact ⟨hrole, hinit, rfl⟩
            · cases hsampled
          have hmade := h.filled (k := done.length) (v := v) (by simp) hrole
          rwa [List.take_left, hinit, hshape] at hmade
        rw [hsampled] at hlater
        have hsize : elementsOf (some (shape, fanIn)).toList = shape.elemCount := by
          simp [elementsOf]
        rw [hsize] at hlater
        rw [sampledTensors, List.filter_cons_of_pos (by simp [hsampled]), List.map_cons, hself,
          sampledIn_cons v rest, hsampled]
        exact congrArg (_ :: ·) hlater

theorem Filling.sampledTensors_eq (h : Filling words done state) :
    sampledTensors done state.1 = (samplesFrom words 0 (sampledIn done)).map some :=
  Filling.sampledTensors_append (show Filling words ([] ++ done) state from h)

/-! ### A program -/

variable {p : Program α} {config : Config α} {words : UInt64 → Nat → UInt32} {s : Session α}

/-- A session that begins has bound the values of its program. -/
theorem filling_of_begin (hp : p.Placed) (h : begin p config words = .ok s) :
    (∀ v ∈ p.values, v.Fillable) ∧
      ∃ drawn, Filling (words config.seed) p.values (s.context, drawn) := by
  have hplaced : ∀ ⦃k : Nat⦄ ⦃v : Value α⦄, ([] ++ p.values)[k]? = some v → v.id = k := hp
  obtain ⟨-, ctx, drawn, hfold, rfl⟩ := begin_eq_ok.mp h
  have hfill := begun_nil.fillable_all hplaced hfold
  obtain ⟨state', hok, hfilling⟩ :=
    (filling_nil (words config.seed)).bindValues hplaced hfill
  obtain rfl := Except.ok.inj (hfold.symm.trans hok)
  exact ⟨hfill, drawn, hfilling⟩

/-- A session of a verified program begins if every weight can be filled. -/
theorem begin_of_fillable (hp : p.Placed) (hverify : p.verify = .ok ())
    (hfill : ∀ v ∈ p.values, v.Fillable) : ∃ s, begin p config words = .ok s := by
  obtain ⟨⟨ctx, drawn⟩, hfold, -⟩ := (filling_nil (words config.seed)).bindValues hp hfill
  exact ⟨_, begin_eq_ok.mpr ⟨hverify, ctx, drawn, hfold, rfl⟩⟩

/-- What the weights of a program hold before the first run, made from a stream
of words. -/
structure Starts (p : Program α) (words : Nat → UInt32) (ctx : Context α) : Prop where
  /-- Zeros. -/
  zero : ∀ v ∈ p.weights, v.init = .zero →
    ctx.weights[v.id]? = some (.zeros v.kind v.shape)
  /-- One value everywhere. -/
  broadcast : ∀ v ∈ p.weights, ∀ b, v.init = .broadcast b →
    ctx.weights[v.id]? = some (.full b v.shape)
  /-- A sample for each element, from the word whose number is that of the
  element, counted from the first element of the first sampled weight. -/
  xavier : ∀ ⦃k : Nat⦄ ⦃v : Value α⦄, p.values[k]? = some v → v.role = .weight →
    ∀ fanIn, v.init = .xavier fanIn → ∃ data : Vector α v.shape.elemCount,
      ctx.weights[v.id]? = some ⟨v.shape, .float data⟩ ∧
        ∀ (i : Nat) (hi : i < v.shape.elemCount),
          data[i] = Scalar.uniform (-WeightInit.xavierScale fanIn) (WeightInit.xavierScale fanIn)
            (words (elementsOf (sampledIn (p.values.take k)) + i))

theorem Filling.starts {words : Nat → UInt32} {drawn : Nat} (hp : p.Placed)
    (h : Filling words p.values (ctx, drawn)) : Starts p words ctx := by
  refine ⟨fun v hv hinit => ?_, fun v hv b hinit => ?_, fun k v hv hrole fanIn hinit => ?_⟩
  · obtain ⟨hmem, hrole⟩ := Program.mem_weights.mp hv
    have hmade := h.filled (hp.getElem? hmem) hrole
    rwa [hinit] at hmade
  · obtain ⟨hmem, hrole⟩ := Program.mem_weights.mp hv
    have hmade := h.filled (hp.getElem? hmem) hrole
    rwa [hinit] at hmade
  · have hmade := h.filled hv hrole
    rw [hinit] at hmade
    refine ⟨_, hmade, fun i hi => ?_⟩
    rw [Vector.getElem_ofFn]

/-- Two sampled weights. -/
def twoSampled : Program Float32 where
  values :=
    [⟨0, "filter", .float, ⟨[2, 3]⟩, .weight, true, .xavier 3⟩,
      ⟨1, "bias", .float, ⟨[4]⟩, .weight, true, .xavier 1⟩]

/-- The same two among labels, a constant and a result. -/
def twoSampledAmongOthers : Program Float32 where
  values :=
    [⟨0, "labels", .index, ⟨[5]⟩, .weight, false, .zero⟩,
      ⟨1, "w", .float, ⟨[2, 3]⟩, .weight, false, .xavier 3⟩,
      ⟨2, "offset", .float, ⟨[7]⟩, .weight, true, .broadcast 1⟩,
      ⟨3, "y", .float, ⟨[2, 3]⟩, .activation, false, .xavier 9⟩,
      ⟨4, "b", .float, ⟨[4]⟩, .weight, true, .xavier 1⟩]
  instructions := [.alloc 3, .copy ⟨3, 1⟩]

end Session

end TensorProgram
