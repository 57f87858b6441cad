/-
TensorProgram/Proofs/Session/Invariant.lean

What holds of a session at any time.  A session begins with every value
declared, every weight bound to a tensor that fits, no gradient and no momentum
buffer (`Session.invariant_begin`), and every call keeps this, whether it
succeeds or fails (`Session.Invariant.after`).  So it holds after any sequence
of calls, for every program and without a demand on which operands coincide.
-/
import TensorProgram.Proofs.Session.Evolution
import TensorProgram.Scalar.Binary32

namespace TensorProgram

variable {α : Type}

open Context (Evolves)

/-- A tensor is a buffer of the declared kind with one element for every
coordinate of the declared shape, in row-major order. -/
def Value.Holds (v : Value α) (t : Tensor α) : Prop :=
  match v.kind with
  | .float => ∃ data : Vector α v.shape.elemCount, t = ⟨v.shape, .float data⟩
  | .index => ∃ data : Vector Nat v.shape.elemCount, t = ⟨v.shape, .index data⟩

theorem Value.holds_of_declaration {v : Value α} {t : Tensor α}
    (h : t.declaration = v.declaration) : v.Holds t := by
  obtain ⟨id, name, kind, shape, role, trainable, init⟩ := v
  cases kind with
  | float => exact Tensor.eq_float h
  | index => exact Tensor.eq_index h

namespace Session

/-! ### Beginning -/

/-- What is bound after the values of a list were bound in order. -/
structure Begun (done : List (Value α)) (ctx : Context α) : Prop where
  /-- The values are declared by position. -/
  declared : ∀ id : Nat, ctx.declared[id]? = done[id]?.map (·.declaration)
  /-- Bindings fit. -/
  typed : ctx.Typed
  /-- The weights among the values are bound. -/
  bound : ∀ v ∈ done, v.role = .weight → (ctx.weights[v.id]?).isSome
  /-- Nothing else is bound. -/
  fresh : ∀ id : Nat, (ctx.weights[id]?).isSome → id < done.length
  /-- No gradient is bound. -/
  grads : ∀ id : Nat, ctx.grads[id]? = none

theorem begun_nil : Begun (α := α) [] {} := by
  refine ⟨by simp, ⟨?_, ?_⟩, by simp, by simp, by simp⟩
  · intro id d t hd
    simp at hd
  · intro id d t hd
    simp at hd

/-- Declaring the next value. -/
theorem Begun.declare {done : List (Value α)} {ctx : Context α} (h : Begun done ctx)
    {v : Value α} (hv : v.id = done.length) :
    let ctx' := ctx.declare v.id v.declaration
    (∀ id : Nat, ctx'.declared[id]? = (done ++ [v])[id]?.map (·.declaration)) ∧ ctx'.Typed := by
  have hdecl (id : Nat) : (ctx.declare v.id v.declaration).declared[id]?
      = (done ++ [v])[id]?.map (·.declaration) := by
    rw [Context.declare, Std.ExtTreeMap.getElem?_insert]
    by_cases hid : v.id = id
    · rw [if_pos (by simpa using hid), ← hid, hv, List.getElem?_concat_length]
      rfl
    · have hne : id ≠ done.length := fun h' => hid (hv.trans h'.symm)
      rw [if_neg (by simpa using hid), h.declared id, List.getElem?_append]
      by_cases hlt : id < done.length
      · rw [if_pos hlt]
      · have hne : id - done.length ≠ 0 := by omega
        rw [if_neg hlt, List.getElem?_eq_none (by omega), List.getElem?_singleton, if_neg hne]
  refine ⟨hdecl, fun {id d t} hd ht => ?_, fun {id d t} _ ht => ?_⟩
  · -- a bound value was declared before
    have hlt : id < done.length := h.fresh id (by rw [show ctx.weights[id]? = some t from ht]; rfl)
    rw [hdecl, List.getElem?_append_left hlt, ← h.declared] at hd
    exact h.typed.weight hd ht
  · rw [show (ctx.declare v.id v.declaration).grads[id]? = none from h.grads id] at ht
    cases ht

variable [Scalar α]

/-- A filled tensor has the kind and shape of the blank one. -/
theorem declaration_apply {init : WeightInit α} {words : Nat → UInt32} {position : Nat}
    {t t' : Tensor α} (h : init.apply words position t = .ok t') :
    t'.declaration = t.declaration := by
  cases init with
  | zero =>
      obtain rfl := Except.ok.inj h
      exact Tensor.declaration_zerosLike t
  | broadcast value =>
      obtain ⟨view, hview, h⟩ := Except.bind_eq_ok.mp h
      obtain rfl := Except.ok.inj h
      obtain ⟨s, data | data⟩ := t
      · rfl
      · cases hview
  | xavier fanIn =>
      obtain ⟨view, hview, h⟩ := Except.bind_eq_ok.mp h
      obtain rfl := Except.ok.inj h
      obtain ⟨s, data | data⟩ := t
      · rfl
      · cases hview

/-- Binding the next value. -/
theorem Begun.bindValue {words : Nat → UInt32} {done : List (Value α)} {v : Value α}
    {state state' : Context α × Nat} (h : Begun done state.1) (hv : v.id = done.length)
    (hbind : bindValue words state v = .ok state') : Begun (done ++ [v]) state'.1 := by
  obtain ⟨hdecl, htyped⟩ := h.declare hv
  obtain ⟨ctx, drawn⟩ := state
  rw [Session.bindValue] at hbind
  have hbefore (u : Value α) (hu : u ∈ done) (hr : u.role = .weight) :
      (ctx.weights[u.id]?).isSome := h.bound u hu hr
  rcases hrole : v.role with - | -
  · -- a weight is allocated and filled
    simp only [hrole] at hbind
    obtain ⟨blank, hblank, hbind⟩ := Except.bind_eq_ok.mp hbind
    obtain ⟨filled, hfilled, hbind⟩ := Except.bind_eq_ok.mp hbind
    obtain rfl := Except.ok.inj hbind
    have hset : Evolves [v.id] [] (ctx.declare v.id v.declaration)
        ((ctx.declare v.id v.declaration).setWeight v.id filled) := by
      refine Context.evolves_setWeight (by simp) fun _ d hd => ?_
      rw [declaration_apply hfilled]
      exact Option.some.inj ((Context.declaration_allocated hblank).symm.trans hd)
    refine ⟨hdecl, hset.typed htyped, fun u hu hr => ?_, fun id hid => ?_, h.grads⟩
    · rcases List.mem_append.mp hu with hu | hu
      · exact hset.weightBound (hbefore u hu hr)
      · obtain rfl := List.mem_singleton.mp hu
        rw [Context.weights_setWeight_self]
        rfl
    · rw [List.length_append, List.length_singleton]
      by_cases hne : id ∈ [v.id]
      · have hid' : id = done.length := (List.mem_singleton.mp hne).trans hv
        omega
      · have hold : (ctx.weights[id]?).isSome := by
          rw [show ctx.weights[id]? = _ from (hset.weights hne).symm]
          exact hid
        exact Nat.lt_succ_of_lt (h.fresh id hold)
  · simp only [hrole] at hbind
    obtain rfl := Except.ok.inj hbind
    refine ⟨hdecl, htyped, fun u hu hr => ?_, fun id hid => ?_, h.grads⟩
    · rcases List.mem_append.mp hu with hu | hu
      · exact hbefore u hu hr
      · obtain rfl := List.mem_singleton.mp hu
        rw [hrole] at hr
        cases hr
    · rw [List.length_append, List.length_singleton]
      exact Nat.lt_succ_of_lt (h.fresh id hid)

/-- Binding the remaining values. -/
theorem Begun.bindValues {words : Nat → UInt32} {done rest : List (Value α)}
    {state state' : Context α × Nat} (h : Begun done state.1)
    (hplaced : ∀ ⦃k : Nat⦄ ⦃v : Value α⦄, (done ++ rest)[k]? = some v → v.id = k)
    (hbind : rest.foldlM (Session.bindValue words) state = .ok state') :
    Begun (done ++ rest) state'.1 := by
  induction rest generalizing done state with
  | nil =>
      obtain rfl := Except.ok.inj hbind
      rwa [List.append_nil]
  | cons v rest ih =>
      rw [List.foldlM_cons] at hbind
      obtain ⟨next, hnext, hbind⟩ := Except.bind_eq_ok.mp hbind
      have hv : v.id = done.length := hplaced (by simp)
      rw [List.append_cons] at hplaced ⊢
      exact ih (h.bindValue hv hnext) hplaced hbind

/-! ### The invariant -/

/-- What holds of a session of a program at any time. -/
structure Invariant (p : Program α) (s : Session α) : Prop where
  /-- It runs the program. -/
  program : s.program = p
  /-- The values are declared by position. -/
  declared : ∀ id : Nat, s.context.declared[id]? = p.signature id
  /-- Bindings fit. -/
  typed : s.context.Typed
  /-- Every weight is bound. -/
  bound : ∀ v ∈ p.weights, (s.context.weights[v.id]?).isSome
  /-- Momentum buffers fit. -/
  buffers : Trainer.Fits p s.trainer

variable {p : Program α} {config : Config α} {words : UInt64 → Nat → UInt32} {s s' : Session α}

/-- A session begins if the program passes the static check and its values can be
bound, and begins with these.  Any stream of words will do. -/
theorem begin_eq_ok : begin p config words = .ok s ↔
    p.verify = .ok () ∧ ∃ (ctx : Context α) (drawn : Nat),
      p.values.foldlM (bindValue (words config.seed)) ({}, 0) = .ok (ctx, drawn) ∧
        s = ⟨p, ctx, config, ⟨config.training, ∅⟩, 0⟩ := by
  constructor
  · intro h
    obtain ⟨_, hverify, h⟩ := Except.bind_eq_ok.mp h
    obtain ⟨ctx, hctx, h⟩ := Except.bind_eq_ok.mp h
    obtain ⟨⟨ctx', drawn⟩, hfold, hctx⟩ := Except.bind_eq_ok.mp hctx
    obtain rfl := Except.ok.inj hctx
    exact ⟨hverify, ctx', drawn, hfold, (Except.ok.inj h).symm⟩
  · rintro ⟨hverify, ctx, drawn, hfold, rfl⟩
    rw [begin, hverify, Except.ok_bind, initialContext, hfold]
    rfl

theorem begun_of_begin (hp : p.Placed) (h : begin p config words = .ok s) :
    Begun p.values s.context := by
  obtain ⟨-, ctx, drawn, hfold, rfl⟩ := begin_eq_ok.mp h
  have hplaced : ∀ ⦃k : Nat⦄ ⦃v : Value α⦄, ([] ++ p.values)[k]? = some v → v.id = k := hp
  exact begun_nil.bindValues hplaced hfold

theorem verify_of_begin (h : begin p config words = .ok s) : p.verify = .ok () := (begin_eq_ok.mp h).1

theorem begin_fields (h : begin p config words = .ok s) :
    s.program = p ∧ s.config = config ∧ s.trainer = ⟨config.training, ∅⟩ := by
  obtain ⟨-, ctx, drawn, -, rfl⟩ := begin_eq_ok.mp h
  exact ⟨rfl, rfl, rfl⟩

/-- It holds of a session that begins. -/
theorem invariant_begin (hp : p.Placed) (h : begin p config words = .ok s) : Invariant p s := by
  have hbegun := begun_of_begin hp h
  obtain ⟨hprogram, -, htrainer⟩ := begin_fields h
  refine ⟨hprogram, hbegun.declared, hbegun.typed, fun v hv => ?_, fun id t ht => ?_⟩
  · obtain ⟨hmem, hrole⟩ := Program.mem_weights.mp hv
    exact hbegun.bound v hmem hrole
  · rw [htrainer] at ht
    simp at ht

omit [Scalar α] in
theorem Invariant.ready (hp : p.Placed) (h : Invariant p s) :
    Trainer.Ready p (s.trainer, s.context) where
  declared v hv := (h.declared v.id).trans (hp.signature (Program.mem_values_of_mem_trainable hv))
  typed := h.typed
  buffers := h.buffers

omit [Scalar α] in
/-- What a call preserves that keeps the momentum buffers fitting. -/
theorem Invariant.of_continues (h : Invariant p s) (hs : Continues s s')
    (hbuffers : Trainer.Fits p s'.trainer) : Invariant p s' where
  program := hs.program.trans h.program
  declared id := by rw [hs.context.declared, h.declared]
  typed := hs.context.typed h.typed
  bound v hv := hs.context.weightBound (h.bound v hv)
  buffers := hbuffers

omit [Scalar α] in
theorem Invariant.after_load (h : Invariant p s) (id : ValueId) (t : Tensor α) :
    Invariant p ((load id t).after s) :=
  h.of_continues (moves_load id t s) (by rw [load, after_onContext]; exact h.buffers)

theorem Invariant.after_forward (h : Invariant p s) (train : Bool) :
    Invariant p ((forward train).after s) :=
  h.of_continues (moves_forward train s) (by rw [Session.after_forward]; exact h.buffers)

theorem Invariant.after_backward (h : Invariant p s) : Invariant p (backward.after s) :=
  h.of_continues (moves_backward s) (by rw [Session.after_backward]; exact h.buffers)

theorem Invariant.after_learn (hp : p.Placed) (h : Invariant p s) :
    Invariant p (learn.after s) := by
  refine h.of_continues (moves_learn s) fun id t ht => ?_
  have hmove := Trainer.moves_step s.program (s.trainer, s.context)
  rw [Session.after_learn] at ht
  rw [h.program] at hmove ht
  exact hmove.ready (h.ready hp) ht

theorem Invariant.after_trainStep (hp : p.Placed) (h : Invariant p s) :
    Invariant p (trainStep.after s) :=
  Run.after_bind (h.after_forward true) fun _ _ h =>
    Run.after_bind h.after_backward fun _ _ h =>
      Run.after_bind (h.after_learn hp) fun _ _ h =>
        h.of_continues ⟨rfl, rfl, rfl, .refl _⟩ h.buffers

/-- It holds after every call, successful or failing. -/
theorem Invariant.after (hp : p.Placed) (h : Invariant p s) (call : Call α) :
    Invariant p ((perform call).after s) := by
  cases call with
  | load id t => exact h.after_load id t
  | forward train => exact h.after_forward train
  | infer => exact h.after_forward false
  | backward => exact h.after_backward
  | learn => exact h.after_learn hp
  | trainStep => exact h.after_trainStep hp

/-! ### Sequences of calls -/

/-- The session after a sequence of calls, each made whether or not those before
it succeeded. -/
def performAll (s : Session α) (calls : List (Call α)) : Session α :=
  calls.foldl (fun s call => (perform call).after s) s

theorem Invariant.performAll (hp : p.Placed) (h : Invariant p s) (calls : List (Call α)) :
    Invariant p (s.performAll calls) := by
  induction calls generalizing s with
  | nil => exact h
  | cons call calls ih => exact ih (h.after hp call)

theorem continues_performAll (s : Session α) (calls : List (Call α)) :
    Continues s (s.performAll calls) := by
  induction calls generalizing s with
  | nil => exact .refl s
  | cons call calls ih => exact (moves_perform call s).trans (ih _)

/-- What a program promises about the bindings of its sessions. -/
structure BindingsFit (p : Program α) (s : Session α) : Prop where
  /-- A bound weight is a buffer that fills the declared shape. -/
  weight : ∀ v ∈ p.values, ∀ t, s.context.weights[v.id]? = some t → v.Holds t
  /-- A bound gradient is a buffer that fills the declared shape. -/
  grad : ∀ v ∈ p.values, ∀ g, s.context.grads[v.id]? = some g → v.Holds g
  /-- Every weight is bound. -/
  bound : ∀ v ∈ p.weights, (s.context.weights[v.id]?).isSome
  /-- A bound gradient stays bound under all further calls. -/
  gradStays : ∀ (id : ValueId) (more : List (Call α)), (s.context.grads[id]?).isSome →
    ((s.performAll more).context.grads[id]?).isSome
  /-- A momentum buffer is one of scalars with the shape of its weight. -/
  buffer : ∀ (id : ValueId) (b : Tensor α), s.trainer.buffers[id]? = some b →
    ∃ v ∈ p.weights, v.id = id ∧ ∃ data : Vector α v.shape.elemCount, b = ⟨v.shape, .float data⟩

/-- **Bindings always fit.**  After any sequence of calls, successful or failing,
the bindings of a session are what its program promises. -/
theorem bindings_fit {values : List (Value α)} {instructions : List (Instruction α)}
    (hp : Program.ofParts values instructions = .ok p) (hs : begin p config words = .ok s)
    (calls : List (Call α)) : BindingsFit p (s.performAll calls) := by
  have hplaced := Program.placed_of_ofParts hp
  have hinv := (invariant_begin hplaced hs).performAll hplaced calls
  have hdecl (v : Value α) (hv : v ∈ p.values) :
      (s.performAll calls).context.declared[v.id]? = some v.declaration :=
    (hinv.declared v.id).trans (hplaced.signature hv)
  refine ⟨fun v hv t ht => ?_, fun v hv g hg => ?_, hinv.bound, fun id more => ?_,
    fun id b hb => ?_⟩
  · exact v.holds_of_declaration (hinv.typed.weight (hdecl v hv) ht)
  · exact v.holds_of_declaration (hinv.typed.grad (hdecl v hv) hg)
  · exact (continues_performAll (s.performAll calls) more).context.gradBound
  · obtain ⟨v, hv, hid, hfits⟩ := hinv.buffers hb
    exact ⟨v, Program.mem_weights_of_mem_trainable hv, hid, Tensor.eq_float hfits⟩

/-- A trainable weight and its copy. -/
def copiedWeight : Program Float32 where
  values :=
    [⟨0, "x", .float, ⟨[2]⟩, .weight, true, .zero⟩, ⟨1, "y", .float, ⟨[2]⟩, .activation, false, .zero⟩]
  instructions := [.alloc 1, .copy ⟨1, 0⟩]

/-- The bindings fit after training on a copied weight, inference and a failing
call. -/
theorem bindings_fit_copiedWeight : ∃ s, begin copiedWeight .default = .ok s ∧
    BindingsFit copiedWeight
      (s.performAll [.trainStep, .infer, .load 0 (.zeros .index ⟨[3]⟩), .trainStep]) := by
  have hs : begin copiedWeight .default = .ok _ := rfl
  exact ⟨_, hs, bindings_fit (show Program.ofParts copiedWeight.values copiedWeight.instructions
    = .ok copiedWeight from rfl) hs _⟩

end Session

end TensorProgram
