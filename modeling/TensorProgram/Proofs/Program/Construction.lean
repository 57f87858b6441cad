/-
TensorProgram/Proofs/Program/Construction.lean

What a builder constructs.  A program grows by weights and by blocks: a block
declares activations, allocates each of them and ends with one instruction that
writes exactly these and reads values declared before (`Program.Grown`).  Every
layer whose arguments are declared is such a growth, and the builder keeps its
activations alive until it gives all of them up (`Builder.Assembled.add`).  So
every builder is assembled of these steps (`Builder.Constructed.assembled`), and
every program that it finishes is grown (`Builder.Constructed.grown`).

From the growth follows what the sweeps need: an instruction names what it
writes once, no two instructions write the same value, and every activation is
written before it is read.
-/
import TensorProgram.Program.Builder
import TensorProgram.Proofs.Program.Sweep

namespace TensorProgram

variable {α : Type}

/-! ### Construction -/

/-- The values that a layer is applied to. -/
def Layer.arguments : Layer α → List ValueId
  | .input .. | .weight .. => []
  | .copy src | .activation _ src | .convolution src .. | .pool _ src _ | .fullyConnected src _
  | .transpose src _ | .reshape src _ | .batchNorm src .. | .localResponse src .. => [src]
  | .softmax src selected => [src, selected]
  | .regression src expected => [src, expected]
  | .concat srcs _ => srcs
  | .arithmetic _ lhs rhs => [lhs, rhs]

namespace Builder

/-- The arguments of a construction step are declared. -/
def Step.Scoped (b : Builder α) : Step α → Prop
  | .layer _ l => ∀ id ∈ l.arguments, id < b.program.values.length
  | .deallocateActive => True

instance (b : Builder α) (t : Step α) : Decidable (t.Scoped b) :=
  match t with
  | .layer _ l => inferInstanceAs (Decidable (∀ id ∈ l.arguments, id < b.program.values.length))
  | .deallocateActive => inferInstanceAs (Decidable True)

/-- The builder was reached by construction steps whose arguments were declared
when they were used. -/
inductive Constructed [Scalar α] : Builder α → Prop
  /-- Nothing is constructed yet. -/
  | empty : Constructed {}
  /-- One more step. -/
  | step {b : Builder α} {t : Step α} (before : Constructed b) (declared : t.Scoped b) :
      Constructed (b.step t)

end Builder

/-! ### Growth -/

/-- The instruction writes these values, once each, and otherwise uses values
named below `n`. -/
structure Instruction.Extends (i : Instruction α) (n : Nat) (outs : List ValueId) : Prop where
  /-- It begins or ends no life. -/
  works : i.isLifecycle = false
  /-- What it overwrites is new. -/
  outputs : i.outputs = outs
  /-- It writes nothing else. -/
  writes : ∀ id, (id, .write) ∈ i.operands → id ∈ outs
  /-- What it reads is old. -/
  consulted : ∀ id ∈ i.consulted, id < n
  /-- What it writes it names once. -/
  separate : i.Separate

/-- The values and instructions of a program, in the order of construction. -/
inductive Program.Grown : List (Value α) → List (Instruction α) → Prop
  /-- The empty program. -/
  | empty : Grown [] []
  /-- A weight is declared. -/
  | weight {vs : List (Value α)} {is : List (Instruction α)} {v : Value α} (before : Grown vs is)
      (named : v.id = vs.length) (role : v.role = .weight) : Grown (vs ++ [v]) is
  /-- An activation is given up. -/
  | dealloc {vs : List (Value α)} {is : List (Instruction α)} {id : ValueId}
      (before : Grown vs is) : Grown vs (is ++ [.dealloc id])
  /-- Activations are declared, allocated and written. -/
  | block {vs us : List (Value α)} {is : List (Instruction α)} {i : Instruction α}
      (before : Grown vs is) (named : us.map (·.id) = List.range' vs.length us.length)
      (roles : ∀ u ∈ us, u.role = .activation)
      (writer : i.Extends vs.length (us.map (·.id))) :
      Grown (vs ++ us) (is ++ us.map (fun u => .alloc u.id) ++ [i])

namespace Instruction

section Extends

variable {n : Nat} {id : ValueId}

/-- An instruction with one output that changes nothing in place. -/
theorem extends_one {i : Instruction α} (reads : List ValueId)
    (hops : i.operands = (n, .write) :: reads.map (·, .read)) (hout : i.outputs = [n])
    (hlife : i.isLifecycle = false) (hreads : ∀ id ∈ reads, id < n) : i.Extends n [n] := by
  have hwritten : i.written = [n] := by
    simp [written, hops, List.filter_eq_nil_iff]
  have hconsulted : i.consulted = reads := by
    rw [consulted, hops, List.filter_cons_of_neg (by simp), List.filter_eq_self.mpr]
    · simp [Function.comp_def]
    · simp
  refine ⟨hlife, hout, fun id hid => ?_, fun id hid => ?_, fun id hid => ?_⟩
  · simpa [hops] using hid
  · exact hreads id (hconsulted ▸ hid)
  · rw [hwritten] at hid
    obtain rfl := List.mem_singleton.mp hid
    have hnot : id ∉ reads := fun hmem => Nat.lt_irrefl id (hreads id hmem)
    simp [hops, Function.comp_def, List.count_eq_zero_of_not_mem hnot]

/-- An instruction with two outputs, the second one named among its inputs. -/
theorem extends_two {i : Instruction α} {src m : ValueId} (reads : List ValueId)
    (hops : i.operands = (n, .write) :: (src, .read) :: (m, .write) :: reads.map (·, .read))
    (hout : i.outputs = [n, m]) (hlife : i.isLifecycle = false) (hnext : m = n + 1)
    (hreads : ∀ id ∈ src :: reads, id < n) : i.Extends n [n, m] := by
  subst hnext
  have hwritten : i.written = [n, n + 1] := by
    simp [written, hops, List.filter_eq_nil_iff]
  have hconsulted : i.consulted = src :: reads := by
    rw [consulted, hops, List.filter_cons_of_neg (by simp), List.filter_cons_of_pos (by simp),
      List.filter_cons_of_neg (by simp), List.filter_eq_self.mpr]
    · simp [Function.comp_def]
    · simp
  have hold (id : ValueId) (hid : n ≤ id) : id ∉ src :: reads := fun hmem =>
    Nat.not_lt.mpr hid (hreads id hmem)
  refine ⟨hlife, hout, fun id hid => ?_, fun id hid => ?_, fun id hid => ?_⟩
  · simpa [hops] using hid
  · exact hreads id (hconsulted ▸ hid)
  · -- an output is too new to be among the inputs, so it is named once
    rw [hwritten] at hid
    have hge : n ≤ id := by
      simp only [List.mem_cons, List.not_mem_nil, or_false] at hid
      rcases hid with rfl | rfl
      · exact Nat.le_refl _
      · exact Nat.le_succ _
    obtain ⟨hsrc, hrest⟩ := not_or.mp (List.mem_cons.not.mp (hold id hge))
    have hcount : reads.count id = 0 := List.count_eq_zero_of_not_mem hrest
    simp only [List.mem_cons, List.not_mem_nil, or_false] at hid
    rcases hid with rfl | rfl <;>
      simp [hops, Function.comp_def, hcount, Ne.symm hsrc]

/-- A normalization by running statistics, whose parameters are declared in
order. -/
theorem extends_batchNorm {i : BatchNorm α} (hdest : i.dest = n) (hsrc : i.src < i.mean)
    (hscale : i.scale < i.mean) (hbias : i.bias < i.mean) (hmean : i.mean < i.var)
    (hvar : i.var < n) : (batchNorm i).Extends n [n] := by
  subst hdest
  have hold : ∀ id ∈ [i.src, i.scale, i.bias, i.mean, i.var], id < i.dest := by
    simp only [List.mem_cons, List.not_mem_nil, or_false]
    rintro id (rfl | rfl | rfl | rfl | rfl)
    · exact (hsrc.trans hmean).trans hvar
    · exact (hscale.trans hmean).trans hvar
    · exact (hbias.trans hmean).trans hvar
    · exact hmean.trans hvar
    · exact hvar
  refine ⟨rfl, rfl, fun id hid => ?_, fun id hid => hold id (by simpa [consulted, operands] using hid),
    fun id hid => ?_⟩
  · simpa [operands] using hid
  · simp only [written, operands, List.filter, List.map_cons, List.map_nil, List.mem_cons,
      List.not_mem_nil, or_false, reduceCtorEq, ne_eq, not_false_eq_true, decide_true,
      not_true_eq_false, decide_false] at hid
    simp only [operands, List.map_cons, List.map_nil, List.count_cons, List.count_nil, beq_iff_eq]
    -- output and statistics are declared after the other operands, so they are named once
    rcases hid with rfl | rfl | rfl
    · rw [if_neg (hold _ (by simp)).ne, if_neg (hold _ (by simp)).ne, if_neg (hold _ (by simp)).ne,
        if_neg (hold _ (by simp)).ne, if_neg (hold _ (by simp)).ne, if_pos rfl]
    · rw [if_neg hmean.ne', if_neg hbias.ne, if_neg hscale.ne, if_neg hsrc.ne,
        if_neg (hmean.trans hvar).ne', if_pos rfl]
    · rw [if_neg hmean.ne, if_neg (hbias.trans hmean).ne, if_neg (hscale.trans hmean).ne,
        if_neg (hsrc.trans hmean).ne, if_neg hvar.ne', if_pos rfl]

/-- What an instruction names is new or read. -/
theorem mem_outs_or_consulted {i : Instruction α} {outs : List ValueId} (h : i.Extends n outs)
    (hid : id ∈ i.operands.map Prod.fst) : id ∈ outs ∨ id ∈ i.consulted := by
  obtain ⟨⟨id, access⟩, ho, rfl⟩ := List.mem_map.mp hid
  by_cases haccess : access = .write
  · subst haccess
    exact .inl (h.writes id ho)
  · right
    exact List.mem_map.mpr ⟨(id, access), List.mem_filter.mpr ⟨ho, by simpa using haccess⟩, rfl⟩

end Extends

end Instruction

/-! ### Builders -/

namespace Builder

/-- The program so far is grown. -/
def Grown (b : Builder α) : Prop := Program.Grown b.program.values b.program.instructions

/-- The builder, in the order of construction.  What a normalization updates in
place is named by no instruction before it. -/
inductive Assembled : Builder α → Prop
  /-- The empty builder. -/
  | empty : Assembled {}
  /-- A weight is declared. -/
  | weight {b : Builder α} {v : Value α} (before : Assembled b)
      (named : v.id = b.program.values.length) (role : v.role = .weight) :
      Assembled ⟨⟨b.program.values ++ [v], b.program.instructions⟩, b.live⟩
  /-- Activations are declared, allocated and written. -/
  | block {b : Builder α} {us : List (Value α)} {i : Instruction α} (before : Assembled b)
      (named : us.map (·.id) = List.range' b.program.values.length us.length)
      (roles : ∀ u ∈ us, u.role = .activation)
      (writer : i.Extends b.program.values.length (us.map (·.id)))
      (fresh : ∀ q, i = .batchNorm q → ∀ id ∈ [q.mean, q.var],
        ∀ j ∈ b.program.instructions, id ∉ j.operands.map Prod.fst) :
      Assembled ⟨⟨b.program.values ++ us,
        b.program.instructions ++ us.map (fun u => .alloc u.id) ++ [i]⟩, b.live ++ us.map (·.id)⟩
  /-- All activations alive are given up. -/
  | released {b : Builder α} (before : Assembled b) : Assembled b.deallocateActive

variable {b b' : Builder α} {name : String} {id : ValueId}

/-- Giving up activations is growth. -/
theorem Grown.deallocateActive (h : b.Grown) : b.deallocateActive.Grown := by
  show Program.Grown b.program.values (b.program.instructions ++ b.live.reverse.map .dealloc)
  have h' : Program.Grown b.program.values b.program.instructions := h
  generalize b.live.reverse = ids
  generalize b.program.instructions = is at h'
  induction ids generalizing is with
  | nil => simpa using h'
  | cons id ids ih =>
      rw [List.map_cons, List.append_cons]
      exact ih (is ++ [.dealloc id]) (.dealloc h')

theorem Assembled.grown (h : b.Assembled) : b.Grown := by
  induction h with
  | empty => exact .empty
  | weight _ named role ih => exact .weight ih named role
  | block _ named roles writer _ ih => exact .block ih named roles writer
  | released _ ih => exact ih.deallocateActive

/-- Instructions name values that are declared, and only such values are alive. -/
theorem Assembled.named_lt (h : b.Assembled) :
    (∀ i ∈ b.program.instructions, ∀ id ∈ i.operands.map Prod.fst, id < b.program.values.length) ∧
      ∀ id ∈ b.live, id < b.program.values.length := by
  induction h with
  | empty => exact ⟨nofun, nofun⟩
  | weight _ _ _ ih =>
      obtain ⟨hnamed, hlive⟩ := ih
      simp only [List.length_append]
      exact ⟨fun i hi id hid => Nat.lt_add_right _ (hnamed i hi id hid),
        fun id hid => Nat.lt_add_right _ (hlive id hid)⟩
  | @block b us i before named _ writer _ ih =>
      obtain ⟨hnamed, hlive⟩ := ih
      have hnew : ∀ id ∈ us.map (·.id), id < (b.program.values ++ us).length := by
        intro id hid
        rw [named, List.mem_range'_1] at hid
        rw [List.length_append]
        exact hid.2
      have hold {id : ValueId} (hid : id < b.program.values.length) :
          id < (b.program.values ++ us).length := by
        rw [List.length_append]
        exact Nat.lt_add_right _ hid
      constructor
      · intro j hj id hid
        simp only [List.append_assoc, List.mem_append, List.mem_map, List.mem_singleton] at hj
        -- an instruction before, an allocation of the block, or the one that writes it
        rcases hj with hj | ⟨u, hu, rfl⟩ | rfl
        · exact hold (hnamed j hj id hid)
        · obtain rfl : id = u.id := by simpa [Instruction.operands] using hid
          exact hnew u.id (List.mem_map_of_mem hu)
        · rcases Instruction.mem_outs_or_consulted writer hid with hout | hread
          · exact hnew id hout
          · exact hold (writer.consulted id hread)
      · intro id hid
        rcases List.mem_append.mp hid with hid | hid
        · exact hold (hlive id hid)
        · exact hnew id hid
  | @released b _ ih =>
      obtain ⟨hnamed, hlive⟩ := ih
      refine ⟨fun j hj id hid => ?_, fun id hid => absurd hid List.not_mem_nil⟩
      simp only [Builder.deallocateActive, List.mem_append, List.mem_map, List.mem_reverse] at hj
      -- what is given up was alive
      rcases hj with hj | ⟨dead, hdead, rfl⟩
      · exact hnamed j hj id hid
      · obtain rfl : id = dead := by simpa [Instruction.operands] using hid
        exact hlive id hdead

theorem Assembled.declareWeight (h : b.Assembled) (name : String) (shape : Shape)
    (init : WeightInit α) : Assembled ((Builder.declareWeight name shape init).run b).2 :=
  .weight h rfl rfl

theorem Assembled.declareConstant (h : b.Assembled) (name : String) (shape : Shape)
    (init : WeightInit α) : Assembled ((Builder.declareConstant name shape init).run b).2 :=
  .weight h rfl rfl

/-- One activation is declared and written. -/
theorem Assembled.declareOutput (h : b.Assembled) {shape : Shape} {i : ValueId → Instruction α}
    (hi : (i b.program.values.length).Extends b.program.values.length [b.program.values.length])
    (hfresh : ∀ q, i b.program.values.length = .batchNorm q → ∀ id ∈ [q.mean, q.var],
      ∀ j ∈ b.program.instructions, id ∉ j.operands.map Prod.fst) :
    Assembled ((Builder.declareOutput name shape i).run b).2 := by
  have hblock := Assembled.block h
    (show [(⟨_, name, .float, shape, .activation, false, .zero⟩ : Value α)].map (·.id) = _ from rfl)
    (by simp) hi hfresh
  exact hblock

/-- Two activations are declared and written. -/
theorem Assembled.declareBoth (h : b.Assembled) {first second : String} {k : ElemKind}
    {s t : Shape} {i : ValueId → ValueId → Instruction α}
    (hi : ∀ m, m = b.program.values.length + 1 → (i b.program.values.length m).Extends
      b.program.values.length [b.program.values.length, m])
    (hfresh : ∀ m q, i b.program.values.length m ≠ .batchNorm q) :
    Assembled ((do
      let dest ← declareActivation first .float s
      let saved ← declareActivation second k t
      append (i dest saved)
      return dest : Construct α ValueId).run b).2 := by
  let u : Value α := ⟨b.program.values.length, first, .float, s, .activation, false, .zero⟩
  let w : Value α :=
    ⟨(b.program.values ++ [u]).length, second, k, t, .activation, false, .zero⟩
  have hw : w.id = b.program.values.length + 1 := by simp [w]
  have hnames : [u, w].map (·.id) = List.range' b.program.values.length [u, w].length := by
    simp [u, hw, List.range']
  show Assembled ⟨⟨b.program.values ++ [u] ++ [w],
    b.program.instructions ++ [.alloc u.id] ++ [.alloc w.id] ++ [i u.id w.id]⟩,
    b.live ++ [u.id] ++ [w.id]⟩
  rw [List.append_assoc b.program.values, List.append_assoc b.program.instructions,
    List.append_assoc b.live]
  exact .block h hnames (by simp [u, w]) (hi w.id hw) fun q hq => absurd hq (hfresh w.id q)

/-! ### Attempts -/

section Attempts

variable {β γ : Type} {f : Program α → Except Error β} {g : β → Attempt α γ} {c : γ}

/-- What follows a check that succeeds runs on the same builder. -/
theorem check_eq_ok (h : (check f >>= g) b = .ok c b') :
    ∃ x, f b.program = .ok x ∧ g x b = .ok c b' := by
  change EStateM.bind (check f) g b = _ at h
  rw [EStateM.bind, check] at h
  rcases hf : f b.program with e | x
  · rw [hf] at h
    cases h
  · rw [hf] at h
    exact ⟨x, rfl, h⟩

theorem commit_eq_ok {f : Construct α γ} (h : commit f b = .ok c b') : (f.run b).2 = b' := by
  cases h
  rfl

/-- A failing attempt leaves the builder as it was. -/
def Atomic (f : Attempt α β) : Prop := ∀ ⦃b e b'⦄, f b = .error e b' → b' = b

theorem Atomic.check (hg : ∀ x, Atomic (g x)) : Atomic (Builder.check f >>= g) := by
  intro b e b' h
  change EStateM.bind (Builder.check f) g b = _ at h
  rw [EStateM.bind, Builder.check] at h
  rcases hf : f b.program with e' | x
  · rw [hf] at h
    cases h
    rfl
  · rw [hf] at h
    exact hg x h

theorem atomic_commit (f : Construct α β) : Atomic (commit f) := nofun

theorem atomic_throw (e : Error) : Atomic (throw e : Attempt α β) := by
  intro b e' b' h
  cases h
  rfl

variable [Scalar α]

/-- **A layer that does not fit leaves nothing behind**: all checks come before
the first declaration. -/
theorem atomic_attach (name : String) (l : Layer α) : Atomic (attach name l) := by
  cases l with
  | input | weight => exact atomic_commit _
  | copy | activation | softmax | regression | localResponse =>
      exact .check fun _ => atomic_commit _
  | convolution | pool | fullyConnected | transpose | reshape | batchNorm =>
      exact .check fun _ => .check fun _ => atomic_commit _
  | arithmetic => exact .check fun _ => .check fun _ => .check fun _ => atomic_commit _
  | concat srcs dim =>
      cases srcs with
      | nil => exact atomic_throw _
      | cons => exact .check fun _ => .check fun _ => .check fun _ => atomic_commit _

end Attempts

/-! ### Layers -/

variable [Scalar α]

omit [Scalar α] in
theorem length_lt_append (vs : List (Value α)) (v : Value α) : vs.length < (vs ++ [v]).length := by
  simp

omit [Scalar α] in
theorem lt_length_append {vs : List (Value α)} (v : Value α) {id : ValueId} (h : id < vs.length) :
    id < (vs ++ [v]).length := h.trans (length_lt_append vs v)

omit [Scalar α] in
/-- An argument and two parameters declared after it are declared before what
comes next. -/
theorem lt_parameters {vs : List (Value α)} {src : ValueId} (hsrc : src < vs.length)
    (v w : Value α) :
    ∀ id ∈ [src, vs.length, (vs ++ [v]).length], id < (vs ++ [v] ++ [w]).length := by
  simp only [List.forall_mem_cons]
  exact ⟨lt_length_append w (lt_length_append v hsrc), lt_length_append w (length_lt_append vs v),
    length_lt_append _ w, by simp⟩

/-- A convolution declares its filter and bias first. -/
theorem Assembled.convolution (h : b.Assembled) {src : ValueId} (hsrc : src < b.program.values.length)
    (depth : Nat) (win : Window) (input : NHWC) (height width : Nat) :
    Assembled ((Builder.convolution name src depth win input height width).run b).2 := by
  have hparameters := (h.declareWeight (name ++ ".filter")
    ⟨[depth, win.kernel, win.kernel, input.c]⟩
    (.xavier (win.kernel * win.kernel * input.c))).declareWeight (name ++ ".bias") ⟨[depth]⟩
    (.broadcast defaultBias)
  refine hparameters.declareOutput (i := fun dest => .convolution ⟨dest, src, _, _, win⟩)
    (Instruction.extends_one [src, b.program.values.length, _] rfl rfl rfl ?_) nofun
  exact lt_parameters hsrc _ _

/-- So does an affine map. -/
theorem Assembled.fullyConnected (h : b.Assembled) {src : ValueId}
    (hsrc : src < b.program.values.length) (depth batch inputs : Nat) :
    Assembled ((Builder.fullyConnected name src depth batch inputs).run b).2 := by
  have hparameters := (h.declareWeight (name ++ ".filter") ⟨[depth, inputs]⟩
    (.xavier inputs)).declareWeight (name ++ ".bias") ⟨[depth]⟩ (.broadcast defaultBias)
  refine hparameters.declareOutput (i := fun dest => .fullyConnected ⟨dest, src, _, _⟩)
    (Instruction.extends_one [src, b.program.values.length, _] rfl rfl rfl ?_) nofun
  exact lt_parameters hsrc _ _

/-- A normalization declares two parameters and two statistics first. -/
theorem Assembled.batchNorm (h : b.Assembled) {src : ValueId}
    (hsrc : src < b.program.values.length) (axis : Nat) (epsilon momentum : α)
    (shape channels : Shape) :
    Assembled ((Builder.batchNorm name src axis epsilon momentum shape channels).run b).2 := by
  have hparameters := (((h.declareWeight (name ++ ".scale") channels (.broadcast 1)).declareWeight
    (name ++ ".bias") channels .zero).declareConstant (name ++ ".mean") channels
    .zero).declareConstant (name ++ ".var") channels (.broadcast 1)
  refine hparameters.declareOutput
    (i := fun dest => .batchNorm ⟨dest, src, _, _, _, _, axis, epsilon, momentum⟩)
    (Instruction.extends_batchNorm rfl ?_ ?_ ?_ ?_ ?_) ?_
  · -- the input is older than the four values, which are declared one after the other
    exact lt_length_append _ (lt_length_append _ hsrc)
  · exact lt_length_append _ (length_lt_append _ _)
  · exact length_lt_append _ _
  · exact length_lt_append _ _
  · exact length_lt_append _ _
  · -- the statistics are declared after everything that the instructions so far name
    intro q hq id hid j hj hnamed
    obtain rfl := Instruction.batchNorm.inj hq
    have hlt : id < b.program.values.length := h.named_lt.1 j hj id hnamed
    have hge : b.program.values.length ≤ id := by
      rcases List.mem_pair.mp hid with rfl | rfl
      · exact (lt_length_append _ (length_lt_append _ _)).le
      · exact (lt_length_append _ (lt_length_append _ (length_lt_append _ _))).le
    exact Nat.not_lt.mpr hge hlt

/-- A layer whose arguments are declared is a step of assembly. -/
theorem Assembled.add (h : b.Assembled) {l : Layer α}
    (hargs : ∀ id ∈ l.arguments, id < b.program.values.length)
    (hadd : attach name l b = .ok id b') : b'.Assembled := by
  -- the checks do not matter here: every call declares in order what it appends
  cases l with
  | input kind shape =>
      obtain rfl := commit_eq_ok hadd
      exact .weight h rfl rfl
  | weight shape init =>
      obtain rfl := commit_eq_ok hadd
      exact h.declareWeight name shape init
  | copy src =>
      obtain ⟨s, _, hadd⟩ := check_eq_ok hadd
      obtain rfl := commit_eq_ok hadd
      exact h.declareOutput (Instruction.extends_one [src] rfl rfl rfl hargs) nofun
  | activation f src =>
      obtain ⟨s, _, hadd⟩ := check_eq_ok hadd
      obtain rfl := commit_eq_ok hadd
      exact h.declareOutput (Instruction.extends_one [src] rfl rfl rfl hargs) nofun
  | convolution src depth win =>
      obtain ⟨input, _, hadd⟩ := check_eq_ok hadd
      obtain ⟨⟨height, width⟩, _, hadd⟩ := check_eq_ok hadd
      obtain rfl := commit_eq_ok hadd
      exact h.convolution (hargs src (by simp [Layer.arguments])) ..
  | pool kind src win =>
      obtain ⟨input, _, hadd⟩ := check_eq_ok hadd
      obtain ⟨⟨height, width⟩, _, hadd⟩ := check_eq_ok hadd
      obtain rfl := commit_eq_ok hadd
      cases kind with
      | max =>
          exact h.declareBoth (i := fun dest coords => .pool ⟨.max, dest, src, some coords, win⟩)
            (fun m hm => Instruction.extends_two [] rfl rfl rfl hm hargs) nofun
      | avg =>
          exact h.declareOutput (i := fun dest => .pool ⟨.avg, dest, src, none, win⟩)
            (Instruction.extends_one [src] rfl rfl rfl hargs) nofun
  | fullyConnected src depth =>
      obtain ⟨s, _, hadd⟩ := check_eq_ok hadd
      obtain ⟨⟨batch, inputs⟩, _, hadd⟩ := check_eq_ok hadd
      obtain rfl := commit_eq_ok hadd
      exact h.fullyConnected (hargs src (by simp [Layer.arguments])) ..
  | softmax src selected =>
      obtain ⟨s, _, hadd⟩ := check_eq_ok hadd
      obtain rfl := commit_eq_ok hadd
      exact h.declareBoth (i := fun dest saved => .softmax ⟨dest, src, saved, selected⟩)
        (fun m hm => Instruction.extends_two [selected] rfl rfl rfl hm hargs) nofun
  | regression src expected =>
      obtain ⟨s, _, hadd⟩ := check_eq_ok hadd
      obtain rfl := commit_eq_ok hadd
      exact h.declareOutput (Instruction.extends_one [src, expected] rfl rfl rfl hargs) nofun
  | transpose src shuffle =>
      obtain ⟨s, _, hadd⟩ := check_eq_ok hadd
      obtain ⟨t, _, hadd⟩ := check_eq_ok hadd
      obtain rfl := commit_eq_ok hadd
      exact h.declareOutput (Instruction.extends_one [src] rfl rfl rfl hargs) nofun
  | reshape src shape =>
      obtain ⟨s, _, hadd⟩ := check_eq_ok hadd
      obtain ⟨_, _, hadd⟩ := check_eq_ok hadd
      obtain rfl := commit_eq_ok hadd
      exact h.declareOutput (Instruction.extends_one [src] rfl rfl rfl hargs) nofun
  | concat srcs dim =>
      cases srcs with
      | nil => cases hadd
      | cons first rest =>
          obtain ⟨s, _, hadd⟩ := check_eq_ok hadd
          obtain ⟨start, _, hadd⟩ := check_eq_ok hadd
          obtain ⟨extent, _, hadd⟩ := check_eq_ok hadd
          obtain rfl := commit_eq_ok hadd
          exact h.declareOutput (Instruction.extends_one (first :: rest) rfl rfl rfl hargs) nofun
  | batchNorm src axis epsilon momentum =>
      obtain ⟨s, _, hadd⟩ := check_eq_ok hadd
      obtain ⟨count, _, hadd⟩ := check_eq_ok hadd
      obtain rfl := commit_eq_ok hadd
      exact h.batchNorm (hargs src (by simp [Layer.arguments])) ..
  | localResponse src halfWindow alpha beta k =>
      obtain ⟨input, _, hadd⟩ := check_eq_ok hadd
      obtain rfl := commit_eq_ok hadd
      exact h.declareBoth
        (i := fun dest scale => .localResponse ⟨dest, src, scale, halfWindow, alpha, beta, k⟩)
        (fun m hm => Instruction.extends_two [] rfl rfl rfl hm hargs) nofun
  | arithmetic kind lhs rhs =>
      obtain ⟨s, _, hadd⟩ := check_eq_ok hadd
      obtain ⟨t, _, hadd⟩ := check_eq_ok hadd
      obtain ⟨_, _, hadd⟩ := check_eq_ok hadd
      obtain rfl := commit_eq_ok hadd
      exact h.declareOutput (Instruction.extends_one [lhs, rhs] rfl rfl rfl hargs) nofun

/-- **Builders are assembled**, failing calls included. -/
theorem Constructed.assembled (h : b.Constructed) : b.Assembled := by
  induction h with
  | empty => exact .empty
  | @step b t _ declared ih =>
      cases t with
      | layer name l =>
          rw [Builder.step]
          rcases hadd : attach name l b with ⟨id, b'⟩ | ⟨e, b'⟩
          · exact ih.add declared hadd
          · obtain rfl := atomic_attach name l hadd
            exact ih
      | deallocateActive => exact .released ih

/-- **Builders grow programs.** -/
theorem Constructed.grown (h : b.Constructed) : b.Grown := h.assembled.grown

end Builder

/-! ### What growth tells -/

/-- Every instruction consults only values that are known when it runs; what it
overwrites is known from then on. -/
inductive Program.Fed : List ValueId → List (Instruction α) → Prop
  /-- The end. -/
  | nil {known : List ValueId} : Fed known []
  /-- An instruction and those after it. -/
  | cons {known : List ValueId} {i : Instruction α} {rest : List (Instruction α)}
      (head : ∀ id ∈ i.consulted, id ∈ known) (tail : Fed (i.outputs ++ known) rest) :
      Fed known (i :: rest)

namespace Program

variable {known known' : List ValueId} {is js : List (Instruction α)}

theorem Fed.mono (h : Fed known is) (hsub : ∀ id ∈ known, id ∈ known') : Fed known' is := by
  induction h generalizing known' with
  | nil => exact .nil
  | cons head _ ih =>
      refine .cons (fun id hid => hsub id (head id hid)) (ih fun id hid => ?_)
      rcases List.mem_append.mp hid with hid | hid
      · exact List.mem_append_left _ hid
      · exact List.mem_append_right _ (hsub id hid)

theorem Fed.append (h : Fed known is) (hjs : Fed (is.flatMap (·.outputs) ++ known) js) :
    Fed known (is ++ js) := by
  induction h with
  | nil => exact hjs
  | @cons known i rest head _ ih =>
      refine .cons head (ih (hjs.mono fun id hid => ?_))
      simp only [List.flatMap_cons, List.mem_append] at hid ⊢
      tauto

/-- Lifecycle instructions consult nothing. -/
theorem fed_lifecycle (hlife : ∀ i ∈ is, i.isLifecycle = true) : Fed known is := by
  induction is generalizing known with
  | nil => exact .nil
  | cons i is ih =>
      refine .cons (fun id hid => ?_) (ih fun j hj => hlife j (by simp [hj]))
      have hi : i.isLifecycle = true := hlife i (by simp)
      cases i with
      | alloc dest => simp [Instruction.consulted, Instruction.operands] at hid
      | dealloc src => simp [Instruction.consulted, Instruction.operands] at hid
      | _ => cases hi

variable {vs : List (Value α)}

/-- Values are named by position. -/
theorem Grown.map_id (h : Grown vs is) : vs.map (·.id) = List.range vs.length := by
  induction h with
  | empty => rfl
  | @weight vs is v _ named _ ih =>
      rw [List.map_append, ih, List.map_singleton, named, List.length_append, List.length_singleton,
        List.range_succ]
  | dealloc _ ih => exact ih
  | @block vs us is i _ named _ _ ih =>
      rw [List.map_append, ih, named, List.length_append, List.range_eq_range',
        List.range_eq_range', ← List.range'_append_1, Nat.zero_add]

theorem Grown.getElem?_id (h : Grown vs is) {k : Nat} {v : Value α} (hv : vs[k]? = some v) :
    v.id = k := by
  have hid : (vs.map (·.id))[k]? = some v.id := by rw [List.getElem?_map, hv, Option.map_some]
  rw [h.map_id] at hid
  obtain ⟨hlt, hk⟩ := List.getElem?_eq_some_iff.mp hid
  rw [List.getElem_range] at hk
  exact hk.symm

theorem Grown.placed {p : Program α} (h : Grown p.values p.instructions) : p.Placed :=
  fun _ _ hv => h.getElem?_id hv

theorem Grown.id_lt (h : Grown vs is) {v : Value α} (hv : v ∈ vs) : v.id < vs.length := by
  have hid : v.id ∈ vs.map (·.id) := List.mem_map_of_mem hv
  rw [h.map_id] at hid
  exact List.mem_range.mp hid

theorem Grown.exists_value (h : Grown vs is) {id : ValueId} (hid : id < vs.length) :
    ∃ v ∈ vs, v.id = id := by
  have hmem : id ∈ vs.map (·.id) := h.map_id ▸ List.mem_range.mpr hid
  obtain ⟨v, hv, rfl⟩ := List.mem_map.mp hmem
  exact ⟨v, hv, rfl⟩

/-- New activations are named from `vs.length` on. -/
theorem le_of_mem_block {us : List (Value α)}
    (named : us.map (·.id) = List.range' vs.length us.length) {id : ValueId}
    (hid : id ∈ us.map (·.id)) : vs.length ≤ id := by
  rw [named] at hid
  exact (List.mem_range'_1.mp hid).1

/-- Every instruction is a lifecycle instruction or writes activations of its
own. -/
theorem Grown.extends (h : Grown vs is) : ∀ i ∈ is, i.isLifecycle = false →
    ∃ n outs, i.Extends n outs ∧ ∀ id ∈ outs, ∃ v ∈ vs, v.id = id ∧ v.role = .activation := by
  induction h with
  | empty => simp
  | weight _ _ _ ih =>
      intro i hi hlife
      obtain ⟨n, outs, hext, houts⟩ := ih i hi hlife
      refine ⟨n, outs, hext, fun id hid => ?_⟩
      obtain ⟨v, hv, h⟩ := houts id hid
      exact ⟨v, List.mem_append_left _ hv, h⟩
  | dealloc _ ih =>
      intro i hi hlife
      rcases List.mem_append.mp hi with hi | hi
      · exact ih i hi hlife
      · obtain rfl := List.mem_singleton.mp hi
        cases hlife
  | @block vs us is i _ _ roles writer ih =>
      intro j hj hlife
      -- an older instruction, one that makes room, or the writer itself
      simp only [List.append_assoc, List.mem_append, List.mem_map, List.mem_singleton] at hj
      rcases hj with hj | ⟨u, hu, rfl⟩ | rfl
      · obtain ⟨n, outs, hext, houts⟩ := ih j hj hlife
        refine ⟨n, outs, hext, fun id hid => ?_⟩
        obtain ⟨v, hv, h⟩ := houts id hid
        exact ⟨v, List.mem_append_left _ hv, h⟩
      · cases hlife
      · refine ⟨_, _, writer, fun id hid => ?_⟩
        obtain ⟨u, hu, rfl⟩ := List.mem_map.mp hid
        exact ⟨u, List.mem_append_right _ hu, rfl, roles u hu⟩

/-- An instruction names once what it writes. -/
theorem Grown.separate (h : Grown vs is) : ∀ i ∈ is, i.Separate := by
  intro i hi
  rcases hlife : i.isLifecycle with - | -
  · obtain ⟨n, outs, hext, -⟩ := h.extends i hi hlife
    exact hext.separate
  · cases i with
    | alloc dest => simp [Instruction.Separate, Instruction.written, Instruction.operands]
    | dealloc src => simp [Instruction.Separate, Instruction.written, Instruction.operands]
    | _ => cases hlife

theorem Grown.lt_of_mem_outputs (h : Grown vs is) {i : Instruction α} (hi : i ∈ is)
    {id : ValueId} (hid : id ∈ i.outputs) : id < vs.length := by
  obtain ⟨n, outs, hext, houts⟩ := h.extends i hi (Instruction.works_of_mem_outputs hid)
  obtain ⟨v, hv, rfl, -⟩ := houts id (hext.outputs ▸ hid)
  exact h.id_lt hv

/-- No two instructions write the same value. -/
theorem Grown.disjoint_outputs (h : Grown vs is) : ∀ i ∈ is, ∀ j ∈ is, i ≠ j →
    ∀ id ∈ i.outputs, id ∉ j.outputs := by
  induction h with
  | empty => simp
  | weight _ _ _ ih => exact ih
  | dealloc _ ih =>
      intro i hi j hj hne id hid hid'
      simp only [List.mem_append, List.mem_singleton] at hi hj
      rcases hi with hi | rfl
      · rcases hj with hj | rfl
        · exact ih i hi j hj hne id hid hid'
        · cases hid'
      · cases hid
  | @block vs us is i before named _ writer ih =>
      -- the new instruction writes new names, the others write old ones
      have hnew {id : ValueId} (hid : id ∈ i.outputs) : vs.length ≤ id :=
        le_of_mem_block named (writer.outputs ▸ hid)
      intro j hj k hk hne id hid hid'
      simp only [List.append_assoc, List.mem_append, List.mem_map, List.mem_singleton] at hj hk
      rcases hj with hj | ⟨u, -, rfl⟩ | rfl
      · rcases hk with hk | ⟨u, -, rfl⟩ | rfl
        · exact ih j hj k hk hne id hid hid'
        · cases hid'
        · exact Nat.not_lt.mpr (hnew hid') (before.lt_of_mem_outputs hj hid)
      · cases hid
      · rcases hk with hk | ⟨u, -, rfl⟩ | rfl
        · exact Nat.not_lt.mpr (hnew hid) (before.lt_of_mem_outputs hk hid')
        · cases hid'
        · exact hne rfl

/-- Saved coordinates are not written over. -/
theorem Grown.spares (h : Grown vs is) : ∀ i ∈ is, ∀ j ∈ is, i.Spares j := by
  intro i hi j hj q coords hq hkind hnamed hne hlife hwrite
  obtain ⟨n, outs, hext, -⟩ := h.extends i hi hlife
  refine h.disjoint_outputs i hi j hj hne coords (hext.outputs ▸ hext.writes coords hwrite) ?_
  subst hq
  simp [Instruction.outputs, hkind, hnamed]

/-- Every activation is allocated and written. -/
theorem Grown.covers (h : Grown vs is) : ∀ v ∈ vs, v.role = .activation →
    v.id ∈ is.flatMap (·.enlivened) ∧ v.id ∈ is.flatMap (·.outputs) := by
  induction h with
  | empty => simp
  | @weight vs is u _ _ role ih =>
      intro v hv hrole
      rcases List.mem_append.mp hv with hv | hv
      · exact ih v hv hrole
      · obtain rfl := List.mem_singleton.mp hv
        cases role.symm.trans hrole
  | dealloc _ ih =>
      intro v hv hrole
      obtain ⟨hlive, hout⟩ := ih v hv hrole
      exact ⟨by simp [hlive], by simp [hout]⟩
  | @block vs us is i _ _ _ writer ih =>
      intro v hv hrole
      simp only [List.flatMap_append, List.mem_append]
      rcases List.mem_append.mp hv with hv | hv
      · obtain ⟨hlive, hout⟩ := ih v hv hrole
        exact ⟨.inl (.inl hlive), .inl (.inl hout)⟩
      · -- a value of the block is allocated and then written
        refine ⟨.inl (.inr ?_), .inr ?_⟩
        · exact List.mem_flatMap.mpr ⟨.alloc v.id, List.mem_map.mpr ⟨v, hv, rfl⟩, by
            simp [Instruction.enlivened]⟩
        · simp only [List.flatMap_singleton, writer.outputs]
          exact List.mem_map_of_mem hv

/-- Activations are written before they are read. -/
theorem Grown.fed (h : Grown vs is) :
    Fed ((vs.filter fun v => v.role == .weight).map (·.id)) is := by
  induction h with
  | empty => exact .nil
  | weight _ _ _ ih =>
      refine ih.mono fun id hid => ?_
      rw [List.filter_append, List.map_append]
      exact List.mem_append_left _ hid
  | dealloc _ ih => exact ih.append (fed_lifecycle (by simp [Instruction.isLifecycle]))
  | @block vs us is i before _ _ writer ih =>
      -- the instructions so far are fed all the more with the block declared
      have hknown : Fed (((vs ++ us).filter fun v => v.role == .weight).map (·.id)) is := by
        refine ih.mono fun id hid => ?_
        rw [List.filter_append, List.map_append]
        exact List.mem_append_left _ hid
      refine (hknown.append (fed_lifecycle ?_)).append (.cons (fun id hid => ?_) .nil)
      · simp [Instruction.isLifecycle]
      · -- what is read is a weight, or an activation written before
        obtain ⟨v, hv, rfl⟩ := before.exists_value (writer.consulted id hid)
        simp only [List.flatMap_append, List.mem_append, List.mem_map, List.mem_filter, beq_iff_eq]
        rcases hrole : v.role with - | -
        · exact .inr ⟨v, ⟨.inl hv, hrole⟩, rfl⟩
        · exact .inl (.inl (before.covers v hv hrole).2)

/-- A grown program that passes the static check is sound. -/
theorem Grown.sound {p : Program α} (h : Grown p.values p.instructions) (hverify : p.verify = .ok ()) :
    p.Sound where
  placed := h.placed
  checks := checks_of_verify hverify
  separate := h.separate
  spares := h.spares

end Program

end TensorProgram
