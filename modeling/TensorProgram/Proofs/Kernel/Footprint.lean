/-
TensorProgram/Proofs/Kernel/Footprint.lean

The footprint of every kernel.  Running an instruction forward changes at most
the weights of the values it is listed to write, and a gradient only by
bringing an activation to life (`Instruction.moves_forward`).  Running it
backward changes no weight and only the gradients of its receivers
(`Instruction.moves_backward`).  Both hold on every context, also when the
kernel fails half-way or its operands coincide.
-/
import TensorProgram.Kernel.Dispatch
import TensorProgram.Proofs.Context.Evolution

namespace TensorProgram

variable {α : Type} [Scalar α] {W G : List ValueId}

open Context (Evolves moves_updateWeight moves_updateWeightPair moves_updateGrad
  moves_ensureGrad)
open Run (Moves moves_get moves_check moves_compute moves_pure)
open Tensor (moves_onFloats moves_onFloatPair moves_onFloatsAndIndices)

namespace Instruction

/-- The values that running the instruction forward writes or changes in
place. -/
def written (i : Instruction α) : List ValueId :=
  (i.operands.filter fun o => o.2 ≠ .read).map Prod.fst

/-- The activation that the instruction brings to life. -/
def enlivened : Instruction α → List ValueId
  | alloc dest => [dest]
  | _ => []

/-- What the instruction brings to life can be allocated. -/
def Affords (i : Instruction α) (c : Context α) : Prop :=
  ∀ id d, i = .alloc id → c.declared[id]? = some d → d.Allocatable α

/-- The values whose gradient running the instruction backward makes or
changes. -/
def receivers : Instruction α → List ValueId
  | copy i | reshape i | activation _ i => [i.dest, i.src]
  | convolution i => [i.dest, i.filter, i.src, i.bias]
  | pool i => [i.dest, i.src]
  | fullyConnected i => [i.dest, i.src, i.filter, i.bias]
  | softmax i => [i.src]
  | regression i => [i.src]
  | transpose i => [i.dest, i.src]
  | concat i => i.dest :: i.srcs
  | batchNorm i => [i.dest, i.src, i.bias, i.scale]
  | localResponse i => [i.dest, i.src]
  | arithmetic i => [i.dest, i.lhs, i.rhs]
  | alloc _ | dealloc _ => []

variable {i : Instruction α} {id : ValueId}

omit [Scalar α] in
/-- What begins or ends a life changes no gradient on the way back. -/
theorem works_of_mem_receivers (h : id ∈ i.receivers) : i.isLifecycle = false := by
  cases i with
  | alloc dest => cases h
  | dealloc src => cases h
  | _ => rfl

omit [Scalar α] in
/-- Only a lifecycle instruction brings something to life. -/
theorem enlivened_of_works (h : i.isLifecycle = false) : i.enlivened = [] := by
  cases i with
  | alloc dest => cases h
  | _ => rfl

end Instruction

/-! ### Elementwise instructions -/

namespace Unary

variable (i : Unary)

omit [Scalar α] in
theorem moves_move (h : i.dest ∈ W) : Moves (Evolves W G) (i.move : Run (Context α) Unit) :=
  moves_updateWeight h fun _ => .bind (moves_check _) fun _ => moves_onFloats _

theorem moves_moveBack (hdest : i.dest ∈ G) (hsrc : i.src ∈ G) :
    Moves (Evolves W G) (i.moveBack : Run (Context α) Unit) :=
  .bind (moves_ensureGrad hdest) fun _ => moves_updateGrad hsrc fun _ =>
    .bind (moves_check _) fun _ => moves_onFloats _

omit [Scalar α] in
theorem moves_requireAlike (subject : String) :
    Moves (Evolves W G) (i.requireAlike subject : Run (Context α) Unit) :=
  .bind moves_get fun _ => .bind (moves_check _) fun _ => .bind (moves_check _) fun _ =>
    moves_check _

omit [Scalar α] in
theorem moves_requireEquinumerous :
    Moves (Evolves W G) (i.requireEquinumerous : Run (Context α) Unit) :=
  .bind moves_get fun _ => .bind (moves_check _) fun _ => .bind (moves_check _) fun _ =>
    moves_check _

end Unary

namespace Activation

variable (f : Activation) (i : Unary)

theorem moves_forward (h : i.dest ∈ W) :
    Moves (Evolves W G) (f.forward i : Run (Context α) Unit) :=
  .bind (i.moves_requireAlike _) fun _ => moves_updateWeight h fun _ =>
    .bind (moves_check _) fun _ => moves_onFloats _

theorem moves_backward (hdest : i.dest ∈ G) (hsrc : i.src ∈ G) :
    Moves (Evolves W G) (f.backward i : Run (Context α) Unit) :=
  .bind (i.moves_requireAlike _) fun _ => .bind (moves_ensureGrad hdest) fun _ =>
    moves_updateGrad hsrc fun _ => .bind (moves_check _) fun _ => .bind (moves_check _) fun _ =>
      moves_onFloats _

end Activation

namespace Arithmetic

variable (i : Arithmetic)

omit [Scalar α] in
theorem moves_requireAlike : Moves (Evolves W G) (i.requireAlike : Run (Context α) Unit) :=
  .bind moves_get fun _ => .bind (moves_check _) fun _ => .bind (moves_check _) fun _ =>
    .bind (moves_check _) fun _ => .bind (moves_check _) fun _ => moves_check _

theorem moves_forward (h : i.dest ∈ W) :
    Moves (Evolves W G) (i.forward : Run (Context α) Unit) :=
  .bind i.moves_requireAlike fun _ => moves_updateWeight h fun _ =>
    .bind (moves_check _) fun _ => .bind (moves_check _) fun _ => moves_onFloats _

theorem moves_backwardInto (policy : GradientPolicy) {target : ValueId} (other : ValueId)
    (h : target ∈ G) :
    Moves (Evolves W G) (i.backwardInto policy target other : Run (Context α) Unit) :=
  moves_updateGrad h fun _ => .bind (moves_check _) fun _ => .bind (moves_check _) fun _ =>
    moves_onFloats _

theorem moves_backward (policy : GradientPolicy) (hdest : i.dest ∈ G) (hlhs : i.lhs ∈ G)
    (hrhs : i.rhs ∈ G) : Moves (Evolves W G) (i.backward policy : Run (Context α) Unit) :=
  .bind i.moves_requireAlike fun _ => .bind (moves_ensureGrad hdest) fun _ =>
    .bind (i.moves_backwardInto policy _ hlhs) fun _ => i.moves_backwardInto policy _ hrhs

end Arithmetic

/-! ### Rearrangements -/

namespace Transpose

variable (i : Transpose)

omit [Scalar α] in
theorem moves_forward (h : i.dest ∈ W) :
    Moves (Evolves W G) (i.forward : Run (Context α) Unit) :=
  moves_updateWeight h fun _ => .bind (moves_check _) fun _ => moves_onFloats _

theorem moves_backward (policy : GradientPolicy) (hdest : i.dest ∈ G) (hsrc : i.src ∈ G) :
    Moves (Evolves W G) (i.backward policy : Run (Context α) Unit) :=
  .bind (moves_check _) fun _ => .bind (moves_ensureGrad hdest) fun _ =>
    moves_updateGrad hsrc fun _ => .bind (moves_check _) fun _ => moves_onFloats _

end Transpose

namespace Concat

variable (i : Concat)

omit [Scalar α] in
theorem moves_forward (h : i.dest ∈ W) :
    Moves (Evolves W G) (i.forward : Run (Context α) Unit) :=
  .bind moves_get fun _ => .bind (moves_check _) fun _ =>
    moves_updateWeight h fun _ => moves_onFloats _

omit [Scalar α] in
/-- The walk that lays the blocks adds those of the operands it visits, in order. -/
theorem map_fst_of_walk {ctx : Context α} {dest : Shape} {ids : List ValueId}
    {bs laid : List (ValueId × List Nat)} {start covered : Nat}
    (h : ids.foldlM (fun (p : List (ValueId × List Nat) × Nat) id => do
      let next ← i.blockEnd dest (← ctx.shapeOf id) p.2
      return (p.1 ++ [(id, i.origin dest.rank p.2)], next)) (bs, start) = .ok (laid, covered)) :
    laid.map Prod.fst = bs.map Prod.fst ++ ids := by
  -- along the operands still to come, for any blocks `bs` laid before them
  induction ids generalizing bs start with
  | nil =>
      obtain ⟨rfl, -⟩ := Prod.mk.inj (Except.ok.inj h)
      simp
  | cons id ids ih =>
      rw [List.foldlM_cons] at h
      obtain ⟨⟨bs', start'⟩, hstep, h⟩ := Except.bind_eq_ok.mp h
      obtain ⟨s, -, hstep⟩ := Except.bind_eq_ok.mp hstep
      obtain ⟨next, -, hstep⟩ := Except.bind_eq_ok.mp hstep
      obtain ⟨rfl, -⟩ := Prod.mk.inj (Except.ok.inj hstep)
      rw [ih h]
      simp

omit [Scalar α] in
/-- The blocks are those of the operands, in order. -/
theorem map_fst_blocks {ctx : Context α} {blocks : List (ValueId × List Nat)}
    (h : i.blocks ctx = .ok blocks) : blocks.map Prod.fst = i.srcs := by
  rw [Concat.blocks] at h
  obtain ⟨dest, -, h⟩ := Except.bind_eq_ok.mp h
  obtain ⟨extent, -, h⟩ := Except.bind_eq_ok.mp h
  obtain ⟨⟨laid, covered⟩, hwalk, h⟩ := Except.bind_eq_ok.mp h
  dsimp only at h
  split at h
  · obtain rfl := Except.ok.inj h
    exact i.map_fst_of_walk hwalk
  · cases h

theorem moves_backward (policy : GradientPolicy) (hdest : i.dest ∈ G)
    (hsrcs : ∀ src ∈ i.srcs, src ∈ G) :
    Moves (Evolves W G) (i.backward policy : Run (Context α) Unit) := by
  refine .bind moves_get fun ctx => ?_
  rcases hblocks : i.blocks ctx with e | blocks
  · exact Run.moves_report e
  · rw [Run.liftM_check_ok, pure_bind]
    refine .bind (moves_ensureGrad hdest) fun _ => .forM fun block hblock => ?_
    have hsrc : block.1 ∈ i.srcs := by
      rw [← i.map_fst_blocks hblocks]
      exact List.mem_map_of_mem hblock
    exact moves_updateGrad (hsrcs _ hsrc) fun _ => .bind (moves_check _) fun _ => moves_onFloats _

end Concat

/-! ### Images -/

namespace Convolution

variable (i : Convolution)

theorem moves_forward (h : i.dest ∈ W) :
    Moves (Evolves W G) (i.forward : Run (Context α) Unit) :=
  .bind moves_get fun _ => .bind (moves_check _) fun _ => moves_updateWeight h fun _ =>
    .bind (moves_check _) fun _ => .bind (moves_check _) fun _ => .bind (moves_check _) fun _ =>
      moves_onFloats _

theorem moves_backward (source : FilterGradSource) (hdest : i.dest ∈ G) (hfilter : i.filter ∈ G)
    (hsrc : i.src ∈ G) (hbias : i.bias ∈ G) :
    Moves (Evolves W G) (i.backward source : Run (Context α) Unit) :=
  .bind moves_get fun _ => .bind (moves_check _) fun _ => .bind (moves_ensureGrad hdest) fun _ =>
    .bind moves_get fun _ => .bind (moves_check _) fun _ => .bind (moves_check _) fun _ =>
      .bind
        (moves_updateGrad hfilter fun _ => .bind (moves_check _) fun _ =>
          .bind (moves_check _) fun _ => moves_onFloats _) fun _ =>
      .bind
        (moves_updateGrad hsrc fun _ => .bind (moves_check _) fun _ =>
          .bind (moves_check _) fun _ => moves_onFloats _) fun _ =>
      moves_updateGrad hbias fun _ => .bind (moves_check _) fun _ => moves_onFloats _

end Convolution

namespace Pool

variable (i : Pool)

omit [Scalar α] in
theorem savedIn_eq_ok {ctx : Context α} {output : NHWC} {coords : ValueId}
    (h : i.savedIn ctx output = .ok coords) : i.coords = some coords := by
  rw [savedIn] at h
  rcases hcoords : i.coords with - | id
  · rw [hcoords] at h
    cases h
  · rw [hcoords] at h
    obtain ⟨s, -, h⟩ := Except.bind_eq_ok.mp h
    obtain ⟨-, -, h⟩ := Except.bind_eq_ok.mp h
    exact congrArg some (Except.ok.inj h)

theorem moves_forwardMax (hdest : i.dest ∈ W) (hcoords : ∀ id, i.coords = some id → id ∈ W) :
    Moves (Evolves W G) (i.forwardMax : Run (Context α) Unit) := by
  refine .bind moves_get fun _ => .bind (moves_check _) fun dims => .bind moves_get fun ctx => ?_
  rcases hsaved : i.savedIn ctx dims.output with e | coords
  · exact Run.moves_report e
  · rw [Run.liftM_check_ok, pure_bind]
    exact moves_updateWeightPair hdest (hcoords _ (i.savedIn_eq_ok hsaved)) fun _ =>
      .bind (moves_check _) fun _ => moves_onFloatsAndIndices _

theorem moves_forwardAvg (hdest : i.dest ∈ W) :
    Moves (Evolves W G) (i.forwardAvg : Run (Context α) Unit) :=
  .bind moves_get fun _ => .bind (moves_check _) fun _ => moves_updateWeight hdest fun _ =>
    .bind (moves_check _) fun _ => moves_onFloats _

theorem moves_forward (hdest : i.dest ∈ W) (hcoords : ∀ id, i.coords = some id → id ∈ W) :
    Moves (Evolves W G) (i.forward : Run (Context α) Unit) := by
  rw [forward]
  cases i.kind with
  | max => exact i.moves_forwardMax hdest hcoords
  | avg => exact i.moves_forwardAvg hdest

theorem moves_backward (hdest : i.dest ∈ G) (hsrc : i.src ∈ G) :
    Moves (Evolves W G) (i.backward : Run (Context α) Unit) := by
  rw [backward]
  cases i.kind with
  | max =>
      exact .bind moves_get fun _ => .bind (moves_check _) fun _ => .bind moves_get fun _ =>
        .bind (moves_check _) fun _ => .bind (moves_ensureGrad hdest) fun _ =>
          moves_updateGrad hsrc fun _ => .bind (moves_check _) fun _ =>
            .bind (moves_check _) fun _ => moves_onFloats _
  | avg =>
      exact .bind moves_get fun _ => .bind (moves_check _) fun _ =>
        .bind (moves_ensureGrad hdest) fun _ => moves_updateGrad hsrc fun _ =>
          .bind (moves_check _) fun _ => moves_onFloats _

end Pool

/-! ### Rows -/

namespace FullyConnected

variable (i : FullyConnected)

theorem moves_forward (h : i.dest ∈ W) :
    Moves (Evolves W G) (i.forward : Run (Context α) Unit) :=
  .bind moves_get fun _ => .bind (moves_check _) fun _ => moves_updateWeight h fun _ =>
    .bind (moves_check _) fun _ => .bind (moves_check _) fun _ => .bind (moves_check _) fun _ =>
      moves_onFloats _

theorem moves_backward (hdest : i.dest ∈ G) (hsrc : i.src ∈ G) (hfilter : i.filter ∈ G)
    (hbias : i.bias ∈ G) : Moves (Evolves W G) (i.backward : Run (Context α) Unit) :=
  .bind moves_get fun _ => .bind (moves_check _) fun _ => .bind (moves_ensureGrad hdest) fun _ =>
    .bind
      (moves_updateGrad hsrc fun _ => .bind (moves_check _) fun _ =>
        .bind (moves_check _) fun _ => .bind (moves_check _) fun _ => moves_onFloats _) fun _ =>
    .bind
      (moves_updateGrad hfilter fun _ => .bind (moves_check _) fun _ =>
        .bind (moves_check _) fun _ => moves_onFloats _) fun _ =>
    moves_updateGrad hbias fun _ => .bind (moves_check _) fun _ => moves_onFloats _

end FullyConnected

namespace Softmax

variable (i : Softmax)

theorem moves_forward (hdest : i.dest ∈ W) (hsaved : i.saved ∈ W) :
    Moves (Evolves W G) (i.forward : Run (Context α) Unit) :=
  .bind moves_get fun _ => .bind (moves_check _) fun _ =>
    moves_updateWeightPair hdest hsaved fun _ => .bind (moves_check _) fun _ =>
      moves_onFloatPair _

theorem moves_backward (hsrc : i.src ∈ G) :
    Moves (Evolves W G) (i.backward : Run (Context α) Unit) :=
  .bind moves_get fun _ => .bind (moves_check _) fun _ => .bind moves_get fun _ =>
    .bind (moves_check _) fun _ => .bind (moves_check _) fun _ => moves_updateGrad hsrc fun _ =>
      .bind (moves_check _) fun _ => .bind (moves_check _) fun _ => moves_onFloats _

end Softmax

namespace Regression

variable (i : Regression)

omit [Scalar α] in
theorem moves_forward (h : i.dest ∈ W) :
    Moves (Evolves W G) (i.forward : Run (Context α) Unit) :=
  .bind moves_get fun _ => .bind (moves_check _) fun _ => .bind (moves_check _) fun _ =>
    .bind (moves_check _) fun _ => Unary.moves_move _ h

theorem moves_backward (hsrc : i.src ∈ G) :
    Moves (Evolves W G) (i.backward : Run (Context α) Unit) :=
  .bind moves_get fun _ => .bind (moves_check _) fun _ => .bind (moves_check _) fun _ =>
    .bind (moves_check _) fun _ => .bind (moves_check _) fun _ => moves_updateGrad hsrc fun _ =>
      .bind (moves_check _) fun _ => .bind (moves_check _) fun _ => moves_onFloats _

end Regression

/-! ### Normalizations -/

namespace BatchNorm

variable (i : BatchNorm α)

theorem moves_updateStatistics (ch : Channels) (hmean : i.mean ∈ W) (hvar : i.var ∈ W) :
    Moves (Evolves W G) (i.updateStatistics ch) :=
  .bind moves_get fun _ => .bind (moves_check _) fun _ => .bind (moves_compute _) fun _ =>
    .bind (moves_compute _) fun _ => moves_updateWeightPair hmean hvar fun _ =>
      moves_onFloatPair _

theorem moves_normalize (hdest : i.dest ∈ W) : Moves (Evolves W G) i.normalize :=
  moves_updateWeight hdest fun _ => .bind (moves_check _) fun _ => .bind (moves_check _) fun _ =>
    .bind (moves_check _) fun _ => .bind (moves_check _) fun _ => .bind (moves_check _) fun _ =>
      moves_onFloats _

theorem moves_forward (train : Bool) (hdest : i.dest ∈ W) (hmean : i.mean ∈ W)
    (hvar : i.var ∈ W) : Moves (Evolves W G) (i.forward train) := by
  refine .bind moves_get fun _ => .bind (moves_check _) fun ch => ?_
  cases train with
  | true => exact .bind (i.moves_updateStatistics ch hmean hvar) fun _ => i.moves_normalize hdest
  | false => exact i.moves_normalize hdest

theorem moves_backward (hdest : i.dest ∈ G) (hsrc : i.src ∈ G) (hbias : i.bias ∈ G)
    (hscale : i.scale ∈ G) : Moves (Evolves W G) i.backward :=
  .bind moves_get fun _ => .bind (moves_check _) fun _ => .bind (moves_ensureGrad hdest) fun _ =>
    .bind moves_get fun _ => .bind (moves_check _) fun _ => .bind (moves_check _) fun _ =>
    .bind (moves_check _) fun _ => .bind (moves_compute _) fun _ =>
    .bind
      (moves_updateGrad hsrc fun _ => .bind (moves_check _) fun _ =>
        .bind (moves_check _) fun _ => .bind (moves_check _) fun _ =>
        .bind (moves_check _) fun _ => .bind (moves_check _) fun _ => moves_onFloats _) fun _ =>
    .bind
      (moves_updateGrad hbias fun _ => .bind (moves_check _) fun _ =>
        .bind (moves_check _) fun _ => moves_onFloats _) fun _ =>
    moves_updateGrad hscale fun _ => .bind (moves_check _) fun _ => .bind (moves_check _) fun _ =>
      .bind (moves_check _) fun _ => .bind (moves_check _) fun _ => moves_onFloats _

end BatchNorm

namespace LocalResponse

variable (i : LocalResponse α)

theorem moves_forward (hdest : i.dest ∈ W) (hscale : i.scale ∈ W) :
    Moves (Evolves W G) i.forward :=
  .bind moves_get fun _ => .bind (moves_check _) fun _ =>
    moves_updateWeightPair hdest hscale fun _ => .bind (moves_check _) fun _ =>
      moves_onFloatPair _

theorem moves_backward (policy : GradientPolicy) (hdest : i.dest ∈ G) (hsrc : i.src ∈ G) :
    Moves (Evolves W G) (i.backward policy) :=
  .bind moves_get fun _ => .bind (moves_check _) fun _ => .bind (moves_ensureGrad hdest) fun _ =>
    moves_updateGrad hsrc fun _ => .bind (moves_check _) fun _ => .bind (moves_check _) fun _ =>
      .bind (moves_check _) fun _ => .bind (moves_check _) fun _ => moves_onFloats _

end LocalResponse

/-! ### Lifecycle -/

namespace Context

variable {c : Context α} {id : ValueId} {d : Declaration}

/-- What is not declared does not come to life. -/
theorem enliven_of_undeclared (h : c.declared[id]? = none) :
    enliven id c = .error (.error (.undeclaredValue id)) c := by
  rw [enliven, Run.get_bind_apply, declaration, h]
  rfl

/-- What is declared comes to life in one change of the context, if it can be
allocated. -/
theorem enliven_of_allocatable (hd : c.declared[id]? = some d) (hfits : d.Allocatable α) :
    enliven id c = change (·.enlivened id) c := by
  rw [enliven, Run.get_bind_apply, declaration, hd, Run.liftM_check_ok, pure_bind, if_pos hfits]

/-- What cannot be allocated is a fault. -/
theorem enliven_of_not_allocatable (hd : c.declared[id]? = some d) (hfits : ¬ d.Allocatable α) :
    enliven id c = .error .fault c := by
  rw [enliven, Run.get_bind_apply, declaration, hd, Run.liftM_check_ok, pure_bind, if_neg hfits]
  rfl

/-- The context is left alone, or the activation comes to life in one change. -/
theorem enliven_cases (c : Context α) (id : ValueId) :
    (∃ e, enliven id c = .error e c) ∨ enliven id c = change (·.enlivened id) c := by
  rcases hd : c.declared[id]? with - | d
  · exact .inl ⟨_, enliven_of_undeclared hd⟩
  by_cases hfits : d.Allocatable α
  · exact .inr (enliven_of_allocatable hd hfits)
  · exact .inl ⟨_, enliven_of_not_allocatable hd hfits⟩

theorem moves_enliven (hW : id ∈ W) (hG : id ∈ G) :
    Moves (Evolves W G) (enliven id : Run (Context α) Unit) := by
  intro c
  rcases enliven_cases c id with ⟨e, hfail⟩ | hchange
  · rw [Run.after_of_error hfail]
    exact .refl W G c
  rw [Run.after, hchange, change, enlivened, allocate]
  rcases ht : c.allocated id with e | t
  · exact .refl W G c
  have hset : Evolves W G c (c.setWeight id t) := by
    refine evolves_setWeight hW fun _ d hd => ?_
    rw [declaration_allocated ht] at hd
    exact Option.some.inj hd
  rcases hg : (c.setWeight id t).gradOrZeros id with e | g
  · simp only [Except.ok_bind, Except.pure_eq_ok, hg, Except.error_bind]
    exact .refl W G c
  · simp only [Except.ok_bind, Except.pure_eq_ok, hg]
    refine hset.trans (evolves_setGrad hG fun hc d hd => ?_)
    rw [Tensor.zero, Tensor.declaration_zerosLike]
    exact hc.gradOrZeros hd hg

end Context

/-! ### Every instruction -/

namespace Instruction

variable (i : Instruction α)

/-- An instruction that cannot bring to life what it has to is a fault and changes
nothing. -/
theorem forward_of_not_affords (i : Instruction α) (train : Bool) {c : Context α}
    (h : ¬ i.Affords c) : i.forward train c = .error .fault c := by
  simp only [Affords, not_forall] at h
  obtain ⟨id, d, rfl, hd, hlarge⟩ := h
  exact Context.enliven_of_not_allocatable hd hlarge

/-- Running an instruction forward changes only what it is listed to write; a
gradient changes only when an activation comes to life. -/
theorem moves_forward (train : Bool) :
    Moves (Evolves i.written i.enlivened) (i.forward train) := by
  cases i with
  | copy i => exact .bind (i.moves_requireAlike _) fun _ => i.moves_move (by simp [written, operands])
  | reshape i =>
      exact .bind i.moves_requireEquinumerous fun _ => i.moves_move (by simp [written, operands])
  | activation f i => exact f.moves_forward i (by simp [written, operands])
  | convolution i => exact i.moves_forward (by simp [written, operands])
  | pool i =>
      exact i.moves_forward (by simp [written, operands])
        fun id hid => by simp [written, operands, hid]
  | fullyConnected i => exact i.moves_forward (by simp [written, operands])
  | softmax i => exact i.moves_forward (by simp [written, operands]) (by simp [written, operands])
  | regression i => exact i.moves_forward (by simp [written, operands])
  | transpose i => exact i.moves_forward (by simp [written, operands])
  | concat i => exact i.moves_forward (by simp [written, operands])
  | batchNorm i =>
      exact i.moves_forward train (by simp [written, operands]) (by simp [written, operands])
        (by simp [written, operands])
  | localResponse i =>
      exact i.moves_forward (by simp [written, operands]) (by simp [written, operands])
  | arithmetic i => exact i.moves_forward (by simp [written, operands])
  | alloc dest =>
      exact Context.moves_enliven (by simp [written, operands]) (by simp [enlivened])
  | dealloc src => exact moves_pure ()

/-- Running an instruction backward changes no weight and only the gradients of
its receivers. -/
theorem moves_backward (config : Config α) :
    Moves (Evolves [] i.receivers) (i.backward config) := by
  cases i with
  | copy i =>
      exact .bind (i.moves_requireAlike _) fun _ =>
        i.moves_moveBack (by simp [receivers]) (by simp [receivers])
  | reshape i =>
      exact .bind i.moves_requireEquinumerous fun _ =>
        i.moves_moveBack (by simp [receivers]) (by simp [receivers])
  | activation f i => exact f.moves_backward i (by simp [receivers]) (by simp [receivers])
  | convolution i =>
      exact i.moves_backward _ (by simp [receivers]) (by simp [receivers]) (by simp [receivers])
        (by simp [receivers])
  | pool i => exact i.moves_backward (by simp [receivers]) (by simp [receivers])
  | fullyConnected i =>
      exact i.moves_backward (by simp [receivers]) (by simp [receivers]) (by simp [receivers])
        (by simp [receivers])
  | softmax i => exact i.moves_backward (by simp [receivers])
  | regression i => exact i.moves_backward (by simp [receivers])
  | transpose i => exact i.moves_backward _ (by simp [receivers]) (by simp [receivers])
  | concat i =>
      exact i.moves_backward _ (by simp [receivers]) fun src hsrc => by simp [receivers, hsrc]
  | batchNorm i =>
      exact i.moves_backward (by simp [receivers]) (by simp [receivers]) (by simp [receivers])
        (by simp [receivers])
  | localResponse i => exact i.moves_backward _ (by simp [receivers]) (by simp [receivers])
  | arithmetic i =>
      exact i.moves_backward _ (by simp [receivers]) (by simp [receivers]) (by simp [receivers])
  | alloc _ => exact moves_pure ()
  | dealloc _ => exact moves_pure ()

end Instruction

end TensorProgram
