/-
TensorProgram/Proofs/Kernel/Locality.lean

What a kernel looks at.  Running an instruction forward reads and writes only
what is known of its operands: on two contexts that are similar there it ends
alike, and if it succeeds then the contexts it leaves are similar there again
(`Instruction.carries_forward`).  This holds of every instruction on all
contexts, whether or not the kernel succeeds and whether or not its operands
coincide.
-/
import TensorProgram.Kernel.Dispatch
import TensorProgram.Proofs.Context.Agreement
import TensorProgram.Proofs.Kernel.Footprint

namespace TensorProgram

variable {α : Type} {S : List ValueId} {W G : ValueId → Prop} {c d : Context α}

open Context (Agree Similar carries_updateWeight carries_updateWeightPair)
open Run (Carries carries_get carries_check carries_compute carries_pure)

/-! ### Elementwise instructions -/

namespace Unary

variable (i : Unary)

/-- Comparing the shapes of two weights reads only these. -/
theorem carries_requireAlike {R : Context α → Context α → Prop} (subject : String)
    (hR : ∀ c d, R c d → Agree W G c d) (hdest : W i.dest) (hsrc : W i.src) :
    Carries R R (i.requireAlike subject) :=
  carries_get (fun c d h => by rw [(hR c d h).shapeOf hsrc, (hR c d h).shapeOf hdest]) fun _ =>
    .bind (carries_check _) fun _ => .bind (carries_check _) fun _ => carries_check _

theorem carries_requireEquinumerous {R : Context α → Context α → Prop}
    (hR : ∀ c d, R c d → Agree W G c d) (hdest : W i.dest) (hsrc : W i.src) :
    Carries R R i.requireEquinumerous :=
  carries_get (fun c d h => by rw [(hR c d h).shapeOf hsrc, (hR c d h).shapeOf hdest]) fun _ =>
    .bind (carries_check _) fun _ => .bind (carries_check _) fun _ => carries_check _

theorem carries_move (hdest : i.dest ∈ S) (hsrc : i.src ∈ S) :
    Carries (Similar S) (Similar S) (i.move : Run (Context α) Unit) :=
  carries_updateWeight hdest fun _ _ h => by rw [h.floats hsrc]

end Unary

section Scalars

variable [Scalar α]

theorem Activation.carries_forward (f : Activation) (i : Unary) (hdest : i.dest ∈ S)
    (hsrc : i.src ∈ S) :
    Carries (Similar S) (Similar S) (f.forward i : Run (Context α) Unit) :=
  .bind (i.carries_requireAlike _ (fun _ _ h => h.toAgree) hdest hsrc) fun _ =>
    carries_updateWeight hdest fun _ _ h => by rw [h.floats hsrc]

namespace Arithmetic

variable (i : Arithmetic)

omit [Scalar α] in
theorem carries_requireAlike {R : Context α → Context α → Prop}
    (hR : ∀ c d, R c d → Agree W G c d) (hdest : W i.dest) (hlhs : W i.lhs) (hrhs : W i.rhs) :
    Carries R R i.requireAlike :=
  carries_get
    (fun c d h => by
      rw [(hR c d h).shapeOf hdest, (hR c d h).shapeOf hlhs, (hR c d h).shapeOf hrhs])
    fun _ => .bind (carries_check _) fun _ => .bind (carries_check _) fun _ =>
      .bind (carries_check _) fun _ => .bind (carries_check _) fun _ => carries_check _

theorem carries_forward (hdest : i.dest ∈ S) (hlhs : i.lhs ∈ S) (hrhs : i.rhs ∈ S) :
    Carries (Similar S) (Similar S) (i.forward : Run (Context α) Unit) :=
  .bind (i.carries_requireAlike (fun _ _ h => h.toAgree) hdest hlhs hrhs) fun _ =>
    carries_updateWeight hdest fun _ _ h => by rw [h.floats hlhs, h.floats hrhs]

end Arithmetic

/-! ### Rearrangements -/

omit [Scalar α] in
theorem Transpose.carries_forward (i : Transpose) (hdest : i.dest ∈ S) (hsrc : i.src ∈ S) :
    Carries (Similar S) (Similar S) (i.forward : Run (Context α) Unit) :=
  carries_updateWeight hdest fun _ _ h => by rw [h.floats hsrc]

namespace Concat

variable (i : Concat)

omit [Scalar α] in
theorem blocks_congr (h : Agree W G c d) (hdest : W i.dest) (hsrcs : ∀ src ∈ i.srcs, W src) :
    i.blocks d = i.blocks c := by
  -- the fold visits the operands, and looks at nothing but their shapes
  have hfold (rank : Nat) (dest : Shape) (start : List (ValueId × List Nat) × Nat) :
      i.srcs.foldlM (fun (p : List (ValueId × List Nat) × Nat) id => do
        let next ← i.blockEnd dest (← d.shapeOf id) p.2
        return (p.1 ++ [(id, i.origin rank p.2)], next)) start
      = i.srcs.foldlM (fun (p : List (ValueId × List Nat) × Nat) id => do
        let next ← i.blockEnd dest (← c.shapeOf id) p.2
        return (p.1 ++ [(id, i.origin rank p.2)], next)) start :=
    Except.foldlM_congr (fun p src hsrc => by rw [h.shapeOf (hsrcs src hsrc)]) start
  rw [blocks, blocks, h.shapeOf hdest]
  congr 1
  funext dest
  congr 1
  funext extent
  exact congrArg (· >>= _) (hfold dest.rank dest ([], 0))

omit [Scalar α] in
theorem carries_forward (hdest : i.dest ∈ S) (hsrcs : ∀ src ∈ i.srcs, src ∈ S) :
    Carries (Similar S) (Similar S) (i.forward : Run (Context α) Unit) := by
  refine carries_get (fun c d h => ?_) fun ctx => ?_
  · rw [i.blocks_congr h.toAgree hdest hsrcs]
  · rcases hblocks : i.blocks ctx with e | blocks
    · exact Run.carries_report e
    rw [Run.liftM_check_ok, pure_bind]
    refine carries_updateWeight hdest fun c d h => congrArg _ (funext fun s => ?_)
    refine Run.forM_congr fun (id, origin) hblock => ?_
    have hsrc : id ∈ i.srcs := by
      rw [← i.map_fst_blocks hblocks]
      exact List.mem_map_of_mem hblock
    simp only [h.floats (hsrcs id hsrc)]

end Concat

/-! ### Images -/

namespace Convolution

variable (i : Convolution)

omit [Scalar α] in
theorem dims_congr (h : Agree W G c d) (hdest : W i.dest) (hsrc : W i.src) (hfilter : W i.filter)
    (hbias : W i.bias) : i.dims d = i.dims c := by
  rw [dims, dims, h.shapeOf hsrc, h.shapeOf hdest, h.shapeOf hfilter, h.shapeOf hbias]

theorem carries_forward (hdest : i.dest ∈ S) (hsrc : i.src ∈ S) (hfilter : i.filter ∈ S)
    (hbias : i.bias ∈ S) : Carries (Similar S) (Similar S) (i.forward : Run (Context α) Unit) :=
  carries_get (fun _ _ h => by rw [i.dims_congr h.toAgree hdest hsrc hfilter hbias]) fun _ =>
    .bind (carries_check _) fun _ => carries_updateWeight hdest fun _ _ h => by
      rw [h.floats hsrc, h.floats hfilter, h.floats hbias]

end Convolution

namespace Pool

variable (i : Pool)

omit [Scalar α] in
theorem dims_congr (h : Agree W G c d) (hdest : W i.dest) (hsrc : W i.src) :
    i.dims d = i.dims c := by
  rw [dims, dims, h.shapeOf hsrc, h.shapeOf hdest]

omit [Scalar α] in
theorem savedIn_congr (h : Agree W G c d) (hcoords : ∀ id, i.coords = some id → W id)
    (output : NHWC) : i.savedIn d output = i.savedIn c output := by
  rw [savedIn, savedIn]
  rcases hid : i.coords with - | id
  · rfl
  · simp only [h.shapeOf (hcoords id hid)]

theorem carries_forwardMax (hdest : i.dest ∈ S) (hsrc : i.src ∈ S)
    (hcoords : ∀ id, i.coords = some id → id ∈ S) :
    Carries (Similar S) (Similar S) (i.forwardMax : Run (Context α) Unit) := by
  refine carries_get (fun _ _ h => by rw [i.dims_congr h.toAgree hdest hsrc]) fun _ =>
    .bind (carries_check _) fun dims =>
    carries_get (fun _ _ h => by rw [i.savedIn_congr h.toAgree hcoords]) fun ctx => ?_
  rcases hsaved : i.savedIn ctx dims.output with e | coords
  · exact Run.carries_report e
  · rw [Run.liftM_check_ok, pure_bind]
    exact carries_updateWeightPair hdest (hcoords _ (i.savedIn_eq_ok hsaved)) fun _ _ h => by
      rw [h.floats hsrc]

theorem carries_forwardAvg (hdest : i.dest ∈ S) (hsrc : i.src ∈ S) :
    Carries (Similar S) (Similar S) (i.forwardAvg : Run (Context α) Unit) :=
  carries_get (fun _ _ h => by rw [i.dims_congr h.toAgree hdest hsrc]) fun _ =>
    .bind (carries_check _) fun _ => carries_updateWeight hdest fun _ _ h => by
      rw [h.floats hsrc]

theorem carries_forward (hdest : i.dest ∈ S) (hsrc : i.src ∈ S)
    (hcoords : ∀ id, i.coords = some id → id ∈ S) :
    Carries (Similar S) (Similar S) (i.forward : Run (Context α) Unit) := by
  rw [forward]
  cases i.kind with
  | max => exact i.carries_forwardMax hdest hsrc hcoords
  | avg => exact i.carries_forwardAvg hdest hsrc

end Pool

/-! ### Rows -/

namespace FullyConnected

variable (i : FullyConnected)

omit [Scalar α] in
theorem dims_congr (h : Agree W G c d) (hdest : W i.dest) (hsrc : W i.src) (hfilter : W i.filter)
    (hbias : W i.bias) : i.dims d = i.dims c := by
  rw [dims, dims, h.shapeOf hsrc, h.shapeOf hdest, h.shapeOf hfilter, h.shapeOf hbias]

theorem carries_forward (hdest : i.dest ∈ S) (hsrc : i.src ∈ S) (hfilter : i.filter ∈ S)
    (hbias : i.bias ∈ S) : Carries (Similar S) (Similar S) (i.forward : Run (Context α) Unit) :=
  carries_get (fun _ _ h => by rw [i.dims_congr h.toAgree hdest hsrc hfilter hbias]) fun _ =>
    .bind (carries_check _) fun _ => carries_updateWeight hdest fun _ _ h => by
      rw [h.floats hsrc, h.floats hfilter, h.floats hbias]

end FullyConnected

namespace Softmax

variable (i : Softmax)

omit [Scalar α] in
theorem dims_congr (h : Agree W G c d) (hdest : W i.dest) (hsrc : W i.src) (hsaved : W i.saved) :
    i.dims d = i.dims c := by
  rw [dims, dims, h.shapeOf hsrc, h.shapeOf hdest, h.shapeOf hsaved]

theorem carries_forward (hdest : i.dest ∈ S) (hsrc : i.src ∈ S) (hsaved : i.saved ∈ S) :
    Carries (Similar S) (Similar S) (i.forward : Run (Context α) Unit) :=
  carries_get (fun _ _ h => by rw [i.dims_congr h.toAgree hdest hsrc hsaved]) fun _ =>
    .bind (carries_check _) fun _ => carries_updateWeightPair hdest hsaved fun _ _ h => by
      rw [h.floats hsrc]

end Softmax

omit [Scalar α] in
theorem Regression.carries_forward (i : Regression) (hdest : i.dest ∈ S) (hsrc : i.src ∈ S) :
    Carries (Similar S) (Similar S) (i.forward : Run (Context α) Unit) :=
  carries_get (fun _ _ h => by rw [h.shapeOf hsrc, h.shapeOf hdest]) fun _ =>
    .bind (carries_check _) fun _ => .bind (carries_check _) fun _ =>
      .bind (carries_check _) fun _ => Unary.carries_move _ hdest hsrc

/-! ### Normalizations -/

namespace BatchNorm

variable (i : BatchNorm α)

omit [Scalar α] in
theorem channels_congr (h : Agree W G c d) (hdest : W i.dest) (hsrc : W i.src)
    (hscale : W i.scale) (hbias : W i.bias) (hmean : W i.mean) (hvar : W i.var) :
    i.channels d = i.channels c := by
  rw [channels, channels, h.shapeOf hsrc, h.shapeOf hdest, h.shapeOf hscale, h.shapeOf hbias,
    h.shapeOf hmean, h.shapeOf hvar]

theorem carries_updateStatistics (ch : Channels) (hsrc : i.src ∈ S) (hmean : i.mean ∈ S)
    (hvar : i.var ∈ S) : Carries (Similar S) (Similar S) (i.updateStatistics ch) :=
  carries_get (fun _ _ h => by rw [h.floats hsrc]) fun _ => .bind (carries_check _) fun _ =>
    .bind (carries_compute _) fun _ => .bind (carries_compute _) fun _ =>
      carries_updateWeightPair hmean hvar fun _ _ _ => rfl

theorem carries_normalize (hdest : i.dest ∈ S) (hsrc : i.src ∈ S) (hscale : i.scale ∈ S)
    (hbias : i.bias ∈ S) (hmean : i.mean ∈ S) (hvar : i.var ∈ S) :
    Carries (Similar S) (Similar S) i.normalize :=
  carries_updateWeight hdest fun _ _ h => by
    rw [h.floats hsrc, h.floats hscale, h.floats hbias, h.floats hmean, h.floats hvar]

theorem carries_forward (train : Bool) (hdest : i.dest ∈ S) (hsrc : i.src ∈ S)
    (hscale : i.scale ∈ S) (hbias : i.bias ∈ S) (hmean : i.mean ∈ S) (hvar : i.var ∈ S) :
    Carries (Similar S) (Similar S) (i.forward train) := by
  have hnormalize := i.carries_normalize hdest hsrc hscale hbias hmean hvar
  refine carries_get
    (fun _ _ h => by rw [i.channels_congr h.toAgree hdest hsrc hscale hbias hmean hvar])
    fun _ => .bind (carries_check _) fun ch => ?_
  cases train with
  | true => exact .bind (i.carries_updateStatistics ch hsrc hmean hvar) fun _ => hnormalize
  | false => exact hnormalize

end BatchNorm

namespace LocalResponse

variable (i : LocalResponse α)

omit [Scalar α] in
theorem dims_congr (h : Agree W G c d) (hdest : W i.dest) (hsrc : W i.src) (hscale : W i.scale) :
    i.dims d = i.dims c := by
  rw [dims, dims, h.shapeOf hsrc, h.shapeOf hdest, h.shapeOf hscale]

theorem carries_forward (hdest : i.dest ∈ S) (hsrc : i.src ∈ S) (hscale : i.scale ∈ S) :
    Carries (Similar S) (Similar S) i.forward :=
  carries_get (fun _ _ h => by rw [i.dims_congr h.toAgree hdest hsrc hscale]) fun _ =>
    .bind (carries_check _) fun _ => carries_updateWeightPair hdest hscale fun _ _ h => by
      rw [h.floats hsrc]

end LocalResponse

/-! ### Lifecycle -/

/-- What an activation is brought to life with depends on what is known of it. -/
theorem Context.carries_enliven {id : ValueId} (hid : id ∈ S) :
    Carries (Similar S) (Similar S) (enliven id : Run (Context α) Unit) := by
  intro c d h
  have hallocated : d.allocated id = c.allocated id := by
    rw [allocated, allocated, declaration, declaration, h.declared id hid, h.weights id hid]
  have hdeclared : d.declaration id = c.declaration id := by
    rw [declaration, declaration, h.declared id hid]
  rw [enliven, Run.get_bind_apply, Run.get_bind_apply, hdeclared]
  refine Run.alike_check fun e _ => ?_
  split
  case isFalse => exact .error trivial
  rw [change, change, enlivened, enlivened, allocate, allocate, hallocated]
  rcases c.allocated id with e | t
  · exact .error trivial
  have hset := h.setWeight id t
  simp only [Except.ok_bind, Except.pure_eq_ok]
  rw [gradOrZeros_congr (hset.declared id hid) (hset.weights id hid) (hset.grads id hid)]
  rcases (c.setWeight id t).gradOrZeros id with e | g
  · exact .error trivial
  · exact .ok (hset.setGrad id g.zero)

end Scalars

/-! ### Every instruction -/

/-- **Running an instruction forward looks only at its operands.** -/
theorem Instruction.carries_forward [Scalar α] (i : Instruction α) (train : Bool)
    (hS : i.operands.map Prod.fst ⊆ S) :
    Carries (Similar S) (Similar S) (i.forward train) := by
  cases i with
  | copy i =>
      exact .bind (i.carries_requireAlike _ (fun _ _ h => h.toAgree) (hS (by simp [operands]))
        (hS (by simp [operands]))) fun _ => i.carries_move (hS (by simp [operands]))
          (hS (by simp [operands]))
  | reshape i =>
      exact .bind (i.carries_requireEquinumerous (fun _ _ h => h.toAgree)
        (hS (by simp [operands])) (hS (by simp [operands]))) fun _ =>
          i.carries_move (hS (by simp [operands])) (hS (by simp [operands]))
  | activation f i =>
      exact f.carries_forward i (hS (by simp [operands])) (hS (by simp [operands]))
  | convolution i =>
      exact i.carries_forward (hS (by simp [operands])) (hS (by simp [operands]))
        (hS (by simp [operands])) (hS (by simp [operands]))
  | pool i =>
      exact i.carries_forward (hS (by simp [operands])) (hS (by simp [operands]))
        fun id hid => hS (by simp [operands, hid])
  | fullyConnected i =>
      exact i.carries_forward (hS (by simp [operands])) (hS (by simp [operands]))
        (hS (by simp [operands])) (hS (by simp [operands]))
  | softmax i =>
      exact i.carries_forward (hS (by simp [operands])) (hS (by simp [operands]))
        (hS (by simp [operands]))
  | regression i =>
      exact i.carries_forward (hS (by simp [operands])) (hS (by simp [operands]))
  | transpose i =>
      exact i.carries_forward (hS (by simp [operands])) (hS (by simp [operands]))
  | concat i =>
      exact i.carries_forward (hS (by simp [operands])) fun src hsrc =>
        hS (by simp [operands, hsrc])
  | batchNorm i =>
      exact i.carries_forward train (hS (by simp [operands])) (hS (by simp [operands]))
        (hS (by simp [operands])) (hS (by simp [operands])) (hS (by simp [operands]))
        (hS (by simp [operands]))
  | localResponse i =>
      exact i.carries_forward (hS (by simp [operands])) (hS (by simp [operands]))
        (hS (by simp [operands]))
  | arithmetic i =>
      exact i.carries_forward (hS (by simp [operands])) (hS (by simp [operands]))
        (hS (by simp [operands]))
  | alloc dest => exact Context.carries_enliven (hS (by simp [operands]))
  | dealloc src => exact carries_pure ()

end TensorProgram
