/-
TensorProgram/Proofs/Kernel/Parallel.lean

What the way back looks at.  Running an instruction backward, whether it
succeeds and which writes it makes to gradients is determined by the weights of
its operands and the gradient of its output (`Instruction.inStep_backward`).
This holds of every instruction under either gradient policy and on all
contexts, also when operands coincide.
-/
import TensorProgram.Proofs.Context.Parallel
import TensorProgram.Proofs.Kernel.Locality

namespace TensorProgram

variable {α : Type} [Scalar α] {S : List ValueId}

open Context (Abreast InStep carries_backward carries_updateGrad carries_updateGrad_parallel)
open Run (Scatters Carries carries_get carries_check carries_compute carries_pure scatters_scatter)
open Tensor (scatters_onFloats)

/-! ### Elementwise instructions -/

theorem View.scatters_addInto (src : View α) (s : Shape) : Scatters accumulate (src.addInto s) :=
  .check_bind fun _ => scatters_scatter _ _ _

namespace Unary

variable (i : Unary) (hdest : i.dest ∈ S) (hsrc : i.src ∈ S)

include hdest hsrc

theorem inStep_moveBack : InStep accumulate S i.dest (i.moveBack : Run (Context α) Unit) :=
  fun _ _ h₀ => carries_backward h₀ hdest <|
    carries_updateGrad h₀ hsrc (fun _ _ h => by rw [h.gradFloats rfl]) fun _ =>
      .check_bind fun outGrad => scatters_onFloats outGrad.scatters_addInto

theorem inStep_backwardCopy :
    InStep accumulate S i.dest (i.backwardCopy : Run (Context α) Unit) := fun _ _ h₀ =>
  .bind (i.carries_requireAlike _ (fun _ _ h => h.agree h₀) hdest hsrc) fun _ =>
    i.inStep_moveBack hdest hsrc _ _ h₀

theorem inStep_backwardReshape :
    InStep accumulate S i.dest (i.backwardReshape : Run (Context α) Unit) := fun _ _ h₀ =>
  .bind (i.carries_requireEquinumerous (fun _ _ h => h.agree h₀) hdest hsrc) fun _ =>
    i.inStep_moveBack hdest hsrc _ _ h₀

theorem inStep_activation (f : Activation) :
    InStep accumulate S i.dest (f.backward i : Run (Context α) Unit) := fun _ _ h₀ =>
  .bind (i.carries_requireAlike _ (fun _ _ h => h.agree h₀) hdest hsrc) fun _ =>
    carries_backward h₀ hdest <|
      carries_updateGrad h₀ hsrc (fun _ _ h => by rw [h.floats hdest, h.gradFloats rfl]) fun _ =>
        .check_bind fun _ => .check_bind fun _ => scatters_onFloats fun _ => scatters_scatter _ _ _

end Unary

namespace Arithmetic

variable (i : Arithmetic) (policy : GradientPolicy)

theorem inStep_backward (hdest : i.dest ∈ S) (hlhs : i.lhs ∈ S) (hrhs : i.rhs ∈ S) :
    InStep policy.combine S i.dest (i.backward policy : Run (Context α) Unit) := by
  intro c₀ d₀ h₀
  have hinto {target other : ValueId} (ht : target ∈ S) (ho : other ∈ S) :
      Carries (Abreast policy.combine S i.dest c₀ d₀) (Abreast policy.combine S i.dest c₀ d₀)
        (i.backwardInto policy target other) :=
    carries_updateGrad h₀ ht (fun _ _ h => by rw [h.gradFloats rfl, h.floats ho]) fun _ =>
      .check_bind fun _ => .check_bind fun _ => scatters_onFloats fun _ => scatters_scatter _ _ _
  exact .bind (i.carries_requireAlike (fun _ _ h => h.agree h₀) hdest hlhs hrhs) fun _ =>
    carries_backward h₀ hdest (.bind (hinto hlhs hrhs) fun _ => hinto hrhs hlhs)

end Arithmetic

/-! ### Rearrangements -/

omit [Scalar α] in
theorem View.scatters_transposeInto (src : View α) (shuffle : List Nat) (s : Shape) :
    Scatters overwrite (src.transposeInto shuffle s) := by
  refine .compute_bind fun view => ?_
  split
  · exact scatters_scatter _ _ _
  · exact fun _ _ => Run.carries_report _

omit [Scalar α] in
theorem View.scatters_extractInto (src : View α) (offset : List Nat) (s : Shape) :
    Scatters overwrite (src.extractInto offset s) :=
  .compute_bind fun _ => scatters_scatter _ _ _

theorem GradientPolicy.scatters_store (policy : GradientPolicy)
    {f : (s : Shape) → Run (Vector α s.elemCount) Unit} (hf : ∀ s, Scatters overwrite (f s))
    (s : Shape) : Scatters policy.combine (policy.store f s) := by
  cases policy with
  | replace => exact hf s
  | accumulate => exact .compute_bind fun _ => View.scatters_addInto _ s

theorem Transpose.inStep_backward (i : Transpose) (policy : GradientPolicy) (hdest : i.dest ∈ S)
    (hsrc : i.src ∈ S) :
    InStep policy.combine S i.dest (i.backward policy : Run (Context α) Unit) := fun _ _ h₀ =>
  .bind (carries_check _) fun _ => carries_backward h₀ hdest <|
    carries_updateGrad h₀ hsrc (fun _ _ h => by rw [h.gradFloats rfl]) fun _ =>
      .check_bind fun outGrad =>
        scatters_onFloats (policy.scatters_store (outGrad.scatters_transposeInto _))

theorem Concat.inStep_backward (i : Concat) (policy : GradientPolicy) (hdest : i.dest ∈ S)
    (hsrcs : ∀ src ∈ i.srcs, src ∈ S) :
    InStep policy.combine S i.dest (i.backward policy : Run (Context α) Unit) := by
  intro c₀ d₀ h₀
  refine carries_get (fun _ _ h => by rw [i.blocks_congr (h.agree h₀) hdest hsrcs]) fun ctx => ?_
  rcases hblocks : i.blocks ctx with e | blocks
  · exact Run.carries_report e
  rw [Run.liftM_check_ok, pure_bind]
  -- every block belongs to an operand, whose gradient may be written
  refine carries_backward h₀ hdest (.forM fun (id, origin) hblock => ?_)
  have hsrc : id ∈ i.srcs := by
    rw [← i.map_fst_blocks hblocks]
    exact List.mem_map_of_mem hblock
  exact carries_updateGrad h₀ (hsrcs id hsrc) (fun _ _ h => by rw [h.gradFloats rfl]) fun _ =>
    .check_bind fun outGrad =>
      scatters_onFloats (policy.scatters_store (outGrad.scatters_extractInto origin))

/-! ### Images -/

namespace Convolution

variable (i : Convolution)

theorem inStep_backward (source : FilterGradSource) (hdest : i.dest ∈ S) (hsrc : i.src ∈ S)
    (hfilter : i.filter ∈ S) (hbias : i.bias ∈ S) :
    InStep accumulate S i.dest (i.backward source : Run (Context α) Unit) := by
  intro c₀ d₀ h₀
  -- each part reads weights and the gradient of the output, and adds to one gradient
  have hfilterGrad (dims : ImageDims) :
      Carries (Abreast accumulate S i.dest c₀ d₀) (Abreast accumulate S i.dest c₀ d₀)
        (i.backwardFilter source dims) :=
    carries_updateGrad h₀ hfilter (fun _ _ h => by rw [h.floats hsrc, h.gradFloats rfl]) fun _ =>
      .check_bind fun _ => .check_bind fun _ => scatters_onFloats fun _ =>
        .forM fun _ => .compute_bind fun _ => scatters_scatter _ _ _
  have hinputGrad (dims : ImageDims) :
      Carries (Abreast accumulate S i.dest c₀ d₀) (Abreast accumulate S i.dest c₀ d₀)
        (i.backwardInput dims) :=
    carries_updateGrad h₀ hsrc (fun _ _ h => by rw [h.floats hfilter, h.gradFloats rfl]) fun _ =>
      .check_bind fun _ => .check_bind fun _ => scatters_onFloats fun _ =>
        .forM fun _ => .compute_bind fun _ => scatters_scatter _ _ _
  have hbiasGrad (dims : ImageDims) :
      Carries (Abreast accumulate S i.dest c₀ d₀) (Abreast accumulate S i.dest c₀ d₀)
        (i.backwardBias dims) :=
    carries_updateGrad h₀ hbias (fun _ _ h => by rw [h.gradFloats rfl]) fun _ =>
      .check_bind fun _ => scatters_onFloats fun _ => scatters_scatter _ _ _
  exact carries_get (fun _ _ h => by rw [i.dims_congr (h.agree h₀) hdest hsrc hfilter hbias])
    fun _ => .bind (carries_check _) fun dims => carries_backward h₀ hdest <|
      carries_get (fun _ _ h => by rw [(h.agree h₀).grad rfl]) fun _ =>
        .bind (carries_check _) fun _ => .bind (carries_check _) fun _ =>
          .bind (hfilterGrad dims) fun _ => .bind (hinputGrad dims) fun _ => hbiasGrad dims

end Convolution

namespace Pool

variable (i : Pool) (hdest : i.dest ∈ S) (hsrc : i.src ∈ S)

include hdest hsrc

theorem inStep_backwardMax (hcoords : ∀ id, i.coords = some id → id ∈ S) :
    InStep accumulate S i.dest (i.backwardMax : Run (Context α) Unit) := by
  intro c₀ d₀ h₀
  refine carries_get (fun _ _ h => by rw [i.dims_congr (h.agree h₀) hdest hsrc]) fun _ =>
    .bind (carries_check _) fun dims =>
    carries_get (fun _ _ h => by rw [i.savedIn_congr (h.agree h₀) hcoords]) fun ctx => ?_
  rcases hsaved : i.savedIn ctx dims.output with e | coords
  · exact Run.carries_report e
  have hmem : coords ∈ S := hcoords _ (i.savedIn_eq_ok hsaved)
  rw [Run.liftM_check_ok, pure_bind]
  exact carries_backward h₀ hdest <|
    carries_updateGrad h₀ hsrc (fun _ _ h => by rw [h.gradFloats rfl, h.indices hmem]) fun _ =>
      .check_bind fun _ => .check_bind fun _ => scatters_onFloats fun _ => scatters_scatter _ _ _

theorem inStep_backwardAvg :
    InStep accumulate S i.dest (i.backwardAvg : Run (Context α) Unit) := fun _ _ h₀ =>
  carries_get (fun _ _ h => by rw [i.dims_congr (h.agree h₀) hdest hsrc]) fun _ =>
    .bind (carries_check _) fun _ => carries_backward h₀ hdest <|
      carries_updateGrad h₀ hsrc (fun _ _ h => by rw [h.gradFloats rfl]) fun _ =>
        .check_bind fun _ => scatters_onFloats fun _ =>
          .forM fun _ => .compute_bind fun _ => scatters_scatter _ _ _

theorem inStep_backward (hcoords : ∀ id, i.coords = some id → id ∈ S) :
    InStep accumulate S i.dest (i.backward : Run (Context α) Unit) := by
  rw [backward]
  cases i.kind with
  | max => exact i.inStep_backwardMax hdest hsrc hcoords
  | avg => exact i.inStep_backwardAvg hdest hsrc

end Pool

/-! ### Rows -/

namespace FullyConnected

variable (i : FullyConnected)

theorem scatters_forOutputs {n : Nat} {dims : Dims} {src : Shape} {outGrad : View α}
    {visit : (start j : Nat) → α → Run (Vector α n) Unit}
    (h : ∀ start j g, Scatters accumulate (visit start j g)) :
    Scatters accumulate (forOutputs dims src outGrad visit) :=
  .forM fun _ => .compute_bind fun start => .compute_bind fun _ =>
    .forM fun j => .compute_bind fun g => h start j g

theorem inStep_backward (hdest : i.dest ∈ S) (hsrc : i.src ∈ S) (hfilter : i.filter ∈ S)
    (hbias : i.bias ∈ S) : InStep accumulate S i.dest (i.backward : Run (Context α) Unit) := by
  intro c₀ d₀ h₀
  have hinputGrad (dims : Dims) :
      Carries (Abreast accumulate S i.dest c₀ d₀) (Abreast accumulate S i.dest c₀ d₀)
        (i.backwardInput dims) :=
    carries_updateGrad h₀ hsrc
      (fun _ _ h => by rw [h.floats hsrc, h.floats hfilter, h.gradFloats rfl]) fun _ =>
        .check_bind fun _ => .check_bind fun _ => .check_bind fun _ => scatters_onFloats fun _ =>
          scatters_forOutputs fun _ _ _ => scatters_scatter _ _ _
  have hfilterGrad (dims : Dims) :
      Carries (Abreast accumulate S i.dest c₀ d₀) (Abreast accumulate S i.dest c₀ d₀)
        (i.backwardFilter dims) :=
    carries_updateGrad h₀ hfilter (fun _ _ h => by rw [h.floats hsrc, h.gradFloats rfl]) fun _ =>
      .check_bind fun _ => .check_bind fun _ => scatters_onFloats fun _ =>
        scatters_forOutputs fun _ _ _ => scatters_scatter _ _ _
  have hbiasGrad (dims : Dims) :
      Carries (Abreast accumulate S i.dest c₀ d₀) (Abreast accumulate S i.dest c₀ d₀)
        (i.backwardBias dims) :=
    carries_updateGrad h₀ hbias (fun _ _ h => by rw [h.gradFloats rfl]) fun _ =>
      .check_bind fun _ => scatters_onFloats fun _ =>
        .forM fun _ => .compute_bind fun _ => scatters_scatter _ _ _
  exact carries_get (fun _ _ h => by rw [i.dims_congr (h.agree h₀) hdest hsrc hfilter hbias])
    fun _ => .bind (carries_check _) fun dims => carries_backward h₀ hdest <|
      .bind (hinputGrad dims) fun _ => .bind (hfilterGrad dims) fun _ => hbiasGrad dims

end FullyConnected

theorem Softmax.inStep_backward (i : Softmax) (hdest : i.dest ∈ S) (hsrc : i.src ∈ S)
    (hsaved : i.saved ∈ S) (hselected : i.selected ∈ S) :
    InStep accumulate S i.dest (i.backward : Run (Context α) Unit) := fun _ _ h₀ =>
  carries_get (fun _ _ h => by rw [i.dims_congr (h.agree h₀) hdest hsrc hsaved]) fun _ =>
    .bind (carries_check _) fun _ =>
    carries_get (fun _ _ h => by rw [(h.agree h₀).shapeOf hselected]) fun _ =>
    .bind (carries_check _) fun _ => .bind (carries_check _) fun _ =>
      carries_updateGrad_parallel h₀ hsrc
        (fun _ _ h => by rw [h.floats hsaved, h.indices hselected]) fun _ =>
          .check_bind fun _ => .check_bind fun _ => scatters_onFloats fun _ =>
            .forM fun _ => .compute_bind fun _ => scatters_scatter _ _ _

theorem Regression.inStep_backward (i : Regression) (hsrc : i.src ∈ S)
    (hexpected : i.expected ∈ S) :
    InStep accumulate S i.dest (i.backward : Run (Context α) Unit) := fun _ _ h₀ =>
  carries_get
    (fun _ _ h => by rw [(h.agree h₀).shapeOf hsrc, (h.agree h₀).shapeOf hexpected]) fun _ =>
    .bind (carries_check _) fun _ => .bind (carries_check _) fun _ =>
    .bind (carries_check _) fun _ => .bind (carries_check _) fun _ =>
      carries_updateGrad_parallel h₀ hsrc
        (fun _ _ h => by rw [h.floats hsrc, h.floats hexpected]) fun _ =>
          .check_bind fun _ => .check_bind fun _ => scatters_onFloats fun _ =>
            scatters_scatter _ _ _

/-! ### Normalizations -/

theorem BatchNorm.inStep_backward (i : BatchNorm α) (hdest : i.dest ∈ S) (hsrc : i.src ∈ S)
    (hscale : i.scale ∈ S) (hbias : i.bias ∈ S) (hmean : i.mean ∈ S) (hvar : i.var ∈ S) :
    InStep accumulate S i.dest i.backward := by
  intro c₀ d₀ h₀
  have hinputGrad (ch : Channels) (sums : Sums α ch.count) :
      Carries (Abreast accumulate S i.dest c₀ d₀) (Abreast accumulate S i.dest c₀ d₀)
        (i.backwardInput ch sums) :=
    carries_updateGrad h₀ hsrc
      (fun _ _ h => by
        rw [h.floats hsrc, h.floats hscale, h.floats hmean, h.floats hvar, h.gradFloats rfl])
      fun _ => .check_bind fun _ => .check_bind fun _ => .check_bind fun _ =>
        .check_bind fun _ => .check_bind fun _ => scatters_onFloats fun _ =>
          scatters_scatter _ _ _
  have hbiasGrad :
      Carries (Abreast accumulate S i.dest c₀ d₀) (Abreast accumulate S i.dest c₀ d₀)
        i.backwardBias :=
    carries_updateGrad h₀ hbias (fun _ _ h => by rw [h.floats hsrc, h.gradFloats rfl])
      fun _ => .check_bind fun _ => .check_bind fun _ => scatters_onFloats fun _ =>
        scatters_scatter _ _ _
  have hscaleGrad :
      Carries (Abreast accumulate S i.dest c₀ d₀) (Abreast accumulate S i.dest c₀ d₀)
        i.backwardScale :=
    carries_updateGrad h₀ hscale
      (fun _ _ h => by rw [h.floats hsrc, h.floats hmean, h.floats hvar, h.gradFloats rfl])
      fun _ => .check_bind fun _ => .check_bind fun _ => .check_bind fun _ =>
        .check_bind fun _ => scatters_onFloats fun _ => scatters_scatter _ _ _
  exact carries_get
    (fun _ _ h => by
      rw [i.channels_congr (h.agree h₀) hdest hsrc hscale hbias hmean hvar]) fun _ =>
    .bind (carries_check _) fun ch => carries_backward h₀ hdest <|
      carries_get
        (fun _ _ h => by
          rw [(h.agree h₀).floats hsrc, (h.agree h₀).floats hmean, (h.agree h₀).gradFloats rfl])
        fun _ => .bind (carries_check _) fun _ => .bind (carries_check _) fun _ =>
          .bind (carries_check _) fun _ => .bind (carries_compute _) fun sums =>
            .bind (hinputGrad ch sums) fun _ => .bind hbiasGrad fun _ => hscaleGrad

theorem LocalResponse.inStep_backward (i : LocalResponse α) (policy : GradientPolicy)
    (hdest : i.dest ∈ S) (hsrc : i.src ∈ S) (hscale : i.scale ∈ S) :
    InStep policy.combine S i.dest (i.backward policy) := fun _ _ h₀ =>
  carries_get (fun _ _ h => by rw [i.dims_congr (h.agree h₀) hdest hsrc hscale]) fun _ =>
    .bind (carries_check _) fun _ => carries_backward h₀ hdest <|
      carries_updateGrad h₀ hsrc
        (fun _ _ h => by
          rw [h.floats hsrc, h.floats hdest, h.gradFloats rfl, h.floats hscale]) fun _ =>
        .check_bind fun _ => .check_bind fun _ => .check_bind fun _ => .check_bind fun _ =>
          scatters_onFloats fun _ => .forM fun _ => .compute_bind fun _ => .compute_bind fun _ =>
            .compute_bind fun _ => .compute_bind fun _ => scatters_scatter _ _ _

/-! ### Every instruction -/

namespace Instruction

variable (i : Instruction α)

/-- The output of an instruction; for the end of an activation's use the value
that it names. -/
def dest : Instruction α → ValueId
  | copy i | reshape i | activation _ i => i.dest
  | convolution i => i.dest
  | pool i => i.dest
  | fullyConnected i => i.dest
  | softmax i => i.dest
  | regression i => i.dest
  | transpose i => i.dest
  | concat i => i.dest
  | batchNorm i => i.dest
  | localResponse i => i.dest
  | arithmetic i => i.dest
  | alloc dest => dest
  | dealloc src => src

omit [Scalar α] in
theorem dest_mem : i.dest ∈ i.operands.map Prod.fst := by
  cases i <;> simp [dest, operands]

/-- The instructions whose gradients the policy is about. -/
def heedsPolicy : Instruction α → Bool
  | transpose _ | concat _ | localResponse _ | arithmetic _ => true
  | _ => false

/-- How the instruction combines a gradient with a contribution to it. -/
def combine (config : Config α) : α → α → α :=
  if i.heedsPolicy then config.gradientPolicy.combine else accumulate

/-- **Running an instruction backward looks only at the weights of its operands
and at the gradient of its output.** -/
theorem inStep_backward (config : Config α) (hS : i.operands.map Prod.fst ⊆ S) :
    InStep (i.combine config) S i.dest (i.backward config) := by
  cases i with
  | copy i => exact i.inStep_backwardCopy (hS (by simp [operands])) (hS (by simp [operands]))
  | reshape i => exact i.inStep_backwardReshape (hS (by simp [operands])) (hS (by simp [operands]))
  | activation f i => exact i.inStep_activation (hS (by simp [operands])) (hS (by simp [operands])) f
  | convolution i =>
      exact i.inStep_backward _ (hS (by simp [operands])) (hS (by simp [operands]))
        (hS (by simp [operands])) (hS (by simp [operands]))
  | pool i =>
      exact i.inStep_backward (hS (by simp [operands])) (hS (by simp [operands]))
        fun id hid => hS (by simp [operands, hid])
  | fullyConnected i =>
      exact i.inStep_backward (hS (by simp [operands])) (hS (by simp [operands]))
        (hS (by simp [operands])) (hS (by simp [operands]))
  | softmax i =>
      exact i.inStep_backward (hS (by simp [operands])) (hS (by simp [operands]))
        (hS (by simp [operands])) (hS (by simp [operands]))
  | regression i => exact i.inStep_backward (hS (by simp [operands])) (hS (by simp [operands]))
  | transpose i => exact i.inStep_backward _ (hS (by simp [operands])) (hS (by simp [operands]))
  | concat i =>
      exact i.inStep_backward _ (hS (by simp [operands])) fun src hsrc =>
        hS (by simp [operands, hsrc])
  | batchNorm i =>
      exact i.inStep_backward (hS (by simp [operands])) (hS (by simp [operands]))
        (hS (by simp [operands])) (hS (by simp [operands])) (hS (by simp [operands]))
        (hS (by simp [operands]))
  | localResponse i =>
      exact i.inStep_backward _ (hS (by simp [operands])) (hS (by simp [operands]))
        (hS (by simp [operands]))
  | arithmetic i =>
      exact i.inStep_backward _ (hS (by simp [operands])) (hS (by simp [operands]))
        (hS (by simp [operands]))
  | alloc dest => exact fun _ _ _ => carries_pure ()
  | dealloc src => exact fun _ _ _ => carries_pure ()

end Instruction

end TensorProgram
