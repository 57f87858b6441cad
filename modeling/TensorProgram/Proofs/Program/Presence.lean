/-
TensorProgram/Proofs/Program/Presence.lean

What the way back asks for before it changes anything.  Every kernel begins by
comparing the shapes of some of its operands, for which these must be bound.  So
running an instruction backward reports an error and keeps the context, or all
operands that it looks at again are bound (`Instruction.reports_or_bound`).
-/
import TensorProgram.Kernel.Dispatch
import TensorProgram.Proofs.Kernel.Entry

namespace TensorProgram

variable {α : Type} {c : Context α}

open Context (bound_of_shapeOf)
open Run (reports_check_or)

/-! ### Looked up, so bound -/

theorem bound_nil : ∀ id ∈ ([] : List ValueId), (c.weights[id]?).isSome := by simp

theorem bound_cons {id : ValueId} {ids : List ValueId} {s : Shape} (h : c.shapeOf id = .ok s)
    (hs : ∀ id ∈ ids, (c.weights[id]?).isSome) : ∀ j ∈ id :: ids, (c.weights[j]?).isSome :=
  List.forall_mem_cons.mpr ⟨bound_of_shapeOf h, hs⟩

/-! ### Instructions -/

namespace Instruction

/-- The operands whose weights the way back looks at again. -/
def revisited : Instruction α → List ValueId
  | copy i | reshape i | activation _ i => [i.dest, i.src]
  | convolution i => [i.dest, i.src, i.filter, i.bias]
  | pool i =>
      match i.kind with
      | .max => i.dest :: i.src :: i.coords.toList
      | .avg => [i.dest, i.src]
  | fullyConnected i => [i.dest, i.src, i.filter, i.bias]
  | softmax i => [i.dest, i.src, i.saved, i.selected]
  | regression i => [i.src, i.expected]
  | transpose _ => []
  | concat i => i.dest :: i.srcs
  | batchNorm i => [i.dest, i.src, i.scale, i.bias, i.mean, i.var]
  | localResponse i => [i.dest, i.src, i.scale]
  | arithmetic i => [i.dest, i.lhs, i.rhs]
  | alloc _ | dealloc _ => []

variable [Scalar α]

/-- **The way back reports or finds its operands.** -/
theorem reports_or_bound (i : Instruction α) (config : Config α) (c : Context α) :
    (i.backward config).Reports c ∨ ∀ id ∈ i.revisited, (c.weights[id]?).isSome := by
  -- the entry check of a kernel has found what it looks at again
  cases i with
  | copy i =>
      rcases i.requireAlike_cases (c := c) "copy" with h | ⟨-, s, hs, ht⟩
      · exact .inl h.bind
      · exact .inr (bound_cons ht (bound_cons hs bound_nil))
  | reshape i =>
      rcases i.requireEquinumerous_cases (c := c) with h | ⟨-, s, t, hs, ht, -⟩
      · exact .inl h.bind
      · exact .inr (bound_cons ht (bound_cons hs bound_nil))
  | activation f i =>
      rcases i.requireAlike_cases (c := c) "activation" with h | ⟨-, s, hs, ht⟩
      · exact .inl h.bind
      · exact .inr (bound_cons ht (bound_cons hs bound_nil))
  | convolution i =>
      refine reports_check_or fun d hd => .inr ?_
      obtain ⟨s, t, u, v, hs, ht, hu, hv, -⟩ := Convolution.fits_of_dims hd
      exact bound_cons ht (bound_cons hs (bound_cons hu (bound_cons hv bound_nil)))
  | pool i =>
      rcases hkind : i.kind with - | -
      · simp only [backward, Pool.backward, revisited, hkind]
        refine reports_check_or fun d hd => reports_check_or fun coords hcoords => .inr ?_
        obtain ⟨s, t, hs, ht, -⟩ := Pool.fits_of_dims hd
        obtain ⟨hnamed, hsaved⟩ := Pool.shapeOf_of_savedIn hcoords
        rw [hnamed]
        exact bound_cons ht (bound_cons hs (bound_cons hsaved bound_nil))
      · simp only [backward, Pool.backward, revisited, hkind]
        refine reports_check_or fun d hd => .inr ?_
        obtain ⟨s, t, hs, ht, -⟩ := Pool.fits_of_dims hd
        exact bound_cons ht (bound_cons hs bound_nil)
  | fullyConnected i =>
      refine reports_check_or fun d hd => .inr ?_
      obtain ⟨s, t, u, v, hs, ht, hu, hv, -⟩ := FullyConnected.fits_of_dims hd
      exact bound_cons ht (bound_cons hs (bound_cons hu (bound_cons hv bound_nil)))
  | softmax i =>
      refine reports_check_or fun d hd => ?_
      obtain ⟨rows, columns⟩ := d
      refine reports_check_or fun s hs => .inr ?_
      obtain ⟨-, hsrc, hdest, hsaved⟩ := Softmax.shapes_of_dims hd
      exact bound_cons hdest (bound_cons hsrc (bound_cons hsaved (bound_cons hs bound_nil)))
  | regression i =>
      refine reports_check_or fun s hs => reports_check_or fun _ _ => reports_check_or fun t ht =>
        .inr ?_
      exact bound_cons hs (bound_cons ht bound_nil)
  | transpose i => exact .inr (by simp [revisited])
  | concat i =>
      refine reports_check_or fun blocks hblocks => .inr ?_
      obtain ⟨dest, V, hdest, hsrcs, -⟩ := Concat.covers_of_blocks hblocks
      exact List.forall_mem_cons.mpr
        ⟨bound_of_shapeOf hdest, fun id hid => bound_of_shapeOf (hsrcs id hid)⟩
  | batchNorm i =>
      refine reports_check_or fun ch hch => .inr ?_
      obtain ⟨s, count, -, -, -, hs, ht, hf, hb, hm, hv⟩ := BatchNorm.shapes_of_channels hch
      exact bound_cons ht (bound_cons hs (bound_cons hf
        (bound_cons hb (bound_cons hm (bound_cons hv bound_nil)))))
  | localResponse i =>
      refine reports_check_or fun d hd => .inr ?_
      obtain ⟨-, hs, ht, hu⟩ := LocalResponse.shapes_of_dims hd
      exact bound_cons ht (bound_cons hs (bound_cons hu bound_nil))
  | arithmetic i =>
      rcases i.requireAlike_cases (c := c) with h | ⟨-, s, hdest, hlhs, hrhs⟩
      · exact .inl h.bind
      · exact .inr (bound_cons hdest (bound_cons hlhs (bound_cons hrhs bound_nil)))
  | alloc id => exact .inr (by simp [revisited])
  | dealloc id => exact .inr (by simp [revisited])

end Instruction

end TensorProgram
