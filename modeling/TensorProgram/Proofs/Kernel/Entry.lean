/-
TensorProgram/Proofs/Kernel/Entry.lean

What the entry check of a kernel establishes.  A kernel begins by looking up the
shapes of its operands and comparing them.  If it goes on, the operands are
bound and their shapes fit one another; the kinds of their elements are still
open, and operands may coincide.
-/
import TensorProgram.Proofs.Kernel.BatchNorm
import TensorProgram.Proofs.Kernel.LocalResponse
import TensorProgram.Proofs.Kernel.Loss
import TensorProgram.Proofs.Program.Typing

namespace TensorProgram

variable {α : Type} {c : Context α}

open Run (reports_get_or reports_check_or reports_lastCheck_or)

/-- A check that goes on after it demanded a shape of a value has found it. -/
theorem Context.shapeOf_of_required {β : Type} {subject : String} {s : Shape} {id : ValueId}
    {rest : Except Error β} {b : β}
    (h : (do requireSameShape subject s (← c.shapeOf id); rest) = .ok b) :
    c.shapeOf id = .ok s ∧ rest = .ok b := by
  obtain ⟨t, ht, h⟩ := Except.bind_eq_ok.mp h
  obtain ⟨_, hsame, h⟩ := Except.bind_eq_ok.mp h
  exact ⟨by rw [ht, eq_of_requireSameShape hsame], h⟩

open Context (shapeOf_of_required)

/-! ### Elementwise instructions -/

/-- Input and output of one shape, or a report. -/
theorem Unary.requireAlike_cases (i : Unary) (subject : String) :
    (i.requireAlike subject).Reports c ∨ i.requireAlike subject c = .ok () c ∧
      ∃ s, c.shapeOf i.src = .ok s ∧ c.shapeOf i.dest = .ok s := by
  refine reports_get_or (reports_check_or fun s hs => reports_check_or fun t ht =>
    reports_lastCheck_or fun hst => ⟨?_, s, hs, by rw [ht, eq_of_requireSameShape hst]⟩)
  rw [requireAlike, Run.get_bind_apply, hs, ht]
  simp only [Run.liftM_check_ok, pure_bind, hst]
  rfl

/-- Input and output with equally many elements, or a report. -/
theorem Unary.requireEquinumerous_cases (i : Unary) :
    i.requireEquinumerous.Reports c ∨ i.requireEquinumerous c = .ok () c ∧
      ∃ s t, c.shapeOf i.src = .ok s ∧ c.shapeOf i.dest = .ok t ∧ t.elemCount = s.elemCount := by
  refine reports_get_or (reports_check_or fun s hs => reports_check_or fun t ht =>
    reports_lastCheck_or fun hst => ⟨?_, s, t, hs, ht, eq_of_requireSameSize hst⟩)
  rw [requireEquinumerous, Run.get_bind_apply, hs, ht]
  simp only [Run.liftM_check_ok, pure_bind, hst]
  rfl

/-- Operands and output of one shape, or a report. -/
theorem Arithmetic.requireAlike_cases (i : Arithmetic) :
    i.requireAlike.Reports c ∨ i.requireAlike c = .ok () c ∧
      ∃ s, c.shapeOf i.dest = .ok s ∧ c.shapeOf i.lhs = .ok s ∧ c.shapeOf i.rhs = .ok s := by
  refine reports_get_or (reports_check_or fun s hs => reports_check_or fun t ht =>
    reports_check_or fun _ hst => reports_check_or fun u hu => reports_lastCheck_or fun hsu =>
      ⟨?_, s, hs, by rw [ht, eq_of_requireSameShape hst], by rw [hu, eq_of_requireSameShape hsu]⟩)
  rw [requireAlike, Run.get_bind_apply, hs, ht, hu]
  simp only [Run.liftM_check_ok, pure_bind, hst, hsu]
  rfl

/-! ### Images and rows -/

/-- The four shapes of a convolution fit. -/
theorem Convolution.fits_of_dims {i : Convolution} {d : ImageDims} (h : i.dims c = .ok d) :
    ∃ s t u v, c.shapeOf i.src = .ok s ∧ c.shapeOf i.dest = .ok t ∧ c.shapeOf i.filter = .ok u ∧
      c.shapeOf i.bias = .ok v ∧ Fits i.window d s t u v := by
  obtain ⟨s, hs, h⟩ := Except.bind_eq_ok.mp h
  obtain ⟨input, hinput, h⟩ := Except.bind_eq_ok.mp h
  obtain ⟨t, ht, h⟩ := Except.bind_eq_ok.mp h
  obtain ⟨output, houtput, h⟩ := Except.bind_eq_ok.mp h
  split at h
  · cases h
  rename_i hbatch
  obtain ⟨hfilter, h⟩ := shapeOf_of_required h
  obtain ⟨hbias, h⟩ := shapeOf_of_required h
  obtain rfl := Except.ok.inj h
  exact ⟨s, t, _, _, hs, ht, hfilter, hbias, eq_toShape_of_ofDims hinput,
    eq_toShape_of_ofDims houtput, not_not.mp hbatch, rfl, rfl⟩

/-- The shapes of a pooling fit. -/
theorem Pool.fits_of_dims {i : Pool} {d : ImageDims} (h : i.dims c = .ok d) :
    ∃ s t, c.shapeOf i.src = .ok s ∧ c.shapeOf i.dest = .ok t ∧ Fits d s t := by
  obtain ⟨s, hs, h⟩ := Except.bind_eq_ok.mp h
  obtain ⟨input, hinput, h⟩ := Except.bind_eq_ok.mp h
  obtain ⟨t, ht, h⟩ := Except.bind_eq_ok.mp h
  obtain ⟨output, houtput, h⟩ := Except.bind_eq_ok.mp h
  split at h
  · cases h
  rename_i hagree
  obtain rfl := Except.ok.inj h
  obtain ⟨hbatch, hchannels⟩ := not_or.mp hagree
  exact ⟨s, t, hs, ht, eq_toShape_of_ofDims hinput, eq_toShape_of_ofDims houtput,
    not_not.mp hbatch, not_not.mp hchannels⟩

/-- The saved coordinates have room for a pair at every output. -/
theorem Pool.shapeOf_of_savedIn {i : Pool} {output : NHWC} {coords : ValueId}
    (h : i.savedIn c output = .ok coords) :
    i.coords = some coords ∧ c.shapeOf coords = .ok (pairs output) := by
  rw [savedIn] at h
  rcases hnamed : i.coords with - | named
  · rw [hnamed] at h
    cases h
  · simp only [hnamed] at h
    obtain ⟨hshape, h⟩ := shapeOf_of_required h
    obtain rfl := Except.ok.inj h
    exact ⟨rfl, hshape⟩

/-- The four shapes of an affine map fit. -/
theorem FullyConnected.fits_of_dims {i : FullyConnected} {d : Dims} (h : i.dims c = .ok d) :
    ∃ s t u v, c.shapeOf i.src = .ok s ∧ c.shapeOf i.dest = .ok t ∧ c.shapeOf i.filter = .ok u ∧
      c.shapeOf i.bias = .ok v ∧ Fits d s t u v := by
  obtain ⟨s, hs, h⟩ := Except.bind_eq_ok.mp h
  obtain ⟨t, ht, h⟩ := Except.bind_eq_ok.mp h
  obtain ⟨⟨batch, inputs⟩, hrows, h⟩ := Except.bind_eq_ok.mp h
  obtain ⟨⟨outBatch, outputs⟩, houts, h⟩ := Except.bind_eq_ok.mp h
  dsimp only at h
  split at h
  · cases h
  rename_i hbatch
  obtain ⟨hfilter, h⟩ := shapeOf_of_required h
  obtain ⟨hbias, h⟩ := shapeOf_of_required h
  obtain rfl := Except.ok.inj h
  obtain rfl := not_not.mp hbatch
  exact ⟨s, t, _, _, hs, ht, hfilter, hbias, isRows_of_flattenRows hrows,
    isRows_of_flattenRows houts, rfl, rfl⟩

/-! ### Losses -/

/-- Input, output and saved probabilities of a softmax are one matrix, and its
rows have an entry. -/
theorem Softmax.shapes_of_dims {i : Softmax} {rows columns : Nat}
    (h : i.dims c = .ok (rows, columns)) :
    columns ≠ 0 ∧ c.shapeOf i.src = .ok ⟨[rows, columns]⟩ ∧
      c.shapeOf i.dest = .ok ⟨[rows, columns]⟩ ∧ c.shapeOf i.saved = .ok ⟨[rows, columns]⟩ := by
  obtain ⟨s, hs, h⟩ := Except.bind_eq_ok.mp h
  obtain ⟨_, hrank, h⟩ := Except.bind_eq_ok.mp h
  obtain ⟨hdest, h⟩ := shapeOf_of_required h
  obtain ⟨hsaved, h⟩ := shapeOf_of_required h
  dsimp only at h
  split at h
  · cases h
  rename_i hpos
  obtain ⟨r, k, rfl⟩ := exists_matrix_of_requireRank hrank
  obtain ⟨rfl, rfl⟩ := Prod.mk.inj (Except.ok.inj h)
  exact ⟨hpos, hs, hdest, hsaved⟩

/-! ### Rearrangements -/

namespace Concat

variable [Scalar α] {i : Concat} {dest s : Shape} {id : ValueId}

/-- Zeros in the shape of a weight.  They stand for its view where nothing but the
shape matters. -/
def standIn (c : Context α) (id : ValueId) : View α :=
  ⟨(c.shapeOf id).toOption.getD default, Vector.replicate _ 0⟩

theorem shape_standIn (h : c.shapeOf id = .ok s) : (standIn c id).shape = s := by
  rw [standIn, h]
  rfl

/-- The walk that lays the blocks has seen their shapes, which agree with the
output, and ends behind the last of them. -/
theorem covered_of_walk {ids : List ValueId} {bs laid : List (ValueId × List Nat)}
    {start covered : Nat}
    (h : ids.foldlM (fun (p : List (ValueId × List Nat) × Nat) id => do
      let next ← i.blockEnd dest (← c.shapeOf id) p.2
      return (p.1 ++ [(id, i.origin dest.rank p.2)], next)) (bs, start) = .ok (laid, covered)) :
    (∀ id ∈ ids, c.shapeOf id = .ok (standIn c id).shape ∧
      (standIn c id).shape.agreesExcept dest i.dim = true) ∧
    covered = start + (ids.map (i.blockExtent (standIn c))).sum := by
  -- along the operands still to come, for any blocks `bs` laid before them
  induction ids generalizing bs start with
  | nil =>
      obtain ⟨-, rfl⟩ := Prod.mk.inj (Except.ok.inj h)
      simp
  | cons id ids ih =>
      rw [List.foldlM_cons] at h
      obtain ⟨⟨bs', start'⟩, hstep, h⟩ := Except.bind_eq_ok.mp h
      obtain ⟨s, hs, hstep⟩ := Except.bind_eq_ok.mp hstep
      obtain ⟨next, hnext, hstep⟩ := Except.bind_eq_ok.mp hstep
      obtain ⟨rfl, rfl⟩ := Prod.mk.inj (Except.ok.inj hstep)
      obtain ⟨hall, hsum⟩ := ih h
      have hshape : (standIn c id).shape = s := shape_standIn hs
      rw [Concat.blockEnd] at hnext
      split at hnext
      · rename_i hagrees
        refine ⟨List.forall_mem_cons.mpr ⟨⟨?_, ?_⟩, hall⟩, ?_⟩
        · rw [hs, hshape]
        · rw [hshape, hagrees]
        · rw [hsum, List.map_cons, List.sum_cons, Concat.blockExtent, hshape,
            ← Except.ok.inj hnext]
          omega
      · cases hnext

/-- The blocks of a concatenation fill its output. -/
theorem covers_of_blocks {blocks : List (ValueId × List Nat)} (h : i.blocks c = .ok blocks) :
    ∃ (dest : Shape) (V : ValueId → View α), c.shapeOf i.dest = .ok dest ∧
      (∀ id ∈ i.srcs, c.shapeOf id = .ok (V id).shape) ∧ i.Covers dest V ∧
      blocks = (i.lay V).map fun p => (p.1, i.origin dest.rank p.2) := by
  obtain ⟨dest, hdest, hrest⟩ := Except.bind_eq_ok.mp h
  obtain ⟨extent, hextent, hrest⟩ := Except.bind_eq_ok.mp hrest
  obtain ⟨⟨laid, covered⟩, hwalk, hrest⟩ := Except.bind_eq_ok.mp hrest
  dsimp only at hrest
  split at hrest
  · rename_i hcovered
    subst hcovered
    obtain ⟨hall, hsum⟩ := covered_of_walk hwalk
    have hcover : i.Covers dest (standIn c) := by
      refine ⟨fun id hid => (hall id hid).2, ?_⟩
      rw [getElem?_of_dim hextent, hsum, Nat.zero_add]
    have hblocks := i.blocks_eq hdest (fun id hid => (hall id hid).1) hcover
    exact ⟨dest, standIn c, hdest, fun id hid => (hall id hid).1, hcover,
      Except.ok.inj (h.symm.trans hblocks)⟩
  · cases hrest

end Concat

/-! ### Normalizations -/

/-- There is a channel, and every parameter has one element for each. -/
theorem BatchNorm.shapes_of_channels {i : BatchNorm α} {ch : BatchNorm.Channels}
    (h : i.channels c = .ok ch) :
    ∃ s count, ch = BatchNorm.channelsOf count s ∧ count ≠ 0 ∧ s.dims[i.axis]? = some count ∧
      c.shapeOf i.src = .ok s ∧ c.shapeOf i.dest = .ok s ∧ c.shapeOf i.scale = .ok ⟨[count]⟩ ∧
      c.shapeOf i.bias = .ok ⟨[count]⟩ ∧ c.shapeOf i.mean = .ok ⟨[count]⟩ ∧
      c.shapeOf i.var = .ok ⟨[count]⟩ := by
  obtain ⟨s, hs, h⟩ := Except.bind_eq_ok.mp h
  obtain ⟨hdest, h⟩ := shapeOf_of_required h
  obtain ⟨count, hcount, h⟩ := Except.bind_eq_ok.mp h
  split at h
  · cases h
  rename_i hpos
  obtain ⟨hscale, h⟩ := shapeOf_of_required h
  obtain ⟨hbias, h⟩ := shapeOf_of_required h
  obtain ⟨hmean, h⟩ := shapeOf_of_required h
  obtain ⟨hvar, h⟩ := shapeOf_of_required h
  exact ⟨s, count, (Except.ok.inj h).symm, hpos, getElem?_of_dim hcount, hs, hdest, hscale, hbias,
    hmean, hvar⟩

/-- Input, output and scales are one batch of images with a channel. -/
theorem LocalResponse.shapes_of_dims {i : LocalResponse α} {d : NHWC} (h : i.dims c = .ok d) :
    d.c ≠ 0 ∧ c.shapeOf i.src = .ok d.toShape ∧ c.shapeOf i.dest = .ok d.toShape ∧
      c.shapeOf i.scale = .ok d.toShape := by
  obtain ⟨s, hs, h⟩ := Except.bind_eq_ok.mp h
  obtain ⟨hdest, h⟩ := shapeOf_of_required h
  obtain ⟨hscale, h⟩ := shapeOf_of_required h
  obtain ⟨input, hinput, h⟩ := Except.bind_eq_ok.mp h
  split at h
  · cases h
  rename_i hpos
  obtain rfl := Except.ok.inj h
  obtain rfl := eq_toShape_of_ofDims hinput
  exact ⟨hpos, hs, hdest, hscale⟩

end TensorProgram
