/-
TensorProgram/Proofs/Program/Typing.lean

When an instruction is well typed.  The judgment `Instruction.Typed Γ i` has one
rule for every instruction; it relates the kinds and shapes that its operands
declare in `Γ` the way its kernel needs them.  The static check demands exactly
that (`Program.typed_of_verifyInstruction`), one violation after the other.
-/
import TensorProgram.Program.Verify
import TensorProgram.Proofs.Kernel.FullyConnected
import TensorProgram.Proofs.Kernel.Pooling
import TensorProgram.Proofs.Kernel.Rearrange
import TensorProgram.Proofs.Program.Values

namespace TensorProgram

variable {α : Type}

/-- What values declare. -/
abbrev Signature := ValueId → Option Declaration

/-- A value is declared with scalars of this shape. -/
def Signature.Floats (Γ : Signature) (id : ValueId) (s : Shape) : Prop := Γ id = some ⟨.float, s⟩

/-- A value is declared with indices of this shape. -/
def Signature.Indices (Γ : Signature) (id : ValueId) (s : Shape) : Prop := Γ id = some ⟨.index, s⟩

/-- A value is declared with one shape. -/
theorem Signature.Floats.shape_eq {Γ : Signature} {id : ValueId} {s t : Shape}
    (h : Γ.Floats id s) (h' : Γ.Floats id t) : s = t :=
  (Declaration.mk.inj (Option.some.inj (h.symm.trans h'))).2

/-- The operands of an instruction declare kinds and shapes that fit together. -/
inductive Instruction.Typed (Γ : Signature) : Instruction α → Prop
  /-- A copy keeps the shape. -/
  | copy {i : Unary} {s : Shape} (dest : Γ.Floats i.dest s) (src : Γ.Floats i.src s) :
      Typed Γ (.copy i)
  /-- A change of shape keeps the number of elements. -/
  | reshape {i : Unary} {s t : Shape} (dest : Γ.Floats i.dest t) (src : Γ.Floats i.src s)
      (size : s.elemCount = t.elemCount) : Typed Γ (.reshape i)
  /-- A function of every element keeps the shape. -/
  | activation {f : Activation} {i : Unary} {s : Shape} (dest : Γ.Floats i.dest s)
      (src : Γ.Floats i.src s) : Typed Γ (.activation f i)
  /-- A convolution relates four shapes. -/
  | convolution {i : Convolution} {d : ImageDims} {s t u v : Shape} (dest : Γ.Floats i.dest t)
      (src : Γ.Floats i.src s) (filter : Γ.Floats i.filter u) (bias : Γ.Floats i.bias v)
      (fits : Convolution.Fits i.window d s t u v) : Typed Γ (.convolution i)
  /-- A max pool saves two coordinates for every output. -/
  | maxPool {i : Pool} {d : ImageDims} {s t : Shape} {coords : ValueId} (kind : i.kind = .max)
      (dest : Γ.Floats i.dest t) (src : Γ.Floats i.src s) (named : i.coords = some coords)
      (saved : Γ.Indices coords (Pool.pairs d.output)) (fits : Pool.Fits d s t) : Typed Γ (.pool i)
  /-- An average pool keeps images and channels. -/
  | avgPool {i : Pool} {d : ImageDims} {s t : Shape} (kind : i.kind = .avg)
      (dest : Γ.Floats i.dest t) (src : Γ.Floats i.src s) (fits : Pool.Fits d s t) :
      Typed Γ (.pool i)
  /-- An affine map relates four shapes. -/
  | fullyConnected {i : FullyConnected} {d : FullyConnected.Dims} {s t u v : Shape}
      (dest : Γ.Floats i.dest t) (src : Γ.Floats i.src s) (filter : Γ.Floats i.filter u)
      (bias : Γ.Floats i.bias v) (fits : FullyConnected.Fits d s t u v) :
      Typed Γ (.fullyConnected i)
  /-- A softmax keeps a matrix and selects a column of every row. -/
  | softmax {i : Softmax} {rows columns : Nat} (dest : Γ.Floats i.dest ⟨[rows, columns]⟩)
      (src : Γ.Floats i.src ⟨[rows, columns]⟩) (saved : Γ.Floats i.saved ⟨[rows, columns]⟩)
      (selected : Γ.Indices i.selected ⟨[rows, 1]⟩) : Typed Γ (.softmax i)
  /-- A squared distance keeps a matrix. -/
  | regression {i : Regression} {rows columns : Nat} (dest : Γ.Floats i.dest ⟨[rows, columns]⟩)
      (src : Γ.Floats i.src ⟨[rows, columns]⟩) (expected : Γ.Floats i.expected ⟨[rows, columns]⟩) :
      Typed Γ (.regression i)
  /-- A transposition permutes the extents. -/
  | transpose {i : Transpose} {s t : Shape} (dest : Γ.Floats i.dest t) (src : Γ.Floats i.src s)
      (shuffle : IsPermutation i.shuffle s.rank) (dims : t.dims = permuted i.shuffle s.dims) :
      Typed Γ (.transpose i)
  /-- The blocks of a concatenation fill its output. -/
  | concat {i : Concat} {t : Shape} {shape : ValueId → Shape} (dest : Γ.Floats i.dest t)
      (srcs : ∀ id ∈ i.srcs, Γ.Floats id (shape id))
      (agrees : ∀ id ∈ i.srcs, (shape id).agreesExcept t i.dim = true)
      (extent : t.dims[i.dim]? = some ((i.srcs.map fun id => (shape id).dims.getD i.dim 0)).sum) :
      Typed Γ (.concat i)
  /-- A normalization has one parameter of each sort for every channel. -/
  | batchNorm {i : BatchNorm α} {s : Shape} {count : Nat} (dest : Γ.Floats i.dest s)
      (src : Γ.Floats i.src s) (axis : s.dims[i.axis]? = some count)
      (scale : Γ.Floats i.scale ⟨[count]⟩) (bias : Γ.Floats i.bias ⟨[count]⟩)
      (mean : Γ.Floats i.mean ⟨[count]⟩) (var : Γ.Floats i.var ⟨[count]⟩) : Typed Γ (.batchNorm i)
  /-- A normalization by neighbours needs a channel. -/
  | localResponse {i : LocalResponse α} {d : NHWC} (dest : Γ.Floats i.dest d.toShape)
      (src : Γ.Floats i.src d.toShape) (scale : Γ.Floats i.scale d.toShape) (channels : d.c ≠ 0) :
      Typed Γ (.localResponse i)
  /-- An operation on two tensors keeps their common shape. -/
  | arithmetic {i : Arithmetic} {s : Shape} (dest : Γ.Floats i.dest s) (lhs : Γ.Floats i.lhs s)
      (rhs : Γ.Floats i.rhs s) : Typed Γ (.arithmetic i)
  /-- What is allocated is declared. -/
  | alloc {id : ValueId} {d : Declaration} (declared : Γ id = some d) : Typed Γ (.alloc id)
  /-- The end of a life makes no demand. -/
  | dealloc {id : ValueId} : Typed Γ (.dealloc id)

/-! ### What the single demands say -/

theorem eq_of_requireSameShape {subject : String} {expected got : Shape}
    (h : requireSameShape subject expected got = .ok ()) : got = expected := by
  rw [requireSameShape] at h
  split at h
  · assumption
  · cases h

theorem eq_of_requireSameSize {subject : String} {expected got : Shape}
    (h : requireSameSize subject expected got = .ok ()) : got.elemCount = expected.elemCount := by
  rw [requireSameSize] at h
  split at h
  · assumption
  · cases h

theorem exists_matrix_of_requireRank {subject : String} {s : Shape}
    (h : requireRank subject s 2 = .ok ()) : ∃ rows columns, s = ⟨[rows, columns]⟩ := by
  rw [requireRank] at h
  split at h
  · rename_i hrank
    obtain ⟨dims⟩ := s
    match dims, hrank with
    | [rows, columns], _ => exact ⟨rows, columns, rfl⟩
  · cases h

theorem getElem?_of_dim {s : Shape} {axis d : Nat} (h : s.dim axis = .ok d) :
    s.dims[axis]? = some d := by
  rw [Shape.dim] at h
  split at h
  · rename_i hd
    rw [hd, Except.ok.inj h]
  · cases h

theorem eq_toShape_of_ofDims {s : Shape} {d : NHWC} (h : NHWC.ofDims s.dims = .ok d) :
    s = d.toShape := by
  obtain ⟨dims⟩ := s
  match dims, h with
  | [n, h, w, c], hd =>
      obtain rfl := Except.ok.inj hd
      rfl

theorem isRows_of_flattenRows {s : Shape} {batch width : Nat}
    (h : flattenRows s.dims = .ok (batch, width)) : FullyConnected.IsRows s batch width := by
  obtain ⟨dims⟩ := s
  match dims, h with
  | first :: rest, hd =>
      obtain ⟨rfl, rfl⟩ := Prod.mk.inj (Except.ok.inj hd)
      exact ⟨rest, rfl, rfl⟩

theorem isPermutation_of_permute {s t : Shape} {shuffle : List Nat}
    (h : s.permute shuffle = .ok t) :
    IsPermutation shuffle s.rank ∧ t.dims = permuted shuffle s.dims := by
  obtain ⟨_, hcheck, h⟩ := Except.bind_eq_ok.mp h
  obtain rfl := Except.ok.inj h
  exact ⟨checkPermutation_eq_ok_iff.mp hcheck, rfl⟩

namespace Program

variable {p : Program α} {id : ValueId} {s t : Shape}

theorem exists_declaration_of_shapeOf (h : p.shapeOf id = .ok s) :
    ∃ k, p.signature id = some ⟨k, s⟩ := by
  rw [shapeOf, value] at h
  rw [signature]
  rcases hv : p.values[id]? with - | v
  · rw [hv] at h
    cases h
  · rw [hv] at h
    exact ⟨v.kind, by rw [← Except.ok.inj h]; rfl⟩

theorem exists_declaration_of_requireKind {k : ElemKind} (h : p.requireKind k id = .ok ()) :
    ∃ s, p.signature id = some ⟨k, s⟩ := by
  rw [requireKind, value] at h
  rw [signature]
  rcases hv : p.values[id]? with - | v
  · rw [hv] at h
    cases h
  · rw [hv, Except.ok_bind] at h
    dsimp only at h
    split at h
    · rename_i hk
      exact ⟨v.shape, by rw [← hk]; rfl⟩
    · cases h

/-- A value with a declared kind and a declared shape declares both. -/
theorem signature_eq {k : ElemKind} (hk : p.requireKind k id = .ok ())
    (hs : p.shapeOf id = .ok s) : p.signature id = some ⟨k, s⟩ := by
  obtain ⟨s', hs'⟩ := exists_declaration_of_requireKind hk
  obtain ⟨k', hk'⟩ := exists_declaration_of_shapeOf hs
  rw [hs'] at hk'
  obtain ⟨-, rfl⟩ := Declaration.mk.inj (Option.some.inj hk')
  exact hs'

theorem shapeOf_of_requireShape {subject : String} (h : p.requireShape id subject s = .ok ()) :
    p.shapeOf id = .ok s := by
  obtain ⟨t, ht, h⟩ := Except.bind_eq_ok.mp h
  rw [ht, eq_of_requireSameShape h]

/-- The demand on a list of values is one on each. -/
theorem requireKind_of_requireFloats {ids : List ValueId} (h : p.requireFloats ids = .ok ()) :
    ∀ id ∈ ids, p.requireKind .float id = .ok () := Except.forM_eq_ok h

theorem shapeOf_of_images {d : NHWC} (h : p.images id = .ok d) : p.shapeOf id = .ok d.toShape := by
  obtain ⟨s, hs, h⟩ := Except.bind_eq_ok.mp h
  rw [hs, eq_toShape_of_ofDims h]

/-- Scalars whose shape is demanded. -/
theorem floats_of_requireShape {ids : List ValueId} (hk : p.requireFloats ids = .ok ())
    (hmem : id ∈ ids) {subject : String} (h : p.requireShape id subject s = .ok ()) :
    Signature.Floats p.signature id s :=
  signature_eq (requireKind_of_requireFloats hk id hmem) (shapeOf_of_requireShape h)

/-- Scalars whose shape is looked up. -/
theorem floats_of_shapeOf {ids : List ValueId} (hk : p.requireFloats ids = .ok ())
    (hmem : id ∈ ids) (h : p.shapeOf id = .ok s) : Signature.Floats p.signature id s :=
  signature_eq (requireKind_of_requireFloats hk id hmem) h

/-! ### What the demands of an instruction say -/

theorem exists_sameFloats {dest src : ValueId} {subject : String}
    (h : p.requireSameFloats dest src subject = .ok ()) :
    ∃ s, Signature.Floats p.signature dest s ∧ Signature.Floats p.signature src s := by
  obtain ⟨_, hk, h⟩ := Except.bind_eq_ok.mp h
  obtain ⟨s, hs, h⟩ := Except.bind_eq_ok.mp h
  exact ⟨s, floats_of_requireShape hk (by simp) h, floats_of_shapeOf hk (by simp) hs⟩

theorem typed_convolution {i : Convolution} (h : p.verifyConvolution i = .ok ()) :
    (Instruction.convolution i : Instruction α).Typed p.signature := by
  obtain ⟨_, hk, h⟩ := Except.bind_eq_ok.mp h
  obtain ⟨input, hinput, h⟩ := Except.bind_eq_ok.mp h
  obtain ⟨output, houtput, h⟩ := Except.bind_eq_ok.mp h
  obtain ⟨⟨height, width⟩, -, h⟩ := Except.bind_eq_ok.mp h
  obtain ⟨_, hdest, h⟩ := Except.bind_eq_ok.mp h
  obtain ⟨_, hfilter, hbias⟩ := Except.bind_eq_ok.mp h
  have hoshape := shapeOf_of_images houtput
  -- the check computes the output from the input, so the batches are equal
  have hbatch : input.n = output.n := by
    have hdims := Except.ok.inj (hoshape.symm.trans (shapeOf_of_requireShape hdest))
    simp only [NHWC.toShape, Shape.mk.injEq, List.cons.injEq] at hdims
    exact hdims.1.symm
  exact .convolution (d := ⟨input, output⟩) (floats_of_shapeOf hk (by simp) hoshape)
    (floats_of_shapeOf hk (by simp) (shapeOf_of_images hinput))
    (floats_of_requireShape hk (by simp) hfilter) (floats_of_requireShape hk (by simp) hbias)
    ⟨rfl, rfl, hbatch, rfl, rfl⟩

theorem typed_pool {i : Pool} (h : p.verifyPool i = .ok ()) :
    (Instruction.pool i : Instruction α).Typed p.signature := by
  obtain ⟨_, hk, h⟩ := Except.bind_eq_ok.mp h
  obtain ⟨input, hinput, h⟩ := Except.bind_eq_ok.mp h
  obtain ⟨⟨height, width⟩, -, h⟩ := Except.bind_eq_ok.mp h
  obtain ⟨_, hdest, h⟩ := Except.bind_eq_ok.mp h
  have hsrc := floats_of_shapeOf hk (by simp) (shapeOf_of_images hinput)
  have hout := floats_of_requireShape hk (by simp) hdest
  have hfits : Pool.Fits ⟨input, ⟨input.n, height, width, input.c⟩⟩ input.toShape
      ⟨[input.n, height, width, input.c]⟩ := ⟨rfl, rfl, rfl, rfl⟩
  -- only a max pool saves coordinates, and it must name where
  rcases hkind : i.kind with - | -
  · rcases hcoords : i.coords with - | coords
    · simp only [hkind, hcoords] at h
      cases h
    · simp only [hkind, hcoords] at h
      obtain ⟨_, hindex, h⟩ := Except.bind_eq_ok.mp h
      exact .maxPool hkind hout hsrc hcoords (signature_eq hindex (shapeOf_of_requireShape h)) hfits
  · exact .avgPool hkind hout hsrc hfits

theorem typed_fullyConnected {i : FullyConnected} (h : p.verifyFullyConnected i = .ok ()) :
    (Instruction.fullyConnected i : Instruction α).Typed p.signature := by
  obtain ⟨_, hk, h⟩ := Except.bind_eq_ok.mp h
  obtain ⟨src, hsrc, h⟩ := Except.bind_eq_ok.mp h
  obtain ⟨⟨batch, inputs⟩, hrows, h⟩ := Except.bind_eq_ok.mp h
  obtain ⟨dest, hdest, h⟩ := Except.bind_eq_ok.mp h
  obtain ⟨⟨outBatch, outputs⟩, houtRows, h⟩ := Except.bind_eq_ok.mp h
  dsimp only at h
  split at h
  · cases h
  · rename_i hbatch
    have hrowsOut : FullyConnected.IsRows dest batch outputs :=
      not_not.mp hbatch ▸ isRows_of_flattenRows houtRows
    obtain ⟨_, hfilter, hbias⟩ := Except.bind_eq_ok.mp h
    exact .fullyConnected (d := ⟨batch, inputs, outputs⟩) (floats_of_shapeOf hk (by simp) hdest)
      (floats_of_shapeOf hk (by simp) hsrc) (floats_of_requireShape hk (by simp) hfilter)
      (floats_of_requireShape hk (by simp) hbias)
      ⟨isRows_of_flattenRows hrows, hrowsOut, rfl, rfl⟩

theorem typed_softmax {i : Softmax} (h : p.verifySoftmax i = .ok ()) :
    (Instruction.softmax i : Instruction α).Typed p.signature := by
  obtain ⟨_, hk, h⟩ := Except.bind_eq_ok.mp h
  obtain ⟨_, hindex, h⟩ := Except.bind_eq_ok.mp h
  obtain ⟨src, hsrc, h⟩ := Except.bind_eq_ok.mp h
  obtain ⟨_, hrank, h⟩ := Except.bind_eq_ok.mp h
  obtain ⟨_, hdest, h⟩ := Except.bind_eq_ok.mp h
  obtain ⟨_, hsaved, hselected⟩ := Except.bind_eq_ok.mp h
  obtain ⟨rows, columns, rfl⟩ := exists_matrix_of_requireRank hrank
  exact .softmax (floats_of_requireShape hk (by simp) hdest) (floats_of_shapeOf hk (by simp) hsrc)
    (floats_of_requireShape hk (by simp) hsaved)
    (signature_eq hindex (shapeOf_of_requireShape hselected))

theorem typed_regression {i : Regression} (h : p.verifyRegression i = .ok ()) :
    (Instruction.regression i : Instruction α).Typed p.signature := by
  obtain ⟨_, hk, h⟩ := Except.bind_eq_ok.mp h
  obtain ⟨src, hsrc, h⟩ := Except.bind_eq_ok.mp h
  obtain ⟨_, hrank, h⟩ := Except.bind_eq_ok.mp h
  obtain ⟨_, hdest, hexpected⟩ := Except.bind_eq_ok.mp h
  obtain ⟨rows, columns, rfl⟩ := exists_matrix_of_requireRank hrank
  exact .regression (floats_of_requireShape hk (by simp) hdest)
    (floats_of_shapeOf hk (by simp) hsrc) (floats_of_requireShape hk (by simp) hexpected)

theorem typed_transpose {i : Transpose} (h : p.verifyTranspose i = .ok ()) :
    (Instruction.transpose i : Instruction α).Typed p.signature := by
  obtain ⟨_, hk, h⟩ := Except.bind_eq_ok.mp h
  obtain ⟨src, hsrc, h⟩ := Except.bind_eq_ok.mp h
  obtain ⟨out, hpermute, hdest⟩ := Except.bind_eq_ok.mp h
  obtain ⟨hshuffle, hdims⟩ := isPermutation_of_permute hpermute
  exact .transpose (floats_of_requireShape hk (by simp) hdest)
    (floats_of_shapeOf hk (by simp) hsrc) hshuffle hdims

theorem typed_reshape {i : Unary} (h : p.verifyReshape i = .ok ()) :
    (Instruction.reshape i : Instruction α).Typed p.signature := by
  obtain ⟨_, hk, h⟩ := Except.bind_eq_ok.mp h
  obtain ⟨src, hsrc, h⟩ := Except.bind_eq_ok.mp h
  obtain ⟨dest, hdest, hsize⟩ := Except.bind_eq_ok.mp h
  exact .reshape (floats_of_shapeOf hk (by simp) hdest) (floats_of_shapeOf hk (by simp) hsrc)
    (eq_of_requireSameSize hsize).symm

/-- The shape that a value declares, if any. -/
def shapeOrEmpty (p : Program α) (id : ValueId) : Shape :=
  match p.shapeOf id with
  | .ok s => s
  | .error _ => default

theorem shapeOrEmpty_of_shapeOf (h : p.shapeOf id = .ok s) : p.shapeOrEmpty id = s := by
  rw [shapeOrEmpty, h]

/-- The extent that blocks cover along an axis, if they agree with what they are
laid into on the other axes. -/
def covering (p : Program α) (dest : Shape) (dim covered : Nat) (id : ValueId) :
    Except Error Nat := do
  let s ← p.shapeOf id
  if s.agreesExcept dest dim then return covered + s.dims.getD dim 0
  else throw (.shapeMismatch "concat operand" dest s)

/-- The walk that covers an axis has seen the shapes of the blocks, which agree on the
other axes, and comes to the sum of their extents. -/
theorem of_covering_eq_ok {dest : Shape} {dim : Nat} {ids : List ValueId} {start covered : Nat}
    (h : ids.foldlM (p.covering dest dim) start = .ok covered) :
    (∀ id ∈ ids, p.shapeOf id = .ok (p.shapeOrEmpty id) ∧
      (p.shapeOrEmpty id).agreesExcept dest dim = true) ∧
    covered = start + (ids.map fun id => (p.shapeOrEmpty id).dims.getD dim 0).sum := by
  -- along the blocks, for any extent covered before
  induction ids generalizing start with
  | nil =>
      obtain rfl := Except.ok.inj h
      simp
  | cons id ids ih =>
      rw [List.foldlM_cons] at h
      obtain ⟨next, hnext, h⟩ := Except.bind_eq_ok.mp h
      obtain ⟨s, hs, hnext⟩ := Except.bind_eq_ok.mp hnext
      split at hnext
      · rename_i hagrees
        obtain rfl := Except.ok.inj hnext
        obtain ⟨hrest, rfl⟩ := ih h
        have hshape := shapeOrEmpty_of_shapeOf hs
        refine ⟨List.forall_mem_cons.mpr ⟨⟨?_, ?_⟩, hrest⟩, ?_⟩
        · rw [hs, hshape]
        · rw [hshape, hagrees]
        · rw [List.map_cons, List.sum_cons, hshape, Nat.add_assoc]
      · cases hnext

theorem typed_concat {i : Concat} (h : p.verifyConcat i = .ok ()) :
    (Instruction.concat i : Instruction α).Typed p.signature := by
  obtain ⟨_, hdestk, h⟩ := Except.bind_eq_ok.mp h
  obtain ⟨_, hk, h⟩ := Except.bind_eq_ok.mp h
  obtain ⟨dest, hdest, h⟩ := Except.bind_eq_ok.mp h
  obtain ⟨extent, hextent, h⟩ := Except.bind_eq_ok.mp h
  split at h
  · cases h
  obtain ⟨covered, hwalk, h⟩ := Except.bind_eq_ok.mp h
  obtain ⟨hall, hsum⟩ := of_covering_eq_ok hwalk
  split at h
  · cases h
  · rename_i hcover
    obtain rfl : covered = extent := not_not.mp hcover
    have hextents : dest.dims[i.dim]?
        = some ((i.srcs.map fun id => (p.shapeOrEmpty id).dims.getD i.dim 0)).sum := by
      rw [getElem?_of_dim hextent, hsum, Nat.zero_add]
    exact .concat (floats_of_shapeOf hdestk (by simp) hdest)
      (fun id hid => floats_of_shapeOf hk hid (hall id hid).1) (fun id hid => (hall id hid).2)
      hextents

theorem typed_batchNorm {i : BatchNorm α} (h : p.verifyBatchNorm i = .ok ()) :
    (Instruction.batchNorm i).Typed p.signature := by
  obtain ⟨_, hk, h⟩ := Except.bind_eq_ok.mp h
  obtain ⟨src, hsrc, h⟩ := Except.bind_eq_ok.mp h
  obtain ⟨_, hdest, h⟩ := Except.bind_eq_ok.mp h
  obtain ⟨count, hcount, h⟩ := Except.bind_eq_ok.mp h
  obtain ⟨_, hscale, h⟩ := Except.bind_eq_ok.mp h
  obtain ⟨_, hbias, h⟩ := Except.bind_eq_ok.mp h
  obtain ⟨_, hmean, hvar⟩ := Except.bind_eq_ok.mp h
  exact .batchNorm (floats_of_requireShape hk (by simp) hdest)
    (floats_of_shapeOf hk (by simp) hsrc) (getElem?_of_dim hcount)
    (floats_of_requireShape hk (by simp) hscale) (floats_of_requireShape hk (by simp) hbias)
    (floats_of_requireShape hk (by simp) hmean) (floats_of_requireShape hk (by simp) hvar)

theorem typed_localResponse {i : LocalResponse α} (h : p.verifyLocalResponse i = .ok ()) :
    (Instruction.localResponse i).Typed p.signature := by
  obtain ⟨_, hk, h⟩ := Except.bind_eq_ok.mp h
  obtain ⟨input, hinput, h⟩ := Except.bind_eq_ok.mp h
  split at h
  · cases h
  · rename_i hpos
    obtain ⟨_, hdest, hscale⟩ := Except.bind_eq_ok.mp h
    exact .localResponse (floats_of_requireShape hk (by simp) hdest)
      (floats_of_shapeOf hk (by simp) (shapeOf_of_images hinput))
      (floats_of_requireShape hk (by simp) hscale) hpos

theorem typed_arithmetic {i : Arithmetic} (h : p.verifyArithmetic i = .ok ()) :
    (Instruction.arithmetic i : Instruction α).Typed p.signature := by
  obtain ⟨_, hk, h⟩ := Except.bind_eq_ok.mp h
  obtain ⟨lhs, hlhs, h⟩ := Except.bind_eq_ok.mp h
  obtain ⟨_, hrhs, hdest⟩ := Except.bind_eq_ok.mp h
  exact .arithmetic (floats_of_requireShape hk (by simp) hdest)
    (floats_of_shapeOf hk (by simp) hlhs) (floats_of_requireShape hk (by simp) hrhs)

/-- What is given a life is declared as an activation. -/
theorem exists_activation (h : p.requireActivation id = .ok ()) :
    ∃ v, p.values[id]? = some v ∧ v.role = .activation := by
  obtain ⟨v, hv, h⟩ := Except.bind_eq_ok.mp h
  rw [value] at hv
  split at hv
  · rename_i u hu
    obtain rfl := Except.ok.inj hv
    split at h
    · exact ⟨u, hu, by assumption⟩
    · cases h
  · cases hv

/-- **The static check is sound.**  An instruction that meets its demands is
well typed. -/
theorem typed_of_verifyInstruction {i : Instruction α} (h : p.verifyInstruction i = .ok ()) :
    i.Typed p.signature := by
  cases i with
  | copy i =>
      obtain ⟨s, hdest, hsrc⟩ := exists_sameFloats h
      exact .copy hdest hsrc
  | reshape i => exact typed_reshape h
  | activation f i =>
      obtain ⟨s, hdest, hsrc⟩ := exists_sameFloats h
      exact .activation hdest hsrc
  | convolution i => exact typed_convolution h
  | pool i => exact typed_pool h
  | fullyConnected i => exact typed_fullyConnected h
  | softmax i => exact typed_softmax h
  | regression i => exact typed_regression h
  | transpose i => exact typed_transpose h
  | concat i => exact typed_concat h
  | batchNorm i => exact typed_batchNorm h
  | localResponse i => exact typed_localResponse h
  | arithmetic i => exact typed_arithmetic h
  | alloc id =>
      obtain ⟨v, hv, -⟩ := exists_activation h
      exact .alloc (d := v.declaration) (by rw [signature, hv]; rfl)
  | dealloc id => exact .dealloc

end Program

end TensorProgram
