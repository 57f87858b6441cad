/-
TensorProgram/Proofs/Gradient/Kernel.lean

The cells of the kernels that add and multiply.  For each kernel: its cells,
that they fill its output, that forward it writes their values, and that the
terms which its way back deposits, paired with a direction, add up to the
gradient of the output paired with the slopes of the cells.

The last is the adjoint of the kernel: no position of an input is inverted,
both sums run over the cells of the output and the summands of each.
-/
import TensorProgram.Proofs.Gradient.Pairing
import TensorProgram.Proofs.Kernel.FullyConnected
import TensorProgram.Proofs.Kernel.Pooling
import TensorProgram.Proofs.Kernel.Rearrange

namespace TensorProgram

variable {K : Type} [ExactScalar K]

open Shape (coordinatesIn flat)

/-! ### Sums over cells -/

/-- The gradient of an output paired with the slopes of its cells. -/
def pairedCells (cells : List (Cell K)) (g : Nat → K) (x d : Place → K) : K :=
  (cells.map fun cell => g cell.position * cell.slope x d).sum

/-- What the terms of an affine sum `Σ f * x + b` add up to. -/
theorem sum_affine {ι : Type} (ts : List ι) (g db : K) (f x df dx : ι → K) :
    (ts.map fun t => x t * g * df t + f t * g * dx t).sum + g * db
      = g * ((ts.map fun t => f t * dx t + df t * x t).sum + db) := by
  induction ts with
  | nil => simp
  | cons t ts ih =>
      simp only [List.map_cons, List.sum_cons]
      linear_combination ih

/-- A cell with products and one summand without factor. -/
theorem value_affine {ι : Type} (ts : List ι) (p q : ι → Place) (b : Place) (k : Nat)
    (x : Place → K) :
    (⟨k, ts.map (fun t => .product (p t) (q t)) ++ [.scaled 1 b]⟩ : Cell K).value x
      = (ts.map fun t => x (p t) * x (q t)).sum + x b := by
  simp [Cell.value, Summand.value, Function.comp_def]

theorem slope_affine {ι : Type} (ts : List ι) (p q : ι → Place) (b : Place) (k : Nat)
    (x d : Place → K) :
    (⟨k, ts.map (fun t => .product (p t) (q t)) ++ [.scaled 1 b]⟩ : Cell K).slope x d
      = (ts.map fun t => x (p t) * d (q t) + d (p t) * x (q t)).sum + d b := by
  simp [Cell.slope, Summand.slope, Function.comp_def]

variable {x d : Place → K} {src out : View K}

/-! ### Copies and changes of shape -/

namespace Unary

variable (i : Unary)

/-- Every element is the one at its position. -/
def cells (n : Nat) : List (Cell K) :=
  (List.range n).map fun k => ⟨k, [.scaled 1 (i.src, k)]⟩

theorem fill_cells (n : Nat) : Fill (i.cells n : List (Cell K)) n := by
  rw [Fill, cells, List.map_map]
  exact .of_eq (List.map_id _)

theorem filled_cells (hx : ∀ k, x (i.src, k) = src.entry k) {n : Nat}
    (hn : src.shape.elemCount = n) :
    filled n (cellWrites (i.cells n) x) = src.data.cast hn := by
  subst hn
  apply Vector.ext
  intro k hk
  have hfill : Fill (i.cells src.shape.elemCount : List (Cell K)) src.shape.elemCount :=
    i.fill_cells _
  have hcell : (⟨k, [.scaled 1 (i.src, k)]⟩ : Cell K) ∈ i.cells src.shape.elemCount :=
    List.mem_map.mpr ⟨k, List.mem_range.mpr hk, rfl⟩
  have hentry := hfill.entry_filled x hcell
  rw [View.entry, dif_pos hk] at hentry
  refine hentry.trans ?_
  simp [Cell.value, Summand.value, hx, View.entry, hk]

/-- The adjoint of a moved buffer. -/
theorem paired_cells (n : Nat) :
    pairedDeposit d (i.src, pointwise n out.entry) = pairedCells (i.cells n) out.entry x d := by
  simp [pairedDeposit, pairedCells, pointwise, cells, Cell.slope, Summand.slope,
    Function.comp_def]

end Unary

/-! ### Transpositions -/

/-- Reordering the coordinates of a shape gives those of the reordered shape. -/
theorem IsPermutation.perm_coordinatesIn {σ dims : List Nat} (h : IsPermutation σ dims.length) :
    ((coordinatesIn dims).map (permuted σ)).Perm (coordinatesIn (permuted σ dims)) := by
  have hback {c : List Nat} (hc : c ∈ coordinatesIn dims) :
      permuted (inverseShuffle σ) (permuted σ c) = c :=
    h.permuted_inverse (Shape.mem_coordinatesIn.mp hc).1
  refine (List.perm_ext_iff_of_nodup ?_ (Shape.nodup_coordinatesIn _)).mpr fun c => ?_
  · refine (List.nodup_map_iff_inj_on (Shape.nodup_coordinatesIn _)).mpr fun a ha b hb hab => ?_
    rw [← hback ha, hab, hback hb]
  · rw [List.mem_map]
    constructor
    · rintro ⟨a, ha, rfl⟩
      exact Shape.permuted_mem h rfl ha
    · intro hc
      obtain ⟨hlen, hback⟩ := Shape.permuted_back_mem h rfl hc
      exact ⟨permuted (inverseShuffle σ) c, hback, h.permuted_inverse' hlen⟩

namespace Transpose

variable (i : Transpose) {s u : Shape}

/-- Every element is the one at the permuted-back coordinate. -/
def cells (s u : Shape) : List (Cell K) :=
  (coordinatesIn u.dims).map fun c =>
    ⟨flat u.dims c, [.scaled 1 (i.src, flat s.dims (permuted (inverseShuffle i.shuffle) c))]⟩

theorem fill_cells (s u : Shape) : Fill (i.cells s u : List (Cell K)) u.elemCount := by
  refine .of_eq ?_
  rw [cells, List.map_map]
  exact Shape.map_flat_coordinatesIn _

theorem writes_eq (hx : ∀ k, x (i.src, k) = src.entry k) :
    coordinatewise u.dims (fun c => src.elem (permuted (inverseShuffle i.shuffle) c))
      = cellWrites (i.cells src.shape u) x := by
  rw [coordinatewise, cellWrites, cells, List.map_map]
  refine List.map_congr_left fun c _ => ?_
  simp [Cell.value, Summand.value, View.elem, hx]

/-- The adjoint of a transposition: the sum over the coordinates of the input is
one over those of the output. -/
theorem paired_cells (hσ : IsPermutation i.shuffle s.rank)
    (hs : out.shape.dims = permuted i.shuffle s.dims) :
    pairedDeposit d (i.src, coordinatewise s.dims fun c => out.elem (permuted i.shuffle c))
      = pairedCells (i.cells s out.shape) out.entry x d := by
  let term (c : List Nat) : K := out.entry (flat out.shape.dims c)
    * d (i.src, flat s.dims (permuted (inverseShuffle i.shuffle) c))
  have hin : pairedDeposit d (i.src, coordinatewise s.dims fun c => out.elem (permuted i.shuffle c))
      = (((coordinatesIn s.dims).map (permuted i.shuffle)).map term).sum := by
    simp only [pairedDeposit, coordinatewise, List.map_map]
    congr 1
    refine List.map_congr_left fun c hc => ?_
    simp only [Function.comp_apply, View.elem, term]
    rw [hσ.permuted_inverse (Shape.mem_coordinatesIn.mp hc).1]
  have hout : pairedCells (i.cells s out.shape) out.entry x d
      = ((coordinatesIn out.shape.dims).map term).sum := by
    simp [pairedCells, cells, Cell.slope, Summand.slope, Function.comp_def, term]
  rw [hin, hout, hs]
  exact (IsPermutation.perm_coordinatesIn hσ |>.map term).sum_eq

end Transpose

/-! ### Concatenations -/

namespace Concat

theorem layFrom_congr {f g : ValueId → Nat} {ids : List ValueId} (h : ∀ id ∈ ids, f id = g id)
    (start : Nat) : layFrom f ids start = layFrom g ids start := by
  induction ids generalizing start with
  | nil => rfl
  | cons id ids ih =>
      rw [layFrom, layFrom, h id (by simp), ih fun j hj => h j (by simp [hj])]

variable (i : Concat) {dest : Shape} {shape : ValueId → Shape} {V : ValueId → View K}

/-- The operands of these shapes with the places where their blocks begin. -/
def places (shape : ValueId → Shape) : List (ValueId × Nat) :=
  layFrom (fun id => (shape id).dims.getD i.dim 0) i.srcs 0

/-- Every element is one of a block, at the coordinate without the place of the
block. -/
def cells (dest : Shape) (shape : ValueId → Shape) : List (Cell K) :=
  (i.places shape).flatMap fun p => (coordinatesIn (shape p.1).dims).map fun c =>
    ⟨flat dest.dims (shift i.dim p.2 c), [.scaled 1 (p.1, flat (shape p.1).dims c)]⟩

omit [ExactScalar K] in
theorem lay_eq (hV : ∀ id ∈ i.srcs, (V id).shape = shape id) : i.lay V = i.places shape :=
  layFrom_congr (fun id hid => by rw [blockExtent, hV id hid]) 0

/-- What is laid out are the operands. -/
theorem mem_srcs_of_mem_places {p : ValueId × Nat} (hp : p ∈ i.places shape) : p.1 ∈ i.srcs :=
  (le_of_mem_layFrom hp).1

theorem writes_eq (hV : ∀ id ∈ i.srcs, (V id).shape = shape id)
    (hx : ∀ id ∈ i.srcs, ∀ k, x (id, k) = (V id).entry k) :
    i.writes dest V = cellWrites (i.cells dest shape) x := by
  rw [writes, cellWrites, cells, List.map_flatMap, i.lay_eq hV]
  refine List.flatMap_congr fun p hp => ?_
  have hmem := i.mem_srcs_of_mem_places hp
  rw [List.map_map, hV p.1 hmem]
  refine List.map_congr_left fun c _ => ?_
  simp [Cell.value, Summand.value, View.elem, hx p.1 hmem, hV p.1 hmem]

theorem fill_cells (hagrees : ∀ id ∈ i.srcs, (shape id).agreesExcept dest i.dim = true)
    (hextent : dest.dims[i.dim]? = some ((i.srcs.map fun id => (shape id).dims.getD i.dim 0)).sum) :
    Fill (i.cells dest shape : List (Cell K)) dest.elemCount := by
  let V (id : ValueId) : View K := ⟨shape id, Vector.replicate _ 0⟩
  have hperm := i.perm_writes (V := V) ⟨hagrees, hextent⟩
  rwa [i.writes_eq (x := fun p => (V p.1).entry p.2) (fun _ _ => rfl) fun _ _ _ => rfl,
    cellWrites, List.map_map] at hperm

/-- The adjoint of a concatenation: every block receives its part of the
gradient, as often as it is laid out. -/
theorem paired_cells (hV : ∀ id ∈ i.srcs, (V id).shape = shape id) :
    (((i.lay V).map fun p => ((p.1, coordinatewise (V p.1).shape.dims
        fun c => out.elem (shift i.dim p.2 c)) : Deposit K)).map (pairedDeposit d)).sum
      = pairedCells (i.cells out.shape shape) out.entry x d := by
  simp only [i.lay_eq hV, pairedCells, cells, sum_map_flatMap, List.map_map]
  congr 1
  refine List.map_congr_left fun p hp => ?_
  simp [pairedDeposit, coordinatewise, View.elem, Cell.slope, Summand.slope, Function.comp_def,
    hV p.1 (i.mem_srcs_of_mem_places hp)]

end Concat

/-! ### Operations on two elements -/

namespace Arithmetic

variable (i : Arithmetic) {lhs rhs : View K}

/-- Every element is the sum or the product of two. -/
def cells (n : Nat) : List (Cell K) :=
  (List.range n).map fun k => ⟨k, match i.kind with
    | .add => [.scaled 1 (i.lhs, k), .scaled 1 (i.rhs, k)]
    | .mul => [.product (i.lhs, k) (i.rhs, k)]⟩

theorem fill_cells (n : Nat) : Fill (i.cells n : List (Cell K)) n := by
  rw [Fill, cells, List.map_map]
  exact .of_eq (List.map_id _)

theorem writes_eq (hl : ∀ k, x (i.lhs, k) = lhs.entry k) (hr : ∀ k, x (i.rhs, k) = rhs.entry k)
    (n : Nat) :
    pointwise n (fun k => i.kind.value (lhs.entry k) (rhs.entry k))
      = cellWrites (i.cells n) x := by
  rw [pointwise, cellWrites, cells, List.map_map]
  refine List.map_congr_left fun k _ => ?_
  rcases i.kind with - | - <;>
    simp [Cell.value, Summand.value, ArithmeticKind.value, hl, hr]

/-- The adjoint of an operation: both operands receive their terms, whether or
not they are the same value. -/
theorem paired_cells (hl : ∀ k, x (i.lhs, k) = lhs.entry k)
    (hr : ∀ k, x (i.rhs, k) = rhs.entry k) (n : Nat) :
    pairedDeposit d (i.lhs, i.contribution rhs out n)
        + pairedDeposit d (i.rhs, i.contribution lhs out n)
      = pairedCells (i.cells n) out.entry x d := by
  simp only [pairedDeposit, pairedCells, contribution, pointwise, cells, List.map_map,
    ← List.sum_map_add]
  congr 1
  refine List.map_congr_left fun k _ => ?_
  rcases i.kind with - | -
  · simp [Cell.slope, Summand.slope, ArithmeticKind.slopeAt, mul_add]
  · simp only [Cell.slope, Summand.slope, ArithmeticKind.slopeAt, hl, hr,
      Function.comp_apply, List.map_cons, List.map_nil, List.sum_cons, List.sum_nil]
    ring

end Arithmetic

/-! ### Affine maps of rows -/

namespace FullyConnected

variable (i : FullyConnected) {filter bias : View K} {e : Dims} {dest : Shape}

/-- Output `j` of row `n`. -/
def cellAt (e : Dims) (n j : Nat) : Cell K :=
  ⟨n * e.outputs + j, (List.range e.inputs).map (fun k => .product (i.src, n * e.inputs + k)
    (i.filter, flat [e.outputs, e.inputs] [j, k])) ++ [.scaled 1 (i.bias, flat [e.outputs] [j])]⟩

/-- The outputs of all rows. -/
def cells (e : Dims) : List (Cell K) :=
  (List.range e.batch).flatMap fun n => (List.range e.outputs).map fun j => i.cellAt e n j

theorem fill_cells (e : Dims) : Fill (i.cells e : List (Cell K)) (e.batch * e.outputs) := by
  refine .of_eq ?_
  rw [cells, List.map_flatMap, ← Shape.range_flatMap_block]
  simp only [List.map_map]
  rfl

theorem writes_eq (hx : ∀ k, x (i.src, k) = src.entry k)
    (hf : ∀ k, x (i.filter, k) = filter.entry k) (hb : ∀ k, x (i.bias, k) = bias.entry k)
    (h : Fits e src.shape dest filter.shape bias.shape) :
    writes e src filter bias = cellWrites (i.cells e) x := by
  rw [writes, cellWrites, cells, List.map_flatMap]
  simp only [List.map_map]
  congr 1
  funext n
  refine List.map_congr_left fun j _ => ?_
  simp only [Function.comp_apply, cellAt, cell, value_affine, Scalar.sum_eq, View.elem, hx, hf, hb,
    h.filter, h.bias]

/-- The adjoint of an affine map. -/
theorem paired_cells (hx : ∀ k, x (i.src, k) = src.entry k)
    (hf : ∀ k, x (i.filter, k) = filter.entry k)
    (h : Fits e src.shape dest filter.shape bias.shape) :
    pairedDeposit d (i.src, inputTerms e filter out)
        + pairedDeposit d (i.filter, filterTerms e src out)
        + pairedDeposit d (i.bias, biasTerms e out)
      = pairedCells (i.cells e) out.entry x d := by
  simp only [pairedDeposit, pairedCells, inputTerms, filterTerms, biasTerms, forCells, cells,
    sum_map_flatMap, List.map_map, Function.comp_def, ← List.sum_map_add]
  congr 1
  refine List.map_congr_left fun n _ => ?_
  congr 1
  refine List.map_congr_left fun j _ => ?_
  simp only [cellAt, slope_affine, hx, hf, View.elem, h.filter]
  exact sum_affine (K := K) _ _ _ _ _ _ _

end FullyConnected

/-! ### Average pools -/

namespace Pool

variable (i : Pool) {e : ImageDims} {dest : Shape}

/-- The average under the window of a site. -/
def cellAt (e : ImageDims) (o : OutputSite) : Cell K :=
  ⟨o.position e.output, (i.window.taps o.anchor e.input).map fun t =>
    .scaled (1 / i.area) (i.src, flat e.input.toShape.dims (tapCoord o t))⟩

/-- The averages under all windows. -/
def cells (e : ImageDims) : List (Cell K) := (i.window.sites e.output).map fun o => i.cellAt e o

theorem fill_cells (e : ImageDims) :
    Fill (i.cells e : List (Cell K)) e.output.toShape.elemCount := by
  rw [Fill, cells, List.map_map]
  exact i.window.perm_sites

theorem writes_eq (hx : ∀ k, x (i.src, k) = src.entry k) (h : Fits e src.shape dest) :
    i.averages e src = cellWrites (i.cells e) x := by
  rw [averages, cellWrites, cells, List.map_map]
  refine List.map_congr_left fun o _ => ?_
  simp only [Function.comp_apply, cellAt, Cell.value, Summand.value, mean, Scalar.sum_eq,
    List.map_map, Function.comp_def, View.elem, hx, h.src, smul_eq_mul, List.sum_map_mul_left]
  rw [div_eq_inv_mul, one_div]

/-- The adjoint of an average pool: every element under a window receives its
share. -/
theorem paired_cells (houts : out.shape = e.output.toShape) :
    pairedDeposit d (i.src, i.shares e out) = pairedCells (i.cells e) out.entry x d := by
  simp only [pairedDeposit, pairedCells, shares, cells, sum_map_flatMap, List.map_map,
    Function.comp_def]
  congr 1
  refine List.map_congr_left fun o _ => ?_
  simp only [cellAt, Cell.slope, Summand.slope, List.map_map, Function.comp_def,
    List.sum_map_mul_left, View.elem, OutputSite.position, houts]
  ring

end Pool

/-! ### Convolutions -/

namespace Convolution

variable (i : Convolution) {filter bias : View K} {e : ImageDims} {dest : Shape}

/-- The element of the output at a site. -/
def cellAt (e : ImageDims) (o : OutputSite) : Cell K :=
  ⟨o.position e.output, (i.window.channelTaps o.anchor e.input).map (fun t => .product
    (i.filter, flat [e.output.c, i.window.kernel, i.window.kernel, e.input.c] (t.inFilter o.d))
    (i.src, flat e.input.toShape.dims (t.inImage o.n))) ++ [.scaled 1 (i.bias, flat [e.output.c] [o.d])]⟩

/-- The elements of the output. -/
def cells (e : ImageDims) : List (Cell K) := (i.window.sites e.output).map fun o => i.cellAt e o

theorem fill_cells (e : ImageDims) :
    Fill (i.cells e : List (Cell K)) e.output.toShape.elemCount := by
  rw [Fill, cells, List.map_map]
  exact i.window.perm_sites

theorem writes_eq (hx : ∀ k, x (i.src, k) = src.entry k)
    (hf : ∀ k, x (i.filter, k) = filter.entry k) (hb : ∀ k, x (i.bias, k) = bias.entry k)
    (h : Fits i.window e src.shape dest filter.shape bias.shape) :
    i.writes e src filter bias = cellWrites (i.cells e) x := by
  rw [writes, cellWrites, cells, List.map_map]
  refine List.map_congr_left fun o _ => ?_
  simp only [Function.comp_apply, cellAt, cell, value_affine, Scalar.sum_eq, View.elem, hx, hf, hb,
    h.src, h.filter, h.bias]

/-- The adjoint of a convolution whose filter gradient reads the image that is
being propagated. -/
theorem paired_cells (hx : ∀ k, x (i.src, k) = src.entry k)
    (hf : ∀ k, x (i.filter, k) = filter.entry k)
    (h : Fits i.window e src.shape dest filter.shape bias.shape) (houts : out.shape = dest) :
    pairedDeposit d (i.filter, i.filterTerms .currentBatch e src out)
        + pairedDeposit d (i.src, i.inputTerms e filter out)
        + pairedDeposit d (i.bias, i.biasTerms e out)
      = pairedCells (i.cells e) out.entry x d := by
  simp only [pairedDeposit, pairedCells, inputTerms, filterTerms, biasTerms, cells,
    sum_map_flatMap, List.map_map, Function.comp_def, ← List.sum_map_add]
  congr 1
  refine List.map_congr_left fun o _ => ?_
  simp only [cellAt, slope_affine, hx, hf, View.elem, OutputSite.position, FilterGradSource.image,
    h.src, h.filter, houts, h.dest]
  exact sum_affine (K := K) _ _ _ _ _ _ _

end Convolution

end TensorProgram
