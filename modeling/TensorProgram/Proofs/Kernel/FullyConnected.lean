/-
TensorProgram/Proofs/Kernel/FullyConnected.lean

What an affine map of rows computes.  Row `n` of a batch begins at `n` times the
length of a row, so the kernels visit rows and columns by position and leave
none out (`FullyConnected.forward_eq`).  The way back makes three deposits, one
for each of input, filter and bias (`FullyConnected.backward_eq`).
-/
import TensorProgram.Kernel.FullyConnected
import TensorProgram.Proofs.Kernel.Elementwise

namespace TensorProgram

variable {α : Type} [Scalar α]

open Context (shapeOf_eq floats_of_weights_eq floats_withoutWeight gradFloats_eq updateWeight_fills
  Deposits deposits_updateGrad)
open Run (Performs performs_scatter performs_scatter_inside liftM_check_ok)
open Shape (flat)

/-- Position `k` of row `n` lies inside a buffer of rows. -/
theorem mul_add_lt_mul {n k rows width : Nat} (hn : n < rows) (hk : k < width) :
    n * width + k < rows * width := by
  have hle : (n + 1) * width ≤ rows * width := Nat.mul_le_mul_right _ hn
  rw [Nat.succ_mul] at hle
  omega

namespace FullyConnected

/-- A shape is a batch of rows of this length. -/
def IsRows (s : Shape) (batch width : Nat) : Prop :=
  ∃ rest, s.dims = batch :: rest ∧ Shape.volume rest = width

section Rows

variable {s : Shape} {batch width n : Nat}

theorem IsRows.elemCount (h : IsRows s batch width) : s.elemCount = batch * width := by
  obtain ⟨rest, hdims, rfl⟩ := h
  rw [Shape.elemCount, hdims, Shape.volume_cons]

theorem IsRows.flattenRows (h : IsRows s batch width) :
    flattenRows s.dims = .ok (batch, width) := by
  obtain ⟨rest, hdims, rfl⟩ := h
  rw [hdims]
  rfl

theorem IsRows.rowStart (h : IsRows s batch width) (hn : n < batch) :
    rowStart s n = .ok (n * width) := by
  obtain ⟨rest, hdims, rfl⟩ := h
  have hin : Shape.Inside s.dims [n] := by
    rw [hdims]
    exact ⟨hn, Shape.inside_nil rest⟩
  rw [FullyConnected.rowStart, Shape.position_eq hin, hdims, Shape.flat_cons, Shape.flat_nil,
    Nat.add_zero]

end Rows

/-- The shapes of input, output, filter and bias fit these extents. -/
structure Fits (d : Dims) (src dest filter bias : Shape) : Prop where
  /-- The input is a batch of rows. -/
  src : IsRows src d.batch d.inputs
  /-- The output is a batch of as many rows. -/
  dest : IsRows dest d.batch d.outputs
  /-- The filter has an entry for every output and input. -/
  filter : filter = ⟨[d.outputs, d.inputs]⟩
  /-- The bias has an entry for every output. -/
  bias : bias = ⟨[d.outputs]⟩

variable (i : FullyConnected) {c : Context α} {src filter bias out : View α} {d : Dims}

omit [Scalar α] in
theorem dims_eq {t u v w : Tensor α} (hsrc : c.weights[i.src]? = some t)
    (hdest : c.weights[i.dest]? = some u) (hfilter : c.weights[i.filter]? = some v)
    (hbias : c.weights[i.bias]? = some w) (h : Fits d t.shape u.shape v.shape w.shape) :
    i.dims c = .ok d := by
  have hbatch : ¬ d.batch ≠ d.batch := fun hne => hne rfl
  rw [dims, shapeOf_eq hsrc, shapeOf_eq hdest, shapeOf_eq hfilter, shapeOf_eq hbias, h.filter, h.bias]
  simp only [Except.ok_bind, h.src.flattenRows, h.dest.flattenRows, requireSameShape_self,
    if_neg hbatch]
  rfl

/-! ### Forward -/

/-- Output `j` of row `n`. -/
def cell (d : Dims) (src filter bias : View α) (n j : Nat) : α :=
  Scalar.sum ((List.range d.inputs).map fun k =>
    src.entry (n * d.inputs + k) * filter.elem [j, k]) + bias.elem [j]

theorem elem_filter {s t u : Shape} (h : Fits d s t filter.shape u) {j k : Nat}
    (hj : j < d.outputs) (hk : k < d.inputs) : filter.get [j, k] = .ok (filter.elem [j, k]) := by
  refine filter.get_eq ?_ ?_
  · rw [h.filter]
    exact ⟨hj, hk, Shape.inside_nil _⟩
  · rw [h.filter]
    rfl

theorem elem_bias {s t u : Shape} (h : Fits d s t u bias.shape) {j : Nat}
    (hj : j < d.outputs) : bias.get [j] = .ok (bias.elem [j]) := by
  refine bias.get_eq ?_ ?_
  · rw [h.bias]
    exact ⟨hj, Shape.inside_nil _⟩
  · rw [h.bias]
    rfl

theorem raw_src {s t u : Shape} (h : Fits d src.shape s t u) {n k : Nat}
    (hn : n < d.batch) (hk : k < d.inputs) :
    src.raw (n * d.inputs + k) = .ok (src.entry (n * d.inputs + k)) := by
  refine src.raw_eq ?_
  rw [h.src.elemCount]
  exact mul_add_lt_mul hn hk

theorem value_eq {dest : Shape} (h : Fits d src.shape dest filter.shape bias.shape) {n j : Nat}
    (hn : n < d.batch) (hj : j < d.outputs) :
    value src filter bias d.inputs (n * d.inputs) j = .ok (cell d src filter bias n j) := by
  have hproducts : (List.range d.inputs).mapM (fun k => do
      return (← src.raw (n * d.inputs + k)) * (← filter.get [j, k]) : Nat → Outcome α)
      = .ok ((List.range d.inputs).map fun k =>
          src.entry (n * d.inputs + k) * filter.elem [j, k]) := by
    refine Outcome.mapM_eq_ok fun k hk => ?_
    have hk' : k < d.inputs := List.mem_range.mp hk
    rw [raw_src h hn hk', elem_filter h hj hk']
    rfl
  rw [value, hproducts, Except.ok_bind, elem_bias h hj]
  rfl

/-- What an affine map writes, row by row. -/
def writes (d : Dims) (src filter bias : View α) : List (Nat × α) :=
  (List.range d.batch).flatMap fun n =>
    (List.range d.outputs).map fun j => (n * d.outputs + j, cell d src filter bias n j)

theorem map_fst_writes (d : Dims) (src filter bias : View α) :
    (writes d src filter bias).map Prod.fst = List.range (d.batch * d.outputs) := by
  rw [writes, List.map_flatMap, ← Shape.range_flatMap_block]
  simp only [List.map_map]
  rfl

/-- The output of an affine map. -/
theorem forward_eq {s : Shape} {old : Vector α s.elemCount}
    (hsrc : c.weights[i.src]? = some src.tensor) (hfilter : c.weights[i.filter]? = some filter.tensor)
    (hbias : c.weights[i.bias]? = some bias.tensor)
    (hdest : c.weights[i.dest]? = some ⟨s, .float old⟩) (hs : i.dest ≠ i.src)
    (hf : i.dest ≠ i.filter) (hb : i.dest ≠ i.bias)
    (h : Fits d src.shape s filter.shape bias.shape) :
    i.forward c = .ok () (c.setWeight i.dest
      ⟨s, .float (filled _ (writes d src filter bias))⟩) := by
  rw [forward, Run.get_bind_apply, i.dims_eq hsrc hdest hfilter hbias h, liftM_check_ok, pure_bind]
  apply updateWeight_fills hdest
  · rw [floats_withoutWeight hs hsrc, floats_withoutWeight hf hfilter, floats_withoutWeight hb hbias]
    simp only [liftM_check_ok, pure_bind]
    rfl
  · refine Performs.fills (.forM fun n hn => ?_) fun k hk => ?_
    · have hn' : n < d.batch := List.mem_range.mp hn
      rw [h.src.rowStart hn', h.dest.rowStart hn']
      simp only [Run.liftM_ok, pure_bind]
      refine performs_scatter (fun j hj => ?_) (fun j _ => rfl) fun j hj => ?_
      · exact value_eq h hn' (List.mem_range.mp hj)
      · rw [h.dest.elemCount]
        exact mul_add_lt_mul hn' (List.mem_range.mp hj)
    · rw [h.dest.elemCount] at hk
      show k ∈ (writes d src filter bias).map Prod.fst
      rw [map_fst_writes]
      exact List.mem_range.mpr hk

/-! ### Backward -/

/-- The writes of a visit to every row and output. -/
def forCells (d : Dims) (ws : (n j : Nat) → List (Nat × α)) : List (Nat × α) :=
  (List.range d.batch).flatMap fun n => (List.range d.outputs).flatMap fun j => ws n j

/-- Over rows that fit, every row begins where its number says and the gradient
of every output is there. -/
theorem forOutputs_eq {σ : Type} {s : Shape} {visit : (start j : Nat) → α → Run σ Unit}
    (hs : IsRows s d.batch d.inputs) (hout : IsRows out.shape d.batch d.outputs) :
    forOutputs d s out visit = (List.range d.batch).forM fun n =>
      (List.range d.outputs).forM fun j =>
        visit (n * d.inputs) j (out.entry (n * d.outputs + j)) := by
  refine Run.forM_congr fun n hn => ?_
  have hn' : n < d.batch := List.mem_range.mp hn
  rw [hs.rowStart hn', hout.rowStart hn']
  simp only [Run.liftM_ok, pure_bind]
  refine Run.forM_congr fun j hj => ?_
  have hlt : n * d.outputs + j < out.shape.elemCount := by
    rw [hout.elemCount]
    exact mul_add_lt_mul hn' (List.mem_range.mp hj)
  rw [out.raw_eq hlt, Run.liftM_ok, pure_bind]

theorem performs_forOutputs {m : Nat} {combine : α → α → α} {s : Shape}
    {visit : (start j : Nat) → α → Run (Vector α m) Unit} {ws : (n j : Nat) → List (Nat × α)}
    (hs : IsRows s d.batch d.inputs) (hout : IsRows out.shape d.batch d.outputs)
    (h : ∀ n < d.batch, ∀ j < d.outputs,
      Performs combine (visit (n * d.inputs) j (out.entry (n * d.outputs + j))) (ws n j)) :
    Performs combine (forOutputs d s out visit) (forCells d ws) := by
  rw [forOutputs_eq hs hout]
  refine .forM fun n hn => .forM fun j hj => ?_
  exact h n (List.mem_range.mp hn) j (List.mem_range.mp hj)

/-- The contributions to the input gradient. -/
def inputTerms (d : Dims) (filter out : View α) : List (Nat × α) :=
  forCells d fun n j => (List.range d.inputs).map fun k =>
    (n * d.inputs + k, filter.elem [j, k] * out.entry (n * d.outputs + j))

/-- The contributions to the filter gradient. -/
def filterTerms (d : Dims) (src out : View α) : List (Nat × α) :=
  forCells d fun n j => (List.range d.inputs).map fun k =>
    (flat [d.outputs, d.inputs] [j, k],
      src.entry (n * d.inputs + k) * out.entry (n * d.outputs + j))

/-- The contributions to the bias gradient. -/
def biasTerms (d : Dims) (out : View α) : List (Nat × α) :=
  (List.range d.batch).flatMap fun n => (List.range d.outputs).map fun j =>
    (flat [d.outputs] [j], out.entry (n * d.outputs + j))

section Terms

variable {s t u v : Shape} (hout : out.shape = t)

include hout in
/-- Adding to the input gradient. -/
theorem performs_inputTerms (h : Fits d s t filter.shape v) :
    Performs accumulate (forOutputs d s out fun start j g =>
        scatter accumulate (List.range d.inputs) (fun k => atPosition (start + k))
          fun k => do return (← filter.get [j, k]) * g : Run (Vector α s.elemCount) Unit)
      (inputTerms d filter out) := by
  refine performs_forOutputs h.src (hout ▸ h.dest) fun n hn j hj => ?_
  refine performs_scatter (fun k hk => ?_) (fun k _ => rfl) fun k hk => ?_
  · rw [elem_filter h hj (List.mem_range.mp hk)]
    rfl
  · rw [h.src.elemCount]
    exact mul_add_lt_mul hn (List.mem_range.mp hk)

include hout in
/-- Adding to the filter gradient. -/
theorem performs_filterTerms (h : Fits d src.shape t u v) :
    Performs accumulate (forOutputs d src.shape out fun start j g =>
        scatter accumulate (List.range d.inputs) (fun k => u.position [j, k])
          fun k => do return (← src.raw (start + k)) * g : Run (Vector α u.elemCount) Unit)
      (filterTerms d src out) := by
  refine performs_forOutputs h.src (hout ▸ h.dest) fun n hn j hj => ?_
  refine performs_scatter_inside h.filter (fun k hk => ?_) (fun k hk => ?_) fun _ _ => rfl
  · rw [raw_src h hn (List.mem_range.mp hk)]
    rfl
  · exact ⟨hj, List.mem_range.mp hk, Shape.inside_nil _⟩

include hout in
/-- Adding to the bias gradient. -/
theorem performs_biasTerms (h : Fits d s t u v) :
    Performs accumulate ((List.range d.batch).forM fun n => do
        let outStart ← rowStart out.shape n
        scatter accumulate (List.range d.outputs) (fun j => v.position [j])
          fun j => out.raw (outStart + j) : Run (Vector α v.elemCount) Unit)
      (biasTerms d out) := by
  have hrows : IsRows out.shape d.batch d.outputs := hout ▸ h.dest
  refine Performs.forM fun n hn => ?_
  have hn' : n < d.batch := List.mem_range.mp hn
  rw [hrows.rowStart hn', Run.liftM_ok, pure_bind]
  refine performs_scatter_inside h.bias (fun j hj => ?_) (fun j hj => ?_) fun _ _ => rfl
  · refine out.raw_eq ?_
    rw [hrows.elemCount]
    exact mul_add_lt_mul hn' (List.mem_range.mp hj)
  · exact ⟨List.mem_range.mp hj, Shape.inside_nil _⟩

end Terms

section Backward

variable {t : Tensor α} (hsrc : c.weights[i.src]? = some src.tensor)
  (hfilter : c.weights[i.filter]? = some filter.tensor)
  (hbias : c.weights[i.bias]? = some bias.tensor) (hdest : c.weights[i.dest]? = some t)
  (h : Fits d src.shape t.shape filter.shape bias.shape) (hout : out.shape = t.shape)

include hsrc hfilter h hout in
theorem deposits_backwardInput (hne : i.src ≠ i.dest) (hgrad : c.HasGrad i.src src.shape) :
    Deposits c i.dest out accumulate (i.backwardInput d) [(i.src, inputTerms d filter out)] := by
  apply deposits_updateGrad hne hgrad
  · intro c' hweights hgrads
    rw [floats_of_weights_eq hweights hsrc, floats_of_weights_eq hweights hfilter,
      gradFloats_eq hgrads]
    simp only [liftM_check_ok, pure_bind]
    rfl
  · exact performs_inputTerms hout h

include hsrc h hout in
theorem deposits_backwardFilter (hne : i.filter ≠ i.dest)
    (hgrad : c.HasGrad i.filter filter.shape) :
    Deposits c i.dest out accumulate (i.backwardFilter d) [(i.filter, filterTerms d src out)] := by
  apply deposits_updateGrad hne hgrad
  · intro c' hweights hgrads
    rw [floats_of_weights_eq hweights hsrc, gradFloats_eq hgrads]
    simp only [liftM_check_ok, pure_bind]
    rfl
  · exact performs_filterTerms hout h

include h hout in
theorem deposits_backwardBias (hne : i.bias ≠ i.dest) (hgrad : c.HasGrad i.bias bias.shape) :
    Deposits c i.dest out accumulate (i.backwardBias d) [(i.bias, biasTerms d out)] := by
  apply deposits_updateGrad hne hgrad
  · intro c' _ hgrads
    rw [gradFloats_eq hgrads, liftM_check_ok, pure_bind]
  · exact performs_biasTerms hout h

include hsrc hfilter hbias hdest h in
/-- The contributions of an affine map, to input, filter and bias in this
order. -/
theorem backward_eq (hs : i.src ≠ i.dest) (hf : i.filter ≠ i.dest) (hb : i.bias ≠ i.dest)
    (hgs : c.HasGrad i.src src.shape) (hgf : c.HasGrad i.filter filter.shape)
    (hgb : c.HasGrad i.bias bias.shape) (hout : c.gradOrZeros i.dest = .ok out.tensor)
    (houts : out.shape = t.shape) :
    i.backward c = .ok () (c.deposits accumulate
      [(i.dest, []), (i.src, inputTerms d filter out), (i.filter, filterTerms d src out),
        (i.bias, biasTerms d out)]) := by
  rw [backward, Run.get_bind_apply, i.dims_eq hsrc hdest hfilter hbias h, liftM_check_ok, pure_bind]
  exact Deposits.backward hout ((i.deposits_backwardInput hsrc hfilter h houts hs hgs).bind
    ((i.deposits_backwardFilter hsrc h houts hf hgf).bind
      (i.deposits_backwardBias h houts hb hgb)))

end Backward

end FullyConnected

end TensorProgram
