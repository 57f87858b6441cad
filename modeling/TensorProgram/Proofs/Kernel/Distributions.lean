/-
TensorProgram/Proofs/Kernel/Distributions.lean

A softmax, computed exactly.  All that is asked of the exponential function is
that it is positive and turns sums into products.  Then the shift of a row by its
largest entry cancels between numerator and denominator, whatever that entry is
(`probabilities_eq`), and the rows of the output are distributions: positive
numbers that sum to one.

The way back adds these numbers, less one at the selected column.  Nothing checks
that a label names a column, and a label that names none is never subtracted: then
a row adds up to one and not to zero.  The gradient that receives them need not
have the shape of the input; a way back that succeeds has found a place in it for
every entry (`Softmax.exists_of_backward_ok`).

Main statement: `Softmax.rows_are_distributions`.
-/
import TensorProgram.Proofs.Scalar.Exact
import TensorProgram.Proofs.Context.Regrouping
import TensorProgram.Proofs.Kernel.Atomicity

namespace TensorProgram

open Context (shape_eq weights_of_floats weights_of_indices weights_setWeight_of_ne
  weights_setWeight_self grads_setGrad_self of_updateGrad_ok)
open Run (exists_of_check_ok exists_of_compute_ok exists_of_forM_ok get_bind_apply of_scatter_ok)
open Shape (Inside flat)
open Finset (range)

/-! ### Shares of a total -/

section Shares

variable {K : Type} [ExactScalar K] [LinearOrder K]

/-- The laws of an exponential function: it is positive and turns sums into
products. -/
structure Scalar.Exponential (K : Type) [ExactScalar K] [LinearOrder K] : Prop where
  /-- Its values are positive. -/
  pos : ∀ x : K, 0 < Scalar.exp x
  /-- The value at a sum is a product of values. -/
  add : ∀ x y : K, Scalar.exp (x + y) = Scalar.exp x * Scalar.exp y

/-- The shift by the largest entry cancels. -/
theorem probabilities_eq (hexp : Scalar.Exponential K) (row : List K) :
    probabilities row = row.map fun x => Scalar.exp x / (row.map Scalar.exp).sum := by
  cases row with
  | nil => rfl
  | cons first rest =>
      let m := largest first rest
      -- every power has the factor `exp (-m)`, and so has their sum
      have hshift (x : K) : Scalar.exp (x - m) = Scalar.exp x * Scalar.exp (-m) := by
        rw [sub_eq_add_neg, hexp.add]
      have htotal : Scalar.sum ((first :: rest).map fun x => Scalar.exp (x - m))
          = ((first :: rest).map Scalar.exp).sum * Scalar.exp (-m) := by
        rw [Scalar.sum_eq, ← List.sum_map_mul_right]
        exact congrArg List.sum (List.map_congr_left fun x _ => hshift x)
      show ((first :: rest).map fun x => Scalar.exp (x - m)).map
        (· / Scalar.sum ((first :: rest).map fun x => Scalar.exp (x - m))) = _
      rw [htotal, List.map_map]
      refine List.map_congr_left fun x _ => ?_
      show Scalar.exp (x - m) / _ = _
      rw [hshift, mul_div_mul_right _ _ (hexp.pos (-m)).ne']

variable {columns : Nat}

/-- Nothing is subtracted for a label that names no column. -/
theorem shares_less_nothing {f : Nat → K} {label : Nat} (hpos : ∀ k < columns, 0 < f k)
    (hsum : ∑ k ∈ range columns, f k = 1) (hlabel : columns ≤ label) :
    (∀ k < columns, 0 < f k - (if label = k then 1 else 0)) ∧
      ∑ k ∈ range columns, (f k - if label = k then 1 else 0) = 1 := by
  have hkeep : ∀ k < columns, f k - (if label = k then 1 else 0) = f k := by
    intro k hk
    rw [if_neg (Nat.lt_of_lt_of_le hk hlabel).ne', sub_zero]
  refine ⟨fun k hk => ?_, ?_⟩
  · rw [hkeep k hk]
    exact hpos k hk
  · exact (Finset.sum_congr rfl fun k hk => hkeep k (Finset.mem_range.mp hk)).trans hsum

variable [IsStrictOrderedRing K]

/-- Positive numbers have positive shares in their total, which sum to one. -/
theorem sum_shares {f : Nat → K} (hpos : ∀ k, 0 < f k) (hcolumns : columns ≠ 0) :
    (∀ k, 0 < f k / ∑ j ∈ range columns, f j) ∧
      ∑ k ∈ range columns, f k / ∑ j ∈ range columns, f j = 1 := by
  have htotal : 0 < ∑ j ∈ range columns, f j :=
    Finset.sum_pos (fun k _ => hpos k) (Finset.nonempty_range_iff.mpr hcolumns)
  refine ⟨fun k => div_pos (hpos k) htotal, ?_⟩
  rw [← Finset.sum_div, div_self htotal.ne']

/-- Shares less one at a column are negative at most there, and sum to zero. -/
theorem shares_less_one {f : Nat → K} {label : Nat} (hpos : ∀ k < columns, 0 < f k)
    (hsum : ∑ k ∈ range columns, f k = 1) (hlabel : label < columns) :
    f label - (if label = label then 1 else 0) ≤ 0 ∧
      (∀ k < columns, k ≠ label → 0 < f k - (if label = k then 1 else 0)) ∧
      ∑ k ∈ range columns, (f k - if label = k then 1 else 0) = 0 := by
  have hmem : label ∈ range columns := Finset.mem_range.mpr hlabel
  refine ⟨?_, fun k hk hne => ?_, ?_⟩
  · rw [if_pos rfl, ← hsum, sub_nonpos]
    exact Finset.single_le_sum (fun k hk => (hpos k (Finset.mem_range.mp hk)).le) hmem
  · rw [if_neg hne.symm, sub_zero]
    exact hpos k hk
  · rw [Finset.sum_sub_distrib, Finset.sum_ite_eq, if_pos hmem, hsum, sub_self]

end Shares

namespace Softmax

/-! ### The output -/

section Forward

variable {K : Type} [ExactScalar K] [LinearOrder K] {src : View K} {rows columns n k : Nat}

/-- The share of an entry in its row. -/
def share (columns : Nat) (src : View K) (n k : Nat) : K :=
  Scalar.exp (src.elem [n, k]) / ∑ j ∈ range columns, Scalar.exp (src.elem [n, j])

/-- The entries of a row are written in order, each with its share. -/
theorem writes_eq (hexp : Scalar.Exponential K) (rows columns : Nat) (src : View K) :
    writes rows columns src = (List.range rows).flatMap fun n =>
      (List.range columns).map fun k => (flat [rows, columns] [n, k], share columns src n k) := by
  rw [writes]
  refine congrArg (List.flatMap · (List.range rows)) ?_
  funext n
  have htotal : ((row columns src n).map Scalar.exp).sum
      = ∑ j ∈ range columns, Scalar.exp (src.elem [n, j]) := by
    rw [row, List.map_map, sum_map_range]
    rfl
  have hrow : probabilities (row columns src n) = (List.range columns).map (share columns src n) := by
    rw [probabilities_eq hexp, htotal, row, List.map_map]
    rfl
  rw [hrow]
  apply List.ext_getElem
  · simp
  · intro k _ _
    simp

/-- A matrix filled with the shares has them as its entries. -/
theorem elem_shares (hexp : Scalar.Exponential K) {s : Shape} (hs : s = ⟨[rows, columns]⟩)
    (hn : n < rows) (hk : k < columns) :
    (View.mk s (filled _ (writes rows columns src))).elem [n, k] = share columns src n k := by
  subst hs
  have hnodup : ((writes rows columns src).map Prod.fst).Nodup := by
    rw [map_fst_writes]
    exact List.nodup_range
  have hwrite : (flat [rows, columns] [n, k], share columns src n k) ∈ writes rows columns src := by
    rw [writes_eq hexp]
    exact List.mem_flatMap.mpr ⟨n, List.mem_range.mpr hn,
      List.mem_map.mpr ⟨k, List.mem_range.mpr hk, rfl⟩⟩
  exact View.entry_filled hnodup hwrite (Shape.flat_lt (inside_entry hn hk) rfl)

/-- Adding a number to every entry of a row leaves the shares. -/
theorem share_shift (hexp : Scalar.Exponential K) {src' : View K} {shift : K}
    (h : ∀ k < columns, src'.elem [n, k] = src.elem [n, k] + shift) (hk : k < columns) :
    share columns src' n k = share columns src n k := by
  have hfactor : ∀ j ∈ range columns, Scalar.exp (src'.elem [n, j])
      = Scalar.exp (src.elem [n, j]) * Scalar.exp shift := by
    intro j hj
    rw [h j (Finset.mem_range.mp hj), hexp.add]
  rw [share, share, Finset.sum_congr rfl hfactor, ← Finset.sum_mul,
    hfactor k (Finset.mem_range.mpr hk), mul_div_mul_right _ _ (hexp.pos shift).ne']

end Forward

/-! ### The way back -/

section Backward

variable {α : Type} [Scalar α] {i : Softmax} {d d' : Context α} {rows columns : Nat}

/-- A way back that succeeds has found the saved probabilities, a label for every
row and, in the gradient, a place for every entry. -/
theorem exists_of_backward_ok (h : i.backward d = .ok () d') :
    ∃ (rows columns : Nat) (saved : View α) (selected : View Nat) (s : Shape)
      (data : Vector α s.elemCount),
      d.weights[i.saved]? = some saved.tensor ∧ saved.shape = ⟨[rows, columns]⟩ ∧
      d.weights[i.selected]? = some selected.indexTensor ∧ selected.shape = ⟨[rows, 1]⟩ ∧
      d.gradOrZeros i.src = .ok ⟨s, .float data⟩ ∧
      (∀ n < rows, ∀ k < columns, Inside s.dims [n, k] ∧ flat s.dims [n, k] < s.elemCount) ∧
      d' = d.setGrad i.src ⟨s, .float (applyWrites accumulate
        ((List.range rows).flatMap fun n => (List.range columns).map fun k => (flat s.dims [n, k],
          saved.elem [n, k] - (if selected.elem [n, 0] = k then 1 else 0))) data)⟩ := by
  rw [backward, get_bind_apply] at h
  obtain ⟨⟨rows, columns⟩, hdims, h⟩ := exists_of_check_ok h
  dsimp only at h
  rw [get_bind_apply] at h
  obtain ⟨labels, hlabels, h⟩ := exists_of_check_ok h
  obtain ⟨_, hsame, h⟩ := exists_of_check_ok h
  rw [eq_of_requireSameShape hsame] at hlabels
  obtain ⟨g, g', hg, hadd, rfl⟩ := of_updateGrad_ok h
  obtain ⟨saved, hsaved, hadd⟩ := exists_of_check_ok hadd
  obtain ⟨selected, hselected, hadd⟩ := exists_of_check_ok hadd
  obtain ⟨s, data, data', rfl, hloop, rfl⟩ := Tensor.of_onFloats_ok hadd
  obtain ⟨-, -, -, hmatrix⟩ := shapes_of_dims hdims
  have hsaved : d.weights[i.saved]? = some saved.tensor := weights_of_floats hsaved
  have hselected : d.weights[i.selected]? = some selected.indexTensor := weights_of_indices hselected
  have hshape : saved.shape = ⟨[rows, columns]⟩ := shape_eq hmatrix hsaved
  have hlabel : selected.shape = ⟨[rows, 1]⟩ := shape_eq hlabels hselected
  -- every store of the loop went through, so its position was inside the gradient
  have hplaces : ∀ n < rows, ∀ k < columns,
      Inside s.dims [n, k] ∧ flat s.dims [n, k] < s.elemCount := by
    intro n hn k hk
    obtain ⟨before, after, hrow⟩ := exists_of_forM_ok hloop n (List.mem_range.mpr hn)
    obtain ⟨label, -, hrow⟩ := exists_of_compute_ok hrow
    obtain ⟨-, p, hp, hlt⟩ := of_scatter_ok hrow k (List.mem_range.mpr hk)
    obtain ⟨hin, rfl⟩ := Shape.of_position_eq_ok hp
    exact ⟨hin, hlt⟩
  refine ⟨rows, columns, saved, selected, s, data, hsaved, hshape, hselected, hlabel, hg, hplaces, ?_⟩
  rw [(performs_termsInto hplaces hshape hlabel).run data] at hloop
  rw [(EStateM.Result.ok.inj hloop).2]

omit [Scalar α] in
/-- The places of the entries differ. -/
theorem nodup_places {s : Shape} (value : Nat → Nat → α)
    (hin : ∀ n < rows, ∀ k < columns, Inside s.dims [n, k] ∧ flat s.dims [n, k] < s.elemCount) :
    (((List.range rows).flatMap fun n => (List.range columns).map fun k =>
      (flat s.dims [n, k], value n k)).map Prod.fst).Nodup := by
  have hpairs : ((List.range rows).flatMap fun n => (List.range columns).map fun k =>
      (flat s.dims [n, k], value n k)).map Prod.fst
      = (List.range rows ×ˢ List.range columns).map fun p => flat s.dims [p.1, p.2] := by
    simp [SProd.sprod, List.product, List.map_flatMap, Function.comp_def]
  rw [hpairs]
  refine (List.nodup_range.product List.nodup_range).map_on ?_
  rintro ⟨n, k⟩ hp ⟨m, j⟩ hq heq
  obtain ⟨hn, hk⟩ := List.mem_product.mp hp
  obtain ⟨hm, hj⟩ := List.mem_product.mp hq
  obtain ⟨hin₁, hlt⟩ := hin n (List.mem_range.mp hn) k (List.mem_range.mp hk)
  obtain ⟨hin₂, -⟩ := hin m (List.mem_range.mp hm) j (List.mem_range.mp hj)
  have hcoord := Shape.flat_leading_inj (Nat.zero_lt_of_lt hlt) hin₁ hin₂ rfl heq
  simpa using hcoord

/-- Each place gains the value for its entry, and nothing else changes. -/
theorem applyWrites_places {K : Type} [ExactScalar K] {s : Shape} (value : Nat → Nat → K)
    (hin : ∀ n < rows, ∀ k < columns, Inside s.dims [n, k] ∧ flat s.dims [n, k] < s.elemCount)
    (data : Vector K s.elemCount) {data' : Vector K s.elemCount}
    (hdata : data' = applyWrites accumulate ((List.range rows).flatMap fun n =>
      (List.range columns).map fun k => (flat s.dims [n, k], value n k)) data) :
    (∀ n < rows, ∀ k < columns,
      (View.mk s data').elem [n, k] = (View.mk s data).elem [n, k] + value n k) ∧
    ∀ p < s.elemCount, (∀ n < rows, ∀ k < columns, flat s.dims [n, k] ≠ p) →
      (View.mk s data').entry p = (View.mk s data).entry p := by
  subst hdata
  refine ⟨fun n hn k hk => ?_, fun p hp hne => ?_⟩
  · have hlt := (hin n hn k hk).2
    have hwrite : (flat s.dims [n, k], value n k) ∈ (List.range rows).flatMap fun n =>
        (List.range columns).map fun k => (flat s.dims [n, k], value n k) :=
      List.mem_flatMap.mpr ⟨n, List.mem_range.mpr hn,
        List.mem_map.mpr ⟨k, List.mem_range.mpr hk, rfl⟩⟩
    rw [View.elem, View.entry, View.elem, View.entry, dif_pos hlt, dif_pos hlt]
    exact getElem_applyWrites_of_nodup accumulate (nodup_places value hin) data hwrite hlt
  · rw [View.entry, View.entry, dif_pos hp, dif_pos hp]
    refine getElem_applyWrites_of_notMem accumulate data hp fun hmem => ?_
    obtain ⟨w, hw, rfl⟩ := List.mem_map.mp hmem
    obtain ⟨n, hn, hw⟩ := List.mem_flatMap.mp hw
    obtain ⟨k, hk, rfl⟩ := List.mem_map.mp hw
    exact hne n (List.mem_range.mp hn) k (List.mem_range.mp hk) rfl

end Backward

/-! ### The kernel -/

variable {K : Type} [ExactScalar K] [LinearOrder K] [IsStrictOrderedRing K] (i : Softmax)

/-- What a softmax of a matrix leaves. -/
structure Distributes (c' : Context K) (rows columns : Nat) (src out : View K) : Prop where
  /-- The output. -/
  output : c'.weights[i.dest]? = some out.tensor
  /-- The same, saved for the way back. -/
  saved : c'.weights[i.saved]? = some out.tensor
  /-- Its extents. -/
  shape : out.shape = ⟨[rows, columns]⟩
  /-- An entry is its share in the exponentials of the row. -/
  entry : ∀ n < rows, ∀ k < columns, out.elem [n, k]
    = Scalar.exp (src.elem [n, k]) / ∑ j ∈ range columns, Scalar.exp (src.elem [n, j])
  /-- Every entry is positive. -/
  positive : ∀ n < rows, ∀ k < columns, 0 < out.elem [n, k]
  /-- The entries of a row sum to one. -/
  total : ∀ n < rows, ∑ k ∈ range columns, out.elem [n, k] = 1

/-- An entry of the output, less one at the selected column. -/
def pull (out : View K) (selected : View Nat) (n k : Nat) : K :=
  out.elem [n, k] - if selected.elem [n, 0] = k then 1 else 0

/-- What the way back adds: the gradient `g` of the input, or the zeros it starts
from, becomes `g'`. -/
structure PullsBack (d d' : Context K) (rows columns : Nat) (selected : View Nat) (g g' : View K)
    (added : Nat → Nat → K) : Prop where
  /-- A label for every row. -/
  labels : d.weights[i.selected]? = some selected.indexTensor ∧ selected.shape = ⟨[rows, 1]⟩
  /-- The gradient before. -/
  before : d.gradOrZeros i.src = .ok g.tensor
  /-- The gradient after; nothing else is bound anew. -/
  after : d' = d.setGrad i.src g'.tensor ∧ g'.shape = g.shape
  /-- Every entry has a place in the gradient and is added there. -/
  gains : ∀ n < rows, ∀ k < columns,
    Inside g.shape.dims [n, k] ∧ g'.elem [n, k] = g.elem [n, k] + added n k
  /-- Other places keep their element. -/
  keeps : ∀ p < g.shape.elemCount, (∀ n < rows, ∀ k < columns, flat g.shape.dims [n, k] ≠ p) →
    g'.entry p = g.entry p
  /-- A row whose label names a column: only that one is not raised. -/
  labelled : ∀ n < rows, selected.elem [n, 0] < columns →
    added n (selected.elem [n, 0]) ≤ 0 ∧
      (∀ k < columns, k ≠ selected.elem [n, 0] → 0 < added n k) ∧
      ∑ k ∈ range columns, added n k = 0
  /-- A row whose label names no column: all are raised. -/
  unlabelled : ∀ n < rows, columns ≤ selected.elem [n, 0] →
    (∀ k < columns, 0 < added n k) ∧ ∑ k ∈ range columns, added n k = 1

variable {i}

theorem Distributes.of_filled (hexp : Scalar.Exponential K) (c : Context K) (src : View K)
    {rows columns : Nat} {s t : Shape} (hpos : columns ≠ 0) (hne : i.dest ≠ i.saved)
    (hs : s = ⟨[rows, columns]⟩) (ht : t = ⟨[rows, columns]⟩) :
    i.Distributes ((c.setWeight i.dest ⟨s, .float (filled _ (writes rows columns src))⟩).setWeight
      i.saved ⟨t, .float (filled _ (writes rows columns src))⟩) rows columns src
      ⟨s, filled _ (writes rows columns src)⟩ := by
  have hshares (n : Nat) := sum_shares (fun k => hexp.pos (src.elem [n, k])) hpos
  refine ⟨?_, ?_, hs, fun n hn k hk => elem_shares hexp hs hn hk, fun n hn k hk => ?_,
    fun n hn => ?_⟩
  · rw [weights_setWeight_of_ne hne.symm, weights_setWeight_self]
    rfl
  · subst hs ht
    rw [weights_setWeight_self]
    rfl
  · rw [elem_shares hexp hs hn hk]
    exact (hshares n).1 k
  · rw [← (hshares n).2]
    exact Finset.sum_congr rfl fun k hk => elem_shares hexp hs hn (Finset.mem_range.mp hk)

/-- After the softmax the way back adds shares, less one at the label. -/
theorem Distributes.pullsBack {c' d d' : Context K} {src out : View K} {rows columns : Nat}
    (h : i.Distributes c' rows columns src out)
    (hsaved : d.weights[i.saved]? = c'.weights[i.saved]?) (hback : i.backward d = .ok () d') :
    ∃ selected g g', i.PullsBack d d' rows columns selected g g' (pull out selected) := by
  obtain ⟨rows', columns', saved, selected, s, data, hs, hshape, hselected, hlabels, hg, hin, rfl⟩ :=
    exists_of_backward_ok hback
  -- what is saved is the output of the softmax
  obtain rfl : saved = out :=
    Except.ok.inj ((Context.floats_eq hs).symm.trans (Context.floats_eq (hsaved.trans h.saved)))
  obtain ⟨rfl, rfl⟩ : rows' = rows ∧ columns' = columns := by
    simpa using hshape.symm.trans h.shape
  obtain ⟨hgains, hkeeps⟩ := applyWrites_places (pull saved selected) hin data rfl
  refine ⟨selected, ⟨s, data⟩, ⟨s, _⟩, ⟨hselected, hlabels⟩, hg, ⟨rfl, rfl⟩,
    fun n hn k hk => ⟨(hin n hn k hk).1, hgains n hn k hk⟩, hkeeps, fun n hn hlabel => ?_,
    fun n hn hlabel => ?_⟩
  · exact shares_less_one (fun k hk => h.positive n hn k hk) (h.total n hn) hlabel
  · exact shares_less_nothing (fun k hk => h.positive n hn k hk) (h.total n hn) hlabel

/-- **Rows are distributions.**  Computed exactly, a softmax that succeeds leaves
in every row the shares of the exponentials in their total, which are positive, sum
to one and do not change if a number is added to all entries of a row of the input.
A way back that succeeds after it adds to the gradient of a row what is negative at
most at the selected column and sums to zero, or what is positive and sums to one if
the label names no column. -/
theorem rows_are_distributions (hexp : Scalar.Exponential K) (i : Softmax) {c c' : Context K}
    (hrun : i.forward c = .ok () c') :
    ∃ (rows columns : Nat) (src out : View K), 0 < columns ∧ i.Bound c src rows columns ∧
      i.Distributes c' rows columns src out ∧
      (∀ (d d' : Context K) (src' : View K) (shift : Nat → K),
        d.weights[i.src]? = some src'.tensor → src'.shape = ⟨[rows, columns]⟩ →
        (∀ n < rows, ∀ k < columns, src'.elem [n, k] = src.elem [n, k] + shift n) →
        i.forward d = .ok () d' → d'.weights[i.dest]? = c'.weights[i.dest]?) ∧
      ∀ d d' : Context K, d.weights[i.saved]? = c'.weights[i.saved]? →
        i.backward d = .ok () d' →
        ∃ selected g g', i.PullsBack d d' rows columns selected g g' (pull out selected) := by
  obtain ⟨rows, columns, src, s, t, hpos, hbound, hs, ht, hne, hok⟩ :=
    Run.of_reports_or i.forward_cases hrun
  rw [hok] at hrun
  obtain ⟨-, rfl⟩ := EStateM.Result.ok.inj hrun
  have hleft := Distributes.of_filled hexp c src hpos hne hs ht
  refine ⟨rows, columns, src, _, Nat.pos_of_ne_zero hpos, hbound, hleft,
    fun d d' src' shift hsrc' hshape hshift hforward => ?_,
    fun d d' hsaved hback => hleft.pullsBack hsaved hback⟩
  obtain ⟨rows', columns', u, s', t', -, hbound', hs', ht', -, hok'⟩ :=
    Run.of_reports_or i.forward_cases hforward
  rw [hok'] at hforward
  obtain ⟨-, rfl⟩ := EStateM.Result.ok.inj hforward
  -- the second run has the shifted matrix as its input
  obtain rfl : u = src' :=
    Except.ok.inj ((Context.floats_eq hbound'.input).symm.trans (Context.floats_eq hsrc'))
  obtain ⟨rfl, rfl⟩ : rows' = rows ∧ columns' = columns := by
    simpa using hbound'.matrix.symm.trans hshape
  have hwrites : writes rows' columns' u = writes rows' columns' src := by
    rw [writes_eq hexp, writes_eq hexp]
    refine List.flatMap_congr fun n hn => List.map_congr_left fun k hk => ?_
    rw [share_shift hexp (hshift n (List.mem_range.mp hn)) (List.mem_range.mp hk)]
  rw [weights_setWeight_of_ne hne.symm, weights_setWeight_self, weights_setWeight_of_ne hne.symm,
    weights_setWeight_self, hwrites, hs, hs']

/-- The real numbers with their exponential function. -/
noncomputable local instance reals : ExactScalar ℝ :=
  exactScalars Real.sqrt Real.exp Real.rpow fun lo _ _ => lo

/-- A softmax with all operands. -/
def scores : Softmax := ⟨0, 1, 2, 3⟩

/-- Two rows of scores; the first label names a column, the second does not. -/
noncomputable def twoRows : Context ℝ :=
  (((({} : Context ℝ).setWeight 0 ⟨⟨[2, 2]⟩, .float #v[9, 9, 9, 9]⟩).setWeight 1
    ⟨⟨[2, 2]⟩, .float #v[0, Real.log 3, Real.log 3, 0]⟩).setWeight 2
    ⟨⟨[2, 2]⟩, .float #v[9, 9, 9, 9]⟩).setWeight 3 ⟨⟨[2, 1]⟩, .index #v[1, 7]⟩

/-- The second entry of the first row is its selected share of three quarters;
the first entry of the second row is raised by its share, as much. -/
theorem rows_are_distributions_twoRows : ∃ (c' c'' : Context ℝ) (out g : View ℝ),
    scores.forward twoRows = .ok () c' ∧ scores.backward c' = .ok () c'' ∧
      c'.weights[scores.dest]? = some out.tensor ∧ out.elem [0, 1] = 3 / 4 ∧
      c''.grads[scores.src]? = some g.tensor ∧ g.elem [0, 1] = 3 / 4 - 1 ∧ g.elem [1, 0] = 3 / 4 := by
  let input : View ℝ := ⟨⟨[2, 2]⟩, #v[0, Real.log 3, Real.log 3, 0]⟩
  let labels : View Nat := ⟨⟨[2, 1]⟩, #v[1, 7]⟩
  let zeros : View ℝ := ⟨⟨[2, 2]⟩, Vector.replicate _ 0⟩
  let shares : View ℝ := ⟨⟨[2, 2]⟩, filled _ (writes 2 2 input)⟩
  let c' := (twoRows.setWeight 0 shares.tensor).setWeight 2 shares.tensor
  have hexp : Scalar.Exponential ℝ := ⟨Real.exp_pos, Real.exp_add⟩
  have hbound : scores.Bound twoRows input 2 2 := ⟨rfl, rfl, ⟨_, rfl, rfl⟩, ⟨_, rfl, rfl⟩⟩
  have hbound' : scores.Bound c' input 2 2 := ⟨rfl, rfl, ⟨_, rfl, rfl⟩, ⟨_, rfl, rfl⟩⟩
  have hrun : scores.forward twoRows = .ok () c' :=
    forward_eq hbound two_ne_zero rfl rfl rfl rfl (by decide) (by decide) (by decide)
  obtain ⟨c'', hback⟩ : ∃ c'', scores.backward c' = .ok () c'' :=
    ⟨_, backward_eq hbound' two_ne_zero (show c'.weights[2]? = some shares.tensor from rfl) rfl
      (show c'.weights[3]? = some labels.indexTensor from rfl) rfl ⟨_, rfl⟩⟩
  obtain ⟨rows, columns, src, out, -, h, hleft, -, hpulls⟩ := rows_are_distributions hexp scores hrun
  obtain ⟨selected, g, g', hpull⟩ := hpulls c' c'' rfl hback
  -- the operands are those of the context
  obtain rfl : input = src :=
    Except.ok.inj ((Context.floats_eq hbound.input).symm.trans (Context.floats_eq h.input))
  obtain ⟨rfl, rfl⟩ : 2 = rows ∧ 2 = columns := by
    simpa using hbound.matrix.symm.trans h.matrix
  obtain rfl : labels = selected := Except.ok.inj ((Context.indices_eq
    (show c'.weights[3]? = some labels.indexTensor from rfl)).symm.trans
      (Context.indices_eq hpull.labels.1))
  obtain rfl : zeros = g := by
    have hzeros : c'.gradOrZeros scores.src = .ok zeros.tensor := rfl
    exact View.tensor_inj (Except.ok.inj (hzeros.symm.trans hpull.before))
  have hselected : out.elem [0, 1] = 3 / 4 := by
    rw [hleft.entry 0 two_pos 1 one_lt_two, Finset.sum_range_succ, Finset.sum_range_one]
    show Real.exp (Real.log 3) / (Real.exp 0 + Real.exp (Real.log 3)) = 3 / 4
    rw [Real.exp_log three_pos, Real.exp_zero]
    norm_num
  have hforeign : out.elem [1, 0] = 3 / 4 := by
    rw [hleft.entry 1 one_lt_two 0 two_pos, Finset.sum_range_succ, Finset.sum_range_one]
    show Real.exp (Real.log 3) / (Real.exp (Real.log 3) + Real.exp 0) = 3 / 4
    rw [Real.exp_log three_pos, Real.exp_zero]
    norm_num
  have hzero (n k : Nat) : zeros.elem [n, k] = 0 := by
    rw [View.elem, View.entry]
    split
    · exact Vector.getElem_replicate _
    · rfl
  refine ⟨c', c'', out, g', hrun, hback, hleft.output, hselected, ?_, ?_, ?_⟩
  · rw [hpull.after.1, grads_setGrad_self]
  · rw [(hpull.gains 0 two_pos 1 one_lt_two).2, hzero, pull, hselected, zero_add]
    rfl
  · rw [(hpull.gains 1 one_lt_two 0 two_pos).2, hzero, pull, hforeign, zero_add]
    exact sub_zero _

end Softmax

end TensorProgram
