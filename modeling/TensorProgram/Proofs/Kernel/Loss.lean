/-
TensorProgram/Proofs/Kernel/Loss.lean

What the two losses compute.  A softmax over rows with an entry fills its output
and its saved probabilities (`Softmax.forward_eq`), and over empty rows it stops
before it writes anything (`Softmax.forward_stops`).  A squared distance passes
its input on.  The way back of either is one deposit to the input, which does not
read the gradient of the output.
-/
import TensorProgram.Kernel.Loss
import TensorProgram.Proofs.Kernel.Elementwise

namespace TensorProgram

variable {α : Type} [Scalar α]

open Context (shapeOf_eq floats_eq floats_withoutWeight_both indices_eq updateWeightPair_of_ok
  updateGrad_deposit)
open Run (Performs PerformsBoth performs_scatter performs_scatter_inside liftM_check_ok)
open Shape (flat)

/-! ### Matrices -/

omit [Scalar α] in
theorem requireRank_of_dims (subject : String) (rows columns : Nat) :
    requireRank subject ⟨[rows, columns]⟩ 2 = .ok () := rfl

theorem View.get_entry {ε : Type} [Zero ε] {v : View ε} {rows columns n k : Nat}
    (hv : v.shape = ⟨[rows, columns]⟩) (hn : n < rows) (hk : k < columns) :
    v.get [n, k] = .ok (v.elem [n, k]) := by
  refine v.get_eq ?_ ?_
  · rw [hv]
    exact ⟨hn, hk, Shape.inside_nil _⟩
  · rw [hv]
    rfl

theorem inside_entry {rows columns n k : Nat} (hn : n < rows) (hk : k < columns) :
    Shape.Inside [rows, columns] [n, k] := ⟨hn, hk, Shape.inside_nil _⟩

/-- The entries of a matrix, row by row, are all its positions. -/
theorem flatMap_entries (rows columns : Nat) :
    ((List.range rows).flatMap fun n => (List.range columns).map fun k => flat [rows, columns] [n, k])
      = List.range (Shape.volume [rows, columns]) := by
  have hvolume : Shape.volume [rows, columns] = rows * columns := by simp
  rw [hvolume, ← Shape.range_flatMap_block]
  simp

/-! ### Softmax -/

@[simp] theorem length_probabilities (row : List α) : (probabilities row).length = row.length := by
  cases row with
  | nil => rfl
  | cons x row => simp [probabilities]

namespace Softmax

variable (i : Softmax) {c : Context α} {src : View α} {rows columns : Nat}

/-- The bound shapes of input, output and saved probabilities are one matrix. -/
structure Bound (c : Context α) (src : View α) (rows columns : Nat) : Prop where
  /-- The input. -/
  input : c.weights[i.src]? = some src.tensor
  /-- Its shape. -/
  matrix : src.shape = ⟨[rows, columns]⟩
  /-- The output has that shape. -/
  output : ∃ t, c.weights[i.dest]? = some t ∧ t.shape = ⟨[rows, columns]⟩
  /-- The saved probabilities have that shape. -/
  saved : ∃ t, c.weights[i.saved]? = some t ∧ t.shape = ⟨[rows, columns]⟩

variable {i}

omit [Scalar α] in
theorem Bound.dims_eq (h : i.Bound c src rows columns) :
    i.dims c = if columns = 0 then .error .emptySoftmaxRow else .ok (rows, columns) := by
  obtain ⟨t, ht, hts⟩ := h.output
  obtain ⟨u, hu, hus⟩ := h.saved
  have hsrc : src.tensor.shape = ⟨[rows, columns]⟩ := h.matrix
  rw [dims, shapeOf_eq h.input, shapeOf_eq ht, shapeOf_eq hu, hts, hus, hsrc]
  simp only [Except.ok_bind, requireRank_of_dims, requireSameShape_self]
  by_cases hcolumns : columns = 0
  · subst hcolumns
    rfl
  · rw [if_neg hcolumns]
    exact if_neg hcolumns

variable (i)

/-- A row of the input. -/
def row (columns : Nat) (src : View α) (n : Nat) : List α :=
  (List.range columns).map fun k => src.elem [n, k]

/-- What a softmax writes into its output, and into the saved probabilities. -/
def writes (rows columns : Nat) (src : View α) : List (Nat × α) :=
  (List.range rows).flatMap fun n =>
    (probabilities (row columns src n)).zipIdx.map fun p => (flat [rows, columns] [n, p.2], p.1)

theorem map_fst_writes (rows columns : Nat) (src : View α) :
    (writes rows columns src).map Prod.fst = List.range (Shape.volume [rows, columns]) := by
  have hrow : (fun n => ((probabilities (row columns src n)).zipIdx.map
        fun p => (flat [rows, columns] [n, p.2], p.1)).map Prod.fst)
      = fun n => (List.range columns).map fun k => flat [rows, columns] [n, k] := by
    funext n
    have hsnd : (probabilities (row columns src n)).zipIdx.map Prod.snd = List.range columns := by
      rw [List.zipIdx_map_snd, length_probabilities, row, List.length_map, List.length_range,
        List.range_eq_range']
    rw [List.map_map, ← hsnd, List.map_map]
    rfl
  rw [← flatMap_entries, writes, List.map_flatMap, hrow]

variable {i}

/-- Writing the probabilities of a row. -/
theorem performs_row (src : View α) {s : Shape} (hs : s = ⟨[rows, columns]⟩) {n : Nat} (hn : n < rows) :
    Performs overwrite (scatter overwrite (probabilities (row columns src n)).zipIdx
      (fun p => s.position [n, p.2]) (fun p => return p.1) : Run (Vector α s.elemCount) Unit)
      ((probabilities (row columns src n)).zipIdx.map
        fun p => (flat [rows, columns] [n, p.2], p.1)) := by
  have hin : ∀ p ∈ (probabilities (row columns src n)).zipIdx,
      Shape.Inside [rows, columns] [n, p.2] := by
    intro p hp
    have hlt := (List.mem_zipIdx' hp).1
    rw [length_probabilities, row, List.length_map, List.length_range] at hlt
    exact inside_entry hn hlt
  exact performs_scatter_inside hs (fun _ _ => rfl) hin fun _ _ => rfl

/-- The output and the saved probabilities of a softmax. -/
theorem forward_eq {s t : Shape} {old : Vector α s.elemCount} {oldSaved : Vector α t.elemCount}
    (h : i.Bound c src rows columns) (hpos : columns ≠ 0)
    (hdest : c.weights[i.dest]? = some ⟨s, .float old⟩)
    (hsaved : c.weights[i.saved]? = some ⟨t, .float oldSaved⟩) (hs : s = ⟨[rows, columns]⟩)
    (ht : t = ⟨[rows, columns]⟩) (hds : i.dest ≠ i.src) (hdv : i.dest ≠ i.saved)
    (hvs : i.saved ≠ i.src) :
    i.forward c = .ok () ((c.setWeight i.dest
      ⟨s, .float (filled _ (writes rows columns src))⟩).setWeight i.saved
      ⟨t, .float (filled _ (writes rows columns src))⟩) := by
  rw [forward, Run.get_bind_apply, h.dims_eq, if_neg hpos, liftM_check_ok, pure_bind]
  apply updateWeightPair_of_ok hdv hdest hsaved
  rw [floats_withoutWeight_both hds hvs h.input, liftM_check_ok, pure_bind]
  apply Tensor.onFloatPair_of_ok
  have hcover (u : Shape) (hu : u = ⟨[rows, columns]⟩) (k : Nat) (hk : k < u.elemCount) :
      k ∈ (writes rows columns src).map Prod.fst := by
    rw [map_fst_writes]
    subst hu
    exact List.mem_range.mpr hk
  refine PerformsBoth.fills (PerformsBoth.forM fun n hn => ?_) (hcover s hs) (hcover t ht) _
  have hn' : n < rows := List.mem_range.mp hn
  rw [Run.mapM_eq_pure fun k hk => View.get_entry h.matrix hn' (List.mem_range.mp hk), pure_bind]
  have hboth := (performs_row src ht hn').onSnd.bind (performs_row src hs hn').onFst
  rwa [List.nil_append, List.append_nil] at hboth

/-- Over empty rows a softmax stops before it writes. -/
theorem forward_stops (h : i.Bound c src rows columns) (hzero : columns = 0) :
    i.forward c = .error (.error .emptySoftmaxRow) c := by
  rw [forward, Run.get_bind_apply, h.dims_eq, if_pos hzero]
  rfl

/-- The contributions of a softmax: the saved probabilities, less one at the
selected column. -/
def terms (rows columns : Nat) (saved : View α) (selected : View Nat) : List (Nat × α) :=
  (List.range rows).flatMap fun n => (List.range columns).map fun k =>
    (flat [rows, columns] [n, k], saved.elem [n, k] - (if selected.elem [n, 0] = k then 1 else 0))

/-- Adding the saved probabilities, less one at the selected column, to a buffer
with a place for every entry. -/
theorem performs_termsInto {saved : View α} {selected : View Nat} {s : Shape}
    (hin : ∀ n < rows, ∀ k < columns,
      Shape.Inside s.dims [n, k] ∧ flat s.dims [n, k] < s.elemCount)
    (hshape : saved.shape = ⟨[rows, columns]⟩) (hlabels : selected.shape = ⟨[rows, 1]⟩) :
    Performs accumulate ((List.range rows).forM fun n => do
        let label ← selected.get [n, 0]
        scatter accumulate (List.range columns) (fun c => s.position [n, c]) fun c => do
          return (← saved.get [n, c]) - (if label = c then 1 else 0) :
        Run (Vector α s.elemCount) Unit)
      ((List.range rows).flatMap fun n => (List.range columns).map fun k =>
        (flat s.dims [n, k],
          saved.elem [n, k] - (if selected.elem [n, 0] = k then 1 else 0))) := by
  refine Performs.forM fun n hn => ?_
  have hn' : n < rows := List.mem_range.mp hn
  rw [View.get_entry hlabels hn' Nat.one_pos, Run.liftM_ok, pure_bind]
  refine performs_scatter (fun k hk => ?_) (fun k hk => ?_) fun k hk => ?_
  · rw [View.get_entry hshape hn' (List.mem_range.mp hk)]
    rfl
  · exact Shape.position_eq (hin n hn' k (List.mem_range.mp hk)).1
  · exact (hin n hn' k (List.mem_range.mp hk)).2

/-- Adding them to a matrix. -/
theorem performs_terms {saved : View α} {selected : View Nat} {s : Shape}
    (hs : s = ⟨[rows, columns]⟩) (hshape : saved.shape = ⟨[rows, columns]⟩)
    (hlabels : selected.shape = ⟨[rows, 1]⟩) :
    Performs accumulate ((List.range rows).forM fun n => do
        let label ← selected.get [n, 0]
        scatter accumulate (List.range columns) (fun c => s.position [n, c]) fun c => do
          return (← saved.get [n, c]) - (if label = c then 1 else 0) :
        Run (Vector α s.elemCount) Unit) (terms rows columns saved selected) := by
  subst hs
  exact performs_termsInto (fun n hn k hk => ⟨inside_entry hn hk,
    Shape.flat_lt (inside_entry hn hk) rfl⟩) hshape hlabels

theorem backward_eq {saved : View α} {selected : View Nat} (h : i.Bound c src rows columns)
    (hpos : columns ≠ 0) (hsaved : c.weights[i.saved]? = some saved.tensor)
    (hshape : saved.shape = ⟨[rows, columns]⟩)
    (hselected : c.weights[i.selected]? = some selected.indexTensor)
    (hlabels : selected.shape = ⟨[rows, 1]⟩) (hgrad : c.HasGrad i.src src.shape) :
    i.backward c = .ok () (c.deposits accumulate
      [(i.src, terms rows columns saved selected)]) := by
  have hselect : (selected.indexTensor : Tensor α).shape = ⟨[rows, 1]⟩ := hlabels
  rw [backward, Run.get_bind_apply, h.dims_eq, if_neg hpos, liftM_check_ok, pure_bind]
  dsimp only
  rw [Run.get_bind_apply, shapeOf_eq hselected, hselect, liftM_check_ok, pure_bind,
    requireSameShape_self, liftM_check_ok, pure_bind]
  have hread : (c.withoutGrad i.src).weights[i.saved]? = some saved.tensor := hsaved
  have hlabel : (c.withoutGrad i.src).weights[i.selected]? = some selected.indexTensor := hselected
  apply updateGrad_deposit hgrad
  · rw [floats_eq hread, indices_eq hlabel]
    simp only [liftM_check_ok, pure_bind]
    rfl
  · exact performs_terms h.matrix hshape hlabels

end Softmax

/-! ### Squared distance -/

namespace Regression

variable (i : Regression) {c : Context α} {src expected : View α} {rows columns : Nat}

omit [Scalar α] in
/-- A squared distance passes its input on. -/
theorem forward_eq {s : Shape} {old : Vector α s.elemCount}
    (hsrc : c.weights[i.src]? = some src.tensor)
    (hdest : c.weights[i.dest]? = some ⟨s, .float old⟩) (hne : i.dest ≠ i.src)
    (hs : src.shape = s) :
    i.forward c = .ok () (c.setWeight i.dest ⟨s, .float (src.data.cast (hs ▸ rfl))⟩) := by
  have hshape : src.tensor.shape = s := hs
  rw [forward, Run.get_bind_apply, shapeOf_eq hsrc, shapeOf_eq hdest, hshape]
  simp only [liftM_check_ok, pure_bind, requireSameShape_self]
  exact Unary.move_eq ⟨i.dest, i.src⟩ hsrc hdest hne (hs ▸ rfl)

/-- The contributions of a squared distance: how far the input is off. -/
def terms (rows columns : Nat) (src expected : View α) : List (Nat × α) :=
  ((List.range rows).flatMap fun n => (List.range columns).map fun k => [n, k]).map
    fun coord => (flat [rows, columns] coord, src.elem coord - expected.elem coord)

/-- Adding how far the input is off. -/
theorem performs_terms {s : Shape} (hs : s = ⟨[rows, columns]⟩)
    (hsrc : src.shape = ⟨[rows, columns]⟩) (he : expected.shape = ⟨[rows, columns]⟩) :
    Performs accumulate (scatter accumulate
        ((List.range rows).flatMap fun n => (List.range columns).map fun c => [n, c])
        s.position fun coord => do return (← src.get coord) - (← expected.get coord) :
        Run (Vector α s.elemCount) Unit) (terms rows columns src expected) := by
  have hentry : ∀ coord ∈ (List.range rows).flatMap (fun n =>
      (List.range columns).map fun k => [n, k]), ∃ n k, n < rows ∧ k < columns ∧ coord = [n, k] := by
    intro coord hcoord
    obtain ⟨n, hn, hcoord⟩ := List.mem_flatMap.mp hcoord
    obtain ⟨k, hk, rfl⟩ := List.mem_map.mp hcoord
    exact ⟨n, k, List.mem_range.mp hn, List.mem_range.mp hk, rfl⟩
  refine performs_scatter_inside hs (fun coord hcoord => ?_) (fun coord hcoord => ?_)
    fun coord hcoord => ?_
  all_goals obtain ⟨n, k, hn, hk, rfl⟩ := hentry coord hcoord
  · rw [View.get_entry hsrc hn hk, View.get_entry he hn hk]
    rfl
  · exact inside_entry hn hk
  · rfl

theorem backward_eq (hsrc : c.weights[i.src]? = some src.tensor)
    (hexpected : c.weights[i.expected]? = some expected.tensor)
    (hs : src.shape = ⟨[rows, columns]⟩) (he : expected.shape = ⟨[rows, columns]⟩)
    (hgrad : c.HasGrad i.src src.shape) :
    i.backward c = .ok () (c.deposits accumulate [(i.src, terms rows columns src expected)]) := by
  have hsshape : src.tensor.shape = ⟨[rows, columns]⟩ := hs
  have heshape : expected.tensor.shape = ⟨[rows, columns]⟩ := he
  rw [backward, Run.get_bind_apply, shapeOf_eq hsrc, shapeOf_eq hexpected, hsshape, heshape]
  simp only [liftM_check_ok, pure_bind, requireSameShape_self, requireRank_of_dims]
  have hread : (c.withoutGrad i.src).weights[i.src]? = some src.tensor := hsrc
  have hreade : (c.withoutGrad i.src).weights[i.expected]? = some expected.tensor := hexpected
  apply updateGrad_deposit hgrad
  · rw [floats_eq hread, floats_eq hreade]
    simp only [liftM_check_ok, pure_bind]
    rfl
  · exact performs_terms hs hs he

end Regression

end TensorProgram
