/-
TensorProgram/Proofs/Gradient/Cell.lean

Elements of an output as expressions in the elements of other values.  A cell
is a position of the output with summands, each a multiple of one element or a
product of two.  The value of a cell may be taken in the scalars or in
polynomials over them, and its slope says how the value moves when the elements
move.

Main statement: if the elements are polynomials in a parameter, then the value
of a cell is one, and its coefficient of degree one is the slope of the cell at
the coefficients of degree zero and one (`Cell.coeff_one_value`).
-/
import TensorProgram.Proofs.Scalar.Exact
import TensorProgram.Proofs.Tensor.Writes

namespace TensorProgram

open Polynomial

/-- An element of a value: the name of the value and a position. -/
abbrev Place := ValueId × Nat

/-- A summand of an element of an output. -/
inductive Summand (K : Type) where
  /-- A multiple of one element. -/
  | scaled (factor : K) (place : Place)
  /-- The product of two elements. -/
  | product (left right : Place)

/-- An element of an output: its position and what it is the sum of. -/
structure Cell (K : Type) where
  /-- The position in the output. -/
  position : Nat
  /-- The summands. -/
  summands : List (Summand K)

namespace Summand

variable {K R : Type}

/-- The elements that a summand is made of. -/
def places : Summand K → List Place
  | scaled _ p => [p]
  | product p q => [p, q]

/-- The value of a summand, given the elements. -/
def value [Mul R] [SMul K R] (x : Place → R) : Summand K → R
  | scaled a p => a • x p
  | product p q => x p * x q

/-- How the value of a summand moves when the elements `x` move by `d`. -/
def slope [Mul K] [Add K] (x d : Place → K) : Summand K → K
  | scaled a p => a * d p
  | product p q => x p * d q + d p * x q

theorem value_congr [Mul R] [SMul K R] {x y : Place → R} {u : Summand K}
    (h : ∀ p ∈ u.places, x p = y p) : u.value x = u.value y := by
  cases u with
  | scaled a p => rw [value, value, h p (by simp [places])]
  | product p q => rw [value, value, h p (by simp [places]), h q (by simp [places])]

variable [Field K]

theorem slope_congr {x y d : Place → K} {u : Summand K} (h : ∀ p ∈ u.places, x p = y p) :
    u.slope x d = u.slope y d := by
  cases u with
  | scaled a p => rfl
  | product p q => rw [slope, slope, h p (by simp [places]), h q (by simp [places])]

theorem eval_value (t : K) (x : Place → K[X]) (u : Summand K) :
    (u.value x).eval t = u.value fun p => (x p).eval t := by
  cases u with
  | scaled a p => rw [value, value, eval_smul]
  | product p q => rw [value, value, eval_mul]

theorem coeff_one_value (x : Place → K[X]) (u : Summand K) :
    (u.value x).coeff 1 = u.slope (fun p => (x p).coeff 0) fun p => (x p).coeff 1 := by
  cases u with
  | scaled a p => rw [value, slope, coeff_smul, smul_eq_mul]
  | product p q => rw [value, slope, mul_coeff_one]

end Summand

namespace Cell

variable {K R : Type}

/-- The value of a cell, given the elements. -/
def value [CommSemiring R] [SMul K R] (x : Place → R) (cell : Cell K) : R :=
  (cell.summands.map (·.value x)).sum

/-- How the value of a cell moves when the elements `x` move by `d`. -/
def slope [Field K] (x d : Place → K) (cell : Cell K) : K :=
  (cell.summands.map (·.slope x d)).sum

/-- The value depends on the elements in the summands. -/
theorem value_congr [CommSemiring R] [SMul K R] {x y : Place → R} {cell : Cell K}
    (h : ∀ u ∈ cell.summands, ∀ p ∈ u.places, x p = y p) : cell.value x = cell.value y := by
  rw [value, value]
  congr 1
  exact List.map_congr_left fun u hu => Summand.value_congr (h u hu)

variable [Field K]

/-- The slope depends on the elements in the summands. -/
theorem slope_congr {x y d : Place → K} {cell : Cell K}
    (h : ∀ u ∈ cell.summands, ∀ p ∈ u.places, x p = y p) : cell.slope x d = cell.slope y d := by
  rw [slope, slope]
  congr 1
  exact List.map_congr_left fun u hu => Summand.slope_congr (h u hu)

/-- The value at polynomials is a polynomial with the right values. -/
theorem eval_value (t : K) (x : Place → K[X]) (cell : Cell K) :
    (cell.value x).eval t = cell.value fun p => (x p).eval t := by
  rw [value, value, ← coe_evalRingHom, map_list_sum, List.map_map]
  congr 1
  exact List.map_congr_left fun u _ => u.eval_value t x

/-- **The coefficient of degree one is the slope.** -/
theorem coeff_one_value (x : Place → K[X]) (cell : Cell K) :
    (cell.value x).coeff 1
      = cell.slope (fun p => (x p).coeff 0) fun p => (x p).coeff 1 := by
  rw [value, slope, ← lcoeff_apply, map_list_sum, List.map_map]
  congr 1
  exact List.map_congr_left fun u _ => u.coeff_one_value x

end Cell

/-! ### Cells that fill a buffer -/

section Fill

variable {K : Type} {cells : List (Cell K)} {n : Nat}

/-- The cells are the elements of a buffer of this length, each once. -/
def Fill (cells : List (Cell K)) (n : Nat) : Prop :=
  (cells.map (·.position)).Perm (List.range n)

/-- The writes of the values of cells. -/
def cellWrites [Field K] (cells : List (Cell K)) (x : Place → K) : List (Nat × K) :=
  cells.map fun cell => (cell.position, cell.value x)

/-- A sum over positions is one over cells. -/
theorem Fill.sum_range [AddCommMonoid K] (h : Fill cells n) (f : Nat → K) :
    ∑ k ∈ Finset.range n, f k = (cells.map fun cell => f cell.position).sum := by
  rw [← sum_map_range]
  have hperm := (h.map f).sum_eq
  rw [List.map_map] at hperm
  exact hperm.symm

/-- Every position belongs to a cell. -/
theorem Fill.exists_cell (h : Fill cells n) {k : Nat} (hk : k < n) :
    ∃ cell ∈ cells, cell.position = k :=
  List.mem_map.mp (h.mem_iff.mpr (List.mem_range.mpr hk))

theorem Fill.position_lt (h : Fill cells n) {cell : Cell K} (hcell : cell ∈ cells) :
    cell.position < n :=
  List.mem_range.mp (h.mem_iff.mp (List.mem_map_of_mem hcell))

/-- At the position of a cell the buffer holds its value. -/
theorem Fill.entry_filled [ExactScalar K] {s : Shape} (h : Fill cells s.elemCount) (x : Place → K)
    {cell : Cell K} (hcell : cell ∈ cells) :
    (View.mk s (filled _ (cellWrites cells x))).entry cell.position = cell.value x := by
  have hnodup : ((cellWrites cells x).map Prod.fst).Nodup := by
    rw [cellWrites, List.map_map]
    exact h.nodup_iff.mpr List.nodup_range
  have hmem : (cell.position, cell.value x) ∈ cellWrites cells x := List.mem_map_of_mem hcell
  exact View.entry_filled hnodup hmem (h.position_lt hcell)

end Fill

end TensorProgram
