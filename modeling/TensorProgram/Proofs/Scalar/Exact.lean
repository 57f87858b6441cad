/-
TensorProgram/Proofs/Scalar/Exact.lean

Number types in which programs compute exactly: the operations are those of a
field, so sums may be rearranged and products distributed.  They take no room, so
tensors of every size can be allocated.  Nothing is asked of roots, exponentials,
comparisons and samples; they are whatever the number type makes of them.

A sum over a walk is a sum over what the walk visits: nested walks are nested
sums, and what a walk skips counts as zero.
-/
import Mathlib
import TensorProgram.Scalar.Basic

namespace TensorProgram

/-- Scalars that are the elements of a field, with its operations. -/
class ExactScalar (K : Type) extends Scalar K, Field K where
  /-- Counts are themselves. -/
  ofNat_eq (n : Nat) : (Scalar.ofNat n : K) = n
  /-- Elements take no room. -/
  bytes_eq (kind : ElemKind) : Scalar.bytes (α := K) kind = 0

/-- These scalars compute exactly: their operations are those of a field. -/
def Scalar.Exact (α : Type) [scalar : Scalar α] : Prop := ∃ e : ExactScalar α, e.toScalar = scalar

theorem Scalar.exact {K : Type} [exact : ExactScalar K] : Scalar.Exact K := ⟨exact, rfl⟩

/-- Exact sums are sums. -/
theorem Scalar.sum_eq {K : Type} [ExactScalar K] (xs : List K) : Scalar.sum xs = xs.sum := by
  rw [Scalar.sum, List.sum_eq_foldl]

section Walks

variable {ι κ M : Type} [AddCommMonoid M]

/-- A sum over a nested walk. -/
theorem sum_map_flatMap (xs : List ι) (f : ι → List κ) (g : κ → M) :
    ((xs.flatMap f).map g).sum = (xs.map fun x => ((f x).map g).sum).sum := by
  induction xs with
  | nil => rfl
  | cons x xs ih => rw [List.flatMap_cons, List.map_append, List.sum_append, ih, List.map_cons,
      List.sum_cons]

/-- A sum over a walk that leaves something out. -/
theorem sum_map_filterMap (xs : List ι) (f : ι → Option κ) (g : κ → M) :
    ((xs.filterMap f).map g).sum = (xs.map fun x => (f x).elim 0 g).sum := by
  induction xs with
  | nil => rfl
  | cons x xs ih =>
      rw [List.filterMap_cons, List.map_cons, List.sum_cons, ← ih]
      rcases f x with - | y
      · exact (zero_add _).symm
      · rfl

/-- A sum over a walk through all numbers below a bound. -/
theorem sum_map_range (f : Nat → M) (n : Nat) :
    ((List.range n).map f).sum = ∑ k ∈ Finset.range n, f k := by
  rw [← List.toFinset_range, List.sum_toFinset f List.nodup_range]

end Walks

/-- The elements of an ordered field, with these functions in place of those that
may leave it. -/
abbrev exactScalars {K : Type} [Field K] [LinearOrder K] (sqrt exp : K → K) (pow : K → K → K)
    (uniform : K → K → UInt32 → K) : ExactScalar K where
  __ := (inferInstance : Field K)
  ofNat n := n
  sqrt := sqrt
  exp := exp
  pow := pow
  lt x y := decide (x < y)
  le x y := decide (x ≤ y)
  uniform := uniform
  bytes _ := 0
  ofNat_eq _ := rfl
  bytes_eq _ := rfl

end TensorProgram
