/-
TensorProgram/Scalar/Basic.lean

The arithmetic that programs run on, as a class of operations without laws.
Every kernel, the training step and the initialization are written against it,
so a program can be run in binary floating point, where each operation rounds,
or over an exact field, where sums may be rearranged.  A statement that holds
for every `Scalar` holds bit for bit in floating point.

A number type also says how much memory its elements take, which is what limits the
size of a tensor.
-/
import TensorProgram.ElemKind

namespace TensorProgram

/-- The operations of a number type that programs can run on. -/
class Scalar (α : Type) extends Zero α, One α, Add α, Sub α, Mul α, Div α, Neg α where
  /-- The number nearest to a count. -/
  ofNat : Nat → α
  /-- Square root. -/
  sqrt : α → α
  /-- Exponential function. -/
  exp : α → α
  /-- `pow x y` is `x` to the power `y`. -/
  pow : α → α → α
  /-- Strictly less. -/
  lt : α → α → Bool
  /-- Less or equal. -/
  le : α → α → Bool
  /-- The sample of the closed range from `lo` to `hi` that a random word selects. -/
  uniform : (lo hi : α) → UInt32 → α
  /-- The bytes that an element of a kind takes, none where numbers are ideal. -/
  bytes : ElemKind → Nat

namespace Scalar

variable {α : Type} [Scalar α]

/-- Equality as numbers: each is at most the other.  It identifies the two
zeros of floating point and holds of no not-a-number. -/
def same (x y : α) : Bool := le x y && le y x

/-- The sign of a number as a number; zero where it has none. -/
def sign (x : α) : α := if lt 0 x then 1 else if lt x 0 then -1 else 0

/-- The sum of a list, added from the left starting at zero. -/
def sum (xs : List α) : α := xs.foldl (· + ·) 0

end Scalar

end TensorProgram
