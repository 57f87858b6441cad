/-
TensorProgram/WeightInit.lean

How a weight is filled before the first run: with zeros, with one value, or
with uniform samples from the range whose half-width shrinks with the number of
inputs that feed an output.  Samples are drawn from a stream of words, one word
for every element in row-major order; the other schemes draw none.
-/
import TensorProgram.Tensor.Update

namespace TensorProgram

/-- A scheme that fills a weight. -/
inductive WeightInit (α : Type) where
  /-- Zero everywhere. -/
  | zero
  /-- One value everywhere. -/
  | broadcast (value : α)
  /-- Uniform samples for this number of inputs per output. -/
  | xavier (fanIn : Nat)

namespace WeightInit

variable {α : Type} [Scalar α]

/-- Half the width of the sampling range for a number of inputs. -/
def xavierScale (fanIn : Nat) : α := Scalar.sqrt (Scalar.ofNat 3 / Scalar.ofNat (max fanIn 1))

/-- The number of words that a scheme draws for a tensor of this size. -/
def draws (scheme : WeightInit α) (size : Nat) : Nat :=
  match scheme with
  | xavier _ => size
  | _ => 0

/-- Fill a tensor by a scheme, drawing from the words at `position` and after.
A tensor of indices only accepts zeros. -/
def apply (scheme : WeightInit α) (words : Nat → UInt32) (position : Nat)
    (t : Tensor α) : Except Error (Tensor α) :=
  match scheme with
  | zero => .ok t.zero
  | broadcast value => do
      let _ ← t.floats
      return Tensor.full value t.shape
  | xavier fanIn => do
      let _ ← t.floats
      let scale := xavierScale fanIn
      return ⟨t.shape, .float (Vector.ofFn fun i =>
        Scalar.uniform (-scale) scale (words (position + i.val)))⟩

end WeightInit

end TensorProgram
