/-
TensorProgram/Scalar/Binary32.lean

Single-precision floating point as a number type for programs: every operation
rounds once, to the nearest value, ties to even.

A uniform sample takes 23 bits of a random word as a fraction in `[0, 1)` and
maps it linearly onto the range.  The slope is chosen such that the largest
fraction stays within the range: it starts as the quotient of the width by the
largest fraction and steps down to neighbouring values while the image of that
fraction exceeds the upper end.
-/
import TensorProgram.Scalar.Basic

namespace TensorProgram.Binary32

/-- The fraction in `[0, 1)` that the upper 23 bits of a word select. -/
def fraction (word : UInt32) : Float32 :=
  Float32.ofBits ((0x3f800000 : UInt32) ||| (word >>> 9)) - 1.0

/-- The largest fraction that a word selects. -/
def largestFraction : Float32 := fraction 0xffffffff

/-- The largest slope, among the values whose bits are at most `bits`, that
keeps the largest fraction within the range. -/
def slopeBelow (lo hi : Float32) : (bits : Nat) → Float32
  | 0 => Float32.ofBits 0
  | bits + 1 =>
      let slope := Float32.ofBits (UInt32.ofNat (bits + 1))
      if slope * largestFraction + lo > hi then slopeBelow lo hi bits else slope

/-- The slope that maps fractions onto the range from `lo` to `hi`. -/
def slope (lo hi : Float32) : Float32 :=
  slopeBelow lo hi ((hi - lo) / largestFraction).toBits.toNat

/-- The sample of the range from `lo` to `hi` that a word selects. -/
def uniform (lo hi : Float32) (word : UInt32) : Float32 :=
  fraction word * slope lo hi + lo

instance : Scalar Float32 where
  zero := 0.0
  one := 1.0
  add := Float32.add
  sub := Float32.sub
  mul := Float32.mul
  div := Float32.div
  neg := Float32.neg
  ofNat := Float32.ofNat
  sqrt := Float32.sqrt
  exp := Float32.exp
  pow := Float32.pow
  lt x y := decide (x < y)
  le x y := decide (x ≤ y)
  uniform := uniform
  bytes
    | .float => 4
    | .index => 8

end TensorProgram.Binary32
