/-
TensorProgram/Scalar/Decimal.lean

The decimal text of a single-precision number: the fewest digits that read back
as the same number, of those the nearest to it, written positionally without an
exponent and without a fraction when there is none.

A finite number is a mantissa times a power of two.  The reals that round to it
form an interval around it, whose ends belong to it if the mantissa is even.
The search tries one digit, then two, and so on: on each decimal grid only the
two neighbours of the number can be the nearest point inside the interval, and
the first grid on which one of them lies inside wins.  A tie between the two
goes up.  All comparisons are between natural numbers.
-/

namespace TensorProgram.Decimal

/-- A positive binary number `mantissa * 2 ^ exponent` with the width of the
gap to the number below it: half as wide if `narrow`. -/
structure Binary where
  /-- The mantissa. -/
  mantissa : Nat
  /-- The power of two it is multiplied by. -/
  exponent : Int
  /-- The gap below the number is half the gap above it. -/
  narrow : Bool

/-- A decimal number `digits * 10 ^ exponent`. -/
structure Digits where
  /-- The digits, read as a number. -/
  digits : Nat
  /-- The power of ten they are multiplied by. -/
  exponent : Int

/-- A quotient of natural numbers equal to `m * 2 ^ q * 10 ^ p`. -/
def ratio (m : Nat) (q p : Int) : Nat × Nat :=
  (m * Nat.pow 2 q.toNat * Nat.pow 10 p.toNat, Nat.pow 2 (-q).toNat * Nat.pow 10 (-p).toNat)

/-- The grid point `k * 10 ^ e` reads back as `b`: it lies within the interval
of reals that round to `b`.  Everything is scaled by four, because the lower
end of the interval is a quarter of the mantissa's unit below the number if the
gap is narrow. -/
def Binary.readsBack (b : Binary) (k : Nat) (e : Int) : Bool :=
  let (num, den) := ratio 1 b.exponent (-e)
  let point := 4 * k * den
  let low := (4 * b.mantissa - if b.narrow then 1 else 2) * num
  let high := (4 * b.mantissa + 2) * num
  if b.mantissa % 2 = 0 then low ≤ point && point ≤ high else low < point && point < high

/-- The nearest point of the grid of `10 ^ e` that reads back as `b`, if there
is one; of two equally near points the upper. -/
def Binary.onGrid? (b : Binary) (e : Int) : Option Nat :=
  let (num, den) := ratio b.mantissa b.exponent (-e)
  let below := num / den
  let upFirst := den ≤ 2 * (num % den)
  let near := if upFirst then below + 1 else below
  let far := if upFirst then below else below + 1
  if b.readsBack near e then some near
  else if b.readsBack far e then some far
  else none

/-- The number of decimal digits of a positive natural number. -/
def digitCount (n : Nat) : Nat := (Nat.toDigits 10 n).length

/-- The least power of ten that exceeds `b`, as an exponent. -/
def Binary.magnitude (b : Binary) : Int :=
  let (num, den) := ratio b.mantissa b.exponent 0
  if den ≤ num then
    (digitCount (num / den) : Nat)
  else
    -- With `den ≤ num * 10 ^ s` first true at `s`, the leading digit is at `-s`.
    let s : Nat := digitCount ((den - 1) / num)
    1 - (s : Int)

/-- The fewest digits, at most nine, that read back as `b`. -/
def Binary.shortest (b : Binary) : Digits :=
  let top := b.magnitude
  let attempt (count : Nat) : Option Digits :=
    let e := top - (count : Int)
    (b.onGrid? e).map fun k => ⟨k, e⟩
  ((List.range 9).findSome? fun i => attempt (i + 1)).getD ⟨b.mantissa, 0⟩

/-- A decimal number written positionally, with neither trailing zeros after
the point nor a point that nothing follows. -/
def Digits.text (d : Digits) : String :=
  if 0 ≤ d.exponent then toString (d.digits * Nat.pow 10 d.exponent.toNat)
  else
    let places := (-d.exponent).toNat
    let scale := Nat.pow 10 places
    let whole := toString (d.digits / scale)
    let fraction := (toString (d.digits % scale)).toList
    let padded := List.replicate (places - fraction.length) '0' ++ fraction
    let kept := (padded.reverse.dropWhile (· == '0')).reverse
    if kept.isEmpty then whole else whole ++ "." ++ String.ofList kept

/-- The binary number that the low 31 bits of a single-precision pattern stand
for, if it is finite and not zero. -/
def binaryOfBits (bits : Nat) : Option Binary :=
  let field : Nat := bits / Nat.pow 2 23
  let fraction : Nat := bits % Nat.pow 2 23
  if field = 255 then none
  else if field = 0 then
    if fraction = 0 then none else some ⟨fraction, -149, false⟩
  else some ⟨fraction + Nat.pow 2 23, (field : Int) - 150, fraction = 0⟩

/-- The decimal text of a single-precision number. -/
def text (x : Float32) : String :=
  let bits := x.toBits.toNat
  let magnitude := bits % Nat.pow 2 31
  let unsigned :=
    match binaryOfBits magnitude with
    | some b => b.shortest.text
    | none => if magnitude = 0 then "0" else "inf"
  if 255 * Nat.pow 2 23 < magnitude then "NaN"
  else if Nat.pow 2 31 ≤ bits then "-" ++ unsigned
  else unsigned

end TensorProgram.Decimal
