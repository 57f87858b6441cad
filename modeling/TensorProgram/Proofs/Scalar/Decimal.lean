/-
TensorProgram/Proofs/Scalar/Decimal.lean

The decimal text of a single-precision number determines the number.

A text can be read (`reading`), and the text of digits reads as their number
(`Digits.reading_text`): what is lost at the end of a fraction are zeros.  The check of
the search, a comparison of natural numbers, asks whether a grid point lies among the
reals that round to the number (`readsBack_iff`).  The search always ends with such a
point: nine decimal digits are finer than twenty-four binary ones
(`Binary.readsBack_shortest`), so the value that stands in for a search without result
is never taken.

The reals that round to a number form an interval.  In the order of the bit patterns
these intervals meet at their ends at most, and a common end belongs to the number with
the even mantissa, so a real rounds to one number only (`eq_of_rounds`).

Main statement: `text_eq_text_iff`.  The patterns that stand for no number are all
printed alike, and only they.
-/
import Mathlib
import TensorProgram.Scalar.Decimal

namespace TensorProgram.Decimal

/-! ### Digits of natural numbers -/

section Digits

variable {c : Char} {n : ℕ}

theorem toList_nat (n : ℕ) : (toString n).toList = Nat.toDigits 10 n := Nat.toList_repr

theorem isDigit_of_mem_nat (h : c ∈ (toString n).toList) : c.isDigit = true := by
  rw [toList_nat] at h
  exact Nat.isDigit_of_mem_toDigits (by decide) (by decide) h

/-- Between digits there is nothing else. -/
theorem notMem_nat (hc : c.isDigit = false) (n : ℕ) : c ∉ (toString n).toList := by
  intro h
  rw [isDigit_of_mem_nat h] at hc
  cases hc

theorem nat_ne_nil (n : ℕ) : (toString n).toList ≠ [] := by
  rw [toList_nat]
  exact Nat.toDigits_ne_nil

theorem nat_inj {m n : ℕ} (h : (toString m).toList = (toString n).toList) : m = n :=
  Nat.repr_injective (String.toList_inj.mp h)

theorem ofDigitChars_nat (n : ℕ) : Nat.ofDigitChars 10 (toString n).toList 0 = n := by
  rw [toList_nat]
  exact Nat.ofDigitChars_toDigits (by decide) (by decide)

end Digits

/-! ### Reading a text -/

/-- The number that digits after a point stand for. -/
def fractionValue (cs : List Char) : ℚ := Nat.ofDigitChars 10 cs 0 / 10 ^ cs.length

/-- The number that a text of digits with at most one point stands for. -/
def reading (cs : List Char) : ℚ :=
  Nat.ofDigitChars 10 (cs.takeWhile (· != '.')) 0
    + fractionValue ((cs.dropWhile (· != '.')).drop 1)

/-- The number that these digits stand for. -/
def Digits.value (d : Digits) : ℚ := d.digits * 10 ^ d.exponent

theorem ne_point_of_mem_nat {n : ℕ} : ∀ c ∈ (toString n).toList, (c != '.') = true := by
  intro c hc
  rw [bne_iff_ne]
  rintro rfl
  exact notMem_nat (by decide) n hc

/-- A text without a point. -/
theorem reading_whole (n : Nat) : reading (toString n).toList = n := by
  rw [reading, List.takeWhile_eq_self_iff.mpr ne_point_of_mem_nat,
    List.dropWhile_eq_nil_iff.mpr ne_point_of_mem_nat, ofDigitChars_nat, fractionValue]
  simp

/-- A text with a point. -/
theorem reading_point (n : Nat) (fraction : List Char) :
    reading ((toString n).toList ++ '.' :: fraction) = n + fractionValue fraction := by
  rw [reading, List.takeWhile_append_of_pos ne_point_of_mem_nat,
    List.dropWhile_append_of_pos ne_point_of_mem_nat,
    List.takeWhile_cons_of_neg (by simp), List.dropWhile_cons_of_neg (by simp), List.append_nil,
    ofDigitChars_nat]
  rfl

/-- Zeros at the end of a fraction do not count. -/
theorem fractionValue_zeros (cs : List Char) (z : Nat) :
    fractionValue (cs ++ List.replicate z '0') = fractionValue cs := by
  rw [fractionValue, fractionValue, Nat.ofDigitChars_append, Nat.ofDigitChars_replicate_zero,
    List.length_append, List.length_replicate]
  push_cast
  rw [pow_add, mul_comm ((10 : ℚ) ^ z)]
  exact mul_div_mul_right _ _ (by positivity)

/-- Taking the zeros away from the end takes nothing else away. -/
theorem exists_zeros (cs : List Char) :
    ∃ z, cs = cs.rdropWhile (· == '0') ++ List.replicate z '0' := by
  refine ⟨(cs.rtakeWhile (· == '0')).length, ?_⟩
  have hzeros : cs.rtakeWhile (· == '0') = List.replicate (cs.rtakeWhile (· == '0')).length '0' :=
    List.eq_replicate_of_mem fun c hc => by simpa using List.mem_rtakeWhile_imp hc
  rw [← hzeros, List.rdropWhile_append_rtakeWhile]

/-- The digits of a fraction with this many places, without zeros at the end. -/
def fractionText (r places : Nat) : List Char :=
  (List.replicate (places - (toString r).toList.length) '0' ++ (toString r).toList).rdropWhile
    (· == '0')

theorem fractionValue_fractionText {r places : Nat} (hpos : 0 < places) (hr : r < 10 ^ places) :
    fractionValue (fractionText r places) = r / 10 ^ places := by
  set padded := List.replicate (places - (toString r).toList.length) '0' ++ (toString r).toList
    with hpadded
  have hlength : padded.length = places := by
    have hle : (toString r).toList.length ≤ places := by
      rw [toList_nat]
      exact (Nat.length_toDigits_le_iff (by decide) hpos).mpr hr
    rw [hpadded, List.length_append, List.length_replicate]
    omega
  have hvalue : Nat.ofDigitChars 10 padded 0 = r := by
    rw [hpadded, Nat.ofDigitChars_append, Nat.ofDigitChars_replicate_zero, Nat.mul_zero,
      ofDigitChars_nat]
  -- the zeros that are dropped at the end count for nothing
  obtain ⟨z, hz⟩ := exists_zeros padded
  calc fractionValue (padded.rdropWhile (· == '0'))
      = fractionValue padded := by rw [← fractionValue_zeros _ z, ← hz]
    _ = r / 10 ^ places := by rw [fractionValue, hvalue, hlength]

theorem Digits.exists_places {d : Digits} (h : ¬0 ≤ d.exponent) :
    ∃ places : ℕ, d.exponent = -(places : ℤ) ∧ 0 < places :=
  ⟨(-d.exponent).toNat, by omega, by omega⟩

/-- The text of a number with places after the point. -/
theorem Digits.text_of_neg {d : Digits} {places : Nat} (hexp : d.exponent = -(places : ℤ))
    (hpos : 0 < places) : d.text.toList = (toString (d.digits / 10 ^ places)).toList ++
      if fractionText (d.digits % 10 ^ places) places = [] then []
      else '.' :: fractionText (d.digits % 10 ^ places) places := by
  have hplaces : (-d.exponent).toNat = places := by omega
  rw [text, if_neg (by omega)]
  dsimp only
  rw [hplaces]
  change (if (fractionText (d.digits % 10 ^ places) places).isEmpty then
    toString (d.digits / 10 ^ places) else toString (d.digits / 10 ^ places) ++ "." ++
      String.ofList (fractionText (d.digits % 10 ^ places) places)).toList = _
  by_cases hnone : fractionText (d.digits % 10 ^ places) places = [] <;> simp [hnone]

/-- The text of digits reads as their number. -/
theorem Digits.reading_text (d : Digits) : reading d.text.toList = d.value := by
  rw [Digits.value]
  by_cases he : 0 ≤ d.exponent
  · obtain ⟨e, hexp⟩ := Int.eq_ofNat_of_zero_le he
    rw [text, if_pos he, reading_whole, hexp]
    push_cast
    simp
  · obtain ⟨places, hexp, hpos⟩ := Digits.exists_places he
    have hfraction :=
      fractionValue_fractionText hpos (Nat.mod_lt d.digits (Nat.pow_pos (by decide)))
    -- the digits before and after the point are quotient and remainder
    have hwhole : ((d.digits / 10 ^ places : ℕ) : ℚ) + (d.digits % 10 ^ places : ℕ) / 10 ^ places
        = d.digits * 10 ^ d.exponent := by
      have hdiv := congrArg (Nat.cast (R := ℚ)) (Nat.div_add_mod d.digits (10 ^ places))
      push_cast at hdiv
      rw [hexp, zpow_neg, zpow_natCast, ← div_eq_mul_inv, eq_div_iff (by positivity), add_mul,
        div_mul_cancel₀ _ (by positivity), mul_comm]
      exact_mod_cast hdiv
    rw [d.text_of_neg hexp hpos, ← hwhole, ← hfraction]
    split
    case isTrue hnone =>
      rw [List.append_nil, reading_whole, hnone, fractionValue]
      simp
    case isFalse => rw [reading_point]

/-! ### The reals that round to a number -/

section Intervals

variable {b : Binary} {k : ℕ} {e : ℤ}

/-- The number itself. -/
def Binary.value (b : Binary) : ℚ := b.mantissa * 2 ^ b.exponent

/-- The lower end of the reals that round to it. -/
def Binary.low (b : Binary) : ℚ :=
  ((4 * b.mantissa - if b.narrow then 1 else 2 : ℕ) : ℚ) * (2 ^ b.exponent / 4)

/-- The upper end of the reals that round to it. -/
def Binary.high (b : Binary) : ℚ := ((4 * b.mantissa + 2 : ℕ) : ℚ) * (2 ^ b.exponent / 4)

/-- The reals that round to it: the ends do if the mantissa is even. -/
def Binary.Rounds (b : Binary) (r : ℚ) : Prop :=
  if b.mantissa % 2 = 0 then b.low ≤ r ∧ r ≤ b.high else b.low < r ∧ r < b.high

theorem zpow_toNat {a : ℚ} (ha : a ≠ 0) (q : ℤ) : a ^ q * a ^ (-q).toNat = a ^ q.toNat := by
  rw [← zpow_natCast, ← zpow_natCast, ← zpow_add₀ ha]
  congr 1
  omega

theorem ratio_pos (m : ℕ) (q p : ℤ) : 0 < (ratio m q p).2 :=
  Nat.mul_pos (Nat.pow_pos (by decide)) (Nat.pow_pos (by decide))

/-- The two natural numbers have the quotient that they stand for. -/
theorem ratio_eq (m : ℕ) (q p : ℤ) :
    (m * 2 ^ q * 10 ^ p : ℚ) * (ratio m q p).2 = (ratio m q p).1 := by
  have h2 := zpow_toNat (two_ne_zero (α := ℚ)) q
  have h10 := zpow_toNat (by norm_num : (10 : ℚ) ≠ 0) p
  calc (m * 2 ^ q * 10 ^ p : ℚ) * (ratio m q p).2
      = m * (2 ^ q * 2 ^ (-q).toNat) * (10 ^ p * 10 ^ (-p).toNat) := by
        simp only [ratio, Nat.pow_eq]
        push_cast
        ring
    _ = (ratio m q p).1 := by
        rw [h2, h10]
        simp only [ratio, Nat.pow_eq]
        push_cast
        ring

/-- The check of a grid point asks whether it rounds to the number. -/
theorem readsBack_iff : b.readsBack k e = true ↔ b.Rounds (k * 10 ^ e) := by
  -- both ends are compared to the point after scaling by one positive factor
  set den := (ratio 1 b.exponent (-e)).2 with hden
  set num := (ratio 1 b.exponent (-e)).1 with hnum
  have hF : (0 : ℚ) < 4 * den * 10 ^ (-e) := by
    have := ratio_pos 1 b.exponent (-e)
    positivity
  have hpoint : (k * 10 ^ e : ℚ) * (4 * den * 10 ^ (-e)) = ((4 * k * den : ℕ) : ℚ) := by
    push_cast
    rw [zpow_neg]
    field_simp
  have hend (a : ℕ) : ((a : ℚ) * (2 ^ b.exponent / 4)) * (4 * den * 10 ^ (-e))
      = ((a * num : ℕ) : ℚ) := by
    push_cast
    rw [hnum, ← ratio_eq]
    push_cast
    ring
  have hbelow (a : ℕ) : a * num ≤ 4 * k * den ↔ (a : ℚ) * (2 ^ b.exponent / 4) ≤ k * 10 ^ e := by
    rw [← mul_le_mul_iff_of_pos_right hF, hpoint, hend]
    exact Nat.cast_le.symm
  have habove (a : ℕ) : 4 * k * den ≤ a * num ↔ (k * 10 ^ e : ℚ) ≤ a * (2 ^ b.exponent / 4) := by
    rw [← mul_le_mul_iff_of_pos_right hF, hpoint, hend]
    exact Nat.cast_le.symm
  rw [Binary.readsBack, Binary.Rounds, Binary.low, Binary.high]
  dsimp only
  rw [← hnum, ← hden]
  by_cases heven : b.mantissa % 2 = 0
  · rw [if_pos heven, if_pos heven, Bool.and_eq_true, decide_eq_true_iff, decide_eq_true_iff,
      hbelow, habove]
  · rw [if_neg heven, if_neg heven, Bool.and_eq_true, decide_eq_true_iff, decide_eq_true_iff,
      ← not_le, ← not_le, hbelow, habove, not_le, not_le]

end Intervals

/-! ### Nine digits are enough -/

section Search

variable {b : Binary} {e : ℤ}

theorem digitCount_pos (n : ℕ) : 0 < digitCount n :=
  List.length_pos_iff.mpr Nat.toDigits_ne_nil

theorem lt_pow_digitCount (n : ℕ) : n < 10 ^ digitCount n :=
  (Nat.length_toDigits_le_iff (by decide) (digitCount_pos n)).mp (le_refl _)

theorem pow_digitCount_le {n : ℕ} (hn : 0 < n) : 10 ^ (digitCount n - 1) ≤ n := by
  by_contra hlt
  rw [not_le] at hlt
  rcases Nat.eq_zero_or_pos (digitCount n - 1) with hone | hmore
  · rw [hone, pow_zero] at hlt
    omega
  · have hle : digitCount n ≤ digitCount n - 1 :=
      (Nat.length_toDigits_le_iff (by decide) hmore).mpr hlt
    have := digitCount_pos n
    omega

/-- The leading digit stands where the magnitude says. -/
theorem Binary.pow_magnitude_le (hb : 0 < b.mantissa) : (10 : ℚ) ^ (b.magnitude - 1) ≤ b.value := by
  have hden := ratio_pos b.mantissa b.exponent 0
  have hratio := ratio_eq b.mantissa b.exponent 0
  rw [zpow_zero, mul_one] at hratio
  rw [Binary.magnitude, Binary.value]
  dsimp only
  set num := (ratio b.mantissa b.exponent 0).1
  set den := (ratio b.mantissa b.exponent 0).2
  have hden' : (0 : ℚ) < den := by exact_mod_cast hden
  rw [← mul_le_mul_iff_of_pos_right hden', hratio]
  split
  case isTrue hle =>
    -- the digits before the point
    have hdigits := pow_digitCount_le (Nat.div_pos hle hden)
    set s := digitCount (num / den)
    have hpos : 0 < s := digitCount_pos _
    have hexp : (s : ℤ) - 1 = (s - 1 : ℕ) := by omega
    rw [hexp, zpow_natCast]
    have hmul : 10 ^ (s - 1) * den ≤ num :=
      (Nat.mul_le_mul_right _ hdigits).trans (Nat.div_mul_le_self _ _)
    exact_mod_cast hmul
  case isFalse hlt =>
    -- the zeros after the point
    have hnum : 0 < num := by
      have hpos : (0 : ℚ) < num := by
        rw [← hratio]
        have : (0 : ℚ) < b.mantissa := by exact_mod_cast hb
        positivity
      exact_mod_cast hpos
    set s := digitCount ((den - 1) / num)
    have hdigits : (den - 1) / num < 10 ^ s := lt_pow_digitCount _
    rw [Nat.div_lt_iff_lt_mul hnum] at hdigits
    have hle : den ≤ num * 10 ^ s := by rw [mul_comm]; omega
    have hexp : (1 : ℤ) - (s : ℤ) - 1 = -(s : ℤ) := by omega
    rw [hexp, zpow_neg, zpow_natCast, inv_mul_le_iff₀ (by positivity), mul_comm]
    exact_mod_cast hle

/-- The nearer of the two neighbours of the number on a grid. -/
def Binary.near (b : Binary) (e : ℤ) : ℕ :=
  let (num, den) := ratio b.mantissa b.exponent (-e)
  if den ≤ 2 * (num % den) then num / den + 1 else num / den

/-- The other one. -/
def Binary.far (b : Binary) (e : ℤ) : ℕ :=
  let (num, den) := ratio b.mantissa b.exponent (-e)
  if den ≤ 2 * (num % den) then num / den else num / den + 1

theorem Binary.onGrid?_eq (b : Binary) (e : ℤ) : b.onGrid? e =
    if b.readsBack (b.near e) e then some (b.near e)
    else if b.readsBack (b.far e) e then some (b.far e) else none := rfl

/-- What the search finds on a grid reads back. -/
theorem Binary.readsBack_of_onGrid? {k : ℕ} (h : b.onGrid? e = some k) :
    b.readsBack k e = true := by
  rw [Binary.onGrid?_eq] at h
  split at h
  case isTrue hnear => exact Option.some.inj h ▸ hnear
  case isFalse =>
    split at h
    case isTrue hfar => exact Option.some.inj h ▸ hfar
    case isFalse => cases h

/-- The nearer neighbour is at most half a step away. -/
theorem Binary.abs_near_sub_le (b : Binary) (e : ℤ) :
    |(b.near e * 10 ^ e : ℚ) - b.value| ≤ 10 ^ e / 2 := by
  have hden := ratio_pos b.mantissa b.exponent (-e)
  have hratio := ratio_eq b.mantissa b.exponent (-e)
  rw [Binary.near, Binary.value]
  dsimp only
  set num := (ratio b.mantissa b.exponent (-e)).1
  set den := (ratio b.mantissa b.exponent (-e)).2
  set k := if den ≤ 2 * (num % den) then num / den + 1 else num / den with hk
  -- in integers: rounding the fraction moves it by half a unit at most
  have hhalf : 2 * (k * den) ≤ 2 * num + den ∧ 2 * num ≤ 2 * (k * den) + den := by
    have hdiv := Nat.div_add_mod' num den
    have hmod := Nat.mod_lt num hden
    rw [hk]
    split
    · rw [Nat.add_mul]
      omega
    · omega
  obtain ⟨hupper, hlower⟩ := hhalf
  have hden' : (0 : ℚ) < den := by exact_mod_cast hden
  have hstep : (0 : ℚ) < 10 ^ e := by positivity
  have hvalue : (b.mantissa * 2 ^ b.exponent : ℚ) = num / den * 10 ^ e := by
    rw [← hratio, zpow_neg]
    field_simp
  have hupper' : (k : ℚ) - num / den ≤ 1 / 2 := by
    rw [sub_le_iff_le_add, ← sub_le_iff_le_add', le_div_iff₀ hden']
    have : ((2 * (k * den) : ℕ) : ℚ) ≤ ((2 * num + den : ℕ) : ℚ) := Nat.cast_le.mpr hupper
    push_cast at this
    linarith
  have hlower' : -(1 / 2) ≤ (k : ℚ) - num / den := by
    rw [neg_le_sub_iff_le_add, div_le_iff₀ hden']
    have : ((2 * num : ℕ) : ℚ) ≤ ((2 * (k * den) + den : ℕ) : ℚ) := Nat.cast_le.mpr hlower
    push_cast at this
    linarith
  calc |(k * 10 ^ e : ℚ) - b.mantissa * 2 ^ b.exponent|
      = |(k : ℚ) - num / den| * 10 ^ e := by rw [hvalue, ← sub_mul, abs_mul, abs_of_pos hstep]
    _ ≤ 1 / 2 * 10 ^ e := mul_le_mul_of_nonneg_right (abs_le.mpr ⟨hlower', hupper'⟩) hstep.le
    _ = 10 ^ e / 2 := by ring

/-- On a grid that is finer than half a gap of the number the search succeeds. -/
theorem Binary.exists_onGrid? (hb : 0 < b.mantissa) (hfine : (10 : ℚ) ^ e < 2 ^ b.exponent / 2) :
    ∃ k, b.onGrid? e = some k := by
  -- half a step is less than a quarter of a gap, so the neighbour rounds back
  have hnear : b.readsBack (b.near e) e = true := by
    obtain ⟨hlower, hupper⟩ := abs_le.mp (b.abs_near_sub_le e)
    have hlow : b.low ≤ b.value - 2 ^ b.exponent / 4 := by
      have hsub : 4 * b.mantissa - (if b.narrow then 1 else 2) ≤ 4 * b.mantissa - 1 :=
        Nat.sub_le_sub_left (by split <;> decide) _
      have hcast : ((4 * b.mantissa - 1 : ℕ) : ℚ) = 4 * b.mantissa - 1 := by
        rw [Nat.cast_sub (by omega)]
        push_cast
        rfl
      calc b.low ≤ ((4 * b.mantissa - 1 : ℕ) : ℚ) * (2 ^ b.exponent / 4) :=
            mul_le_mul_of_nonneg_right (Nat.cast_le.mpr hsub) (by positivity)
        _ = b.value - 2 ^ b.exponent / 4 := by
            rw [hcast, Binary.value]
            ring
    have hhigh : b.high = b.value + 2 ^ b.exponent / 2 := by
      rw [Binary.high, Binary.value]
      push_cast
      ring
    rw [readsBack_iff, Binary.Rounds]
    split <;> constructor <;> linarith
  exact ⟨b.near e, by rw [Binary.onGrid?_eq, if_pos hnear]⟩

/-- The text of a number of at most twenty-four binary digits reads back as it: the ninth
decimal digit counts for less than a hundred millionth of the number, and the last binary
one for more than a sixteen millionth. -/
theorem Binary.readsBack_shortest (hb : 0 < b.mantissa) (hlt : b.mantissa < 2 ^ 24) :
    b.readsBack b.shortest.digits b.shortest.exponent = true := by
  have hfine : (10 : ℚ) ^ (b.magnitude - (9 : ℕ)) < 2 ^ b.exponent / 2 := by
    have hmantissa : (b.mantissa : ℚ) < 2 ^ 24 := by exact_mod_cast hlt
    have hunit : (0 : ℚ) < 2 ^ b.exponent := by positivity
    calc (10 : ℚ) ^ (b.magnitude - (9 : ℕ)) = 10 ^ (b.magnitude - 1) / 10 ^ 8 := by
          rw [← zpow_natCast (10 : ℚ) 8, ← zpow_sub₀ (by norm_num)]
          congr 1
          push_cast
          ring
      _ ≤ b.value / 10 ^ 8 := by
          have := Binary.pow_magnitude_le hb
          gcongr
      _ < 2 ^ 24 * 2 ^ b.exponent / 10 ^ 8 := by
          rw [Binary.value]
          gcongr
      _ < 2 ^ b.exponent / 2 := by linarith
  -- the search takes the first grid that reads back, and the ninth one does
  obtain ⟨k, hk⟩ := Binary.exists_onGrid? hb hfine
  obtain ⟨d, hd⟩ : ∃ d, (List.range 9).findSome? (fun i => (b.onGrid? (b.magnitude
      - ((i + 1 : ℕ) : ℤ))).map fun k => (⟨k, b.magnitude - ((i + 1 : ℕ) : ℤ)⟩ : Digits))
        = some d := by
    rw [← Option.isSome_iff_exists, List.findSome?_isSome_iff]
    exact ⟨8, by decide, by rw [hk]; rfl⟩
  obtain ⟨i, -, hi⟩ := List.exists_of_findSome?_eq_some hd
  obtain ⟨k', hk', rfl⟩ := Option.map_eq_some_iff.mp hi
  have hshortest : b.shortest = ⟨k', b.magnitude - ((i + 1 : ℕ) : ℤ)⟩ := by
    rw [Binary.shortest]
    exact congrArg (Option.getD · _) hd
  rw [hshortest]
  exact Binary.readsBack_of_onGrid? hk'

end Search

/-! ### No real rounds to two numbers -/

section Order

variable {b : Binary} {r : ℚ} {m m' : ℕ}

theorem Binary.low_lt_high (b : Binary) : b.low < b.high := by
  have hle : 4 * b.mantissa - (if b.narrow then 1 else 2) < 4 * b.mantissa + 2 := by omega
  exact mul_lt_mul_of_pos_right (Nat.cast_lt.mpr hle) (by positivity)

theorem Binary.Rounds.ends (h : b.Rounds r) : b.low ≤ r ∧ r ≤ b.high := by
  rw [Binary.Rounds] at h
  split at h
  · exact h
  · exact ⟨h.1.le, h.2.le⟩

/-- The number that a bit pattern below infinity stands for. -/
def numberAt (m : ℕ) : Binary :=
  if m / 2 ^ 23 = 0 then ⟨m % 2 ^ 23, -149, false⟩
  else ⟨m % 2 ^ 23 + 2 ^ 23, (m / 2 ^ 23 : ℕ) - 150, m % 2 ^ 23 = 0⟩

theorem binaryOfBits_eq (hpos : 0 < m) (hfinite : m < 255 * 2 ^ 23) :
    binaryOfBits m = some (numberAt m) := by
  have hfield : m / 2 ^ 23 ≠ 255 := by omega
  rw [binaryOfBits, numberAt]
  simp only [Nat.pow_eq]
  rw [if_neg hfield]
  split
  case isTrue hzero => rw [if_neg (by omega)]
  case isFalse => rfl

theorem numberAt_mantissa_lt (m : ℕ) : (numberAt m).mantissa < 2 ^ 24 := by
  unfold numberAt
  split <;> dsimp only <;> omega

theorem numberAt_mantissa_pos (hm : 0 < m) : 0 < (numberAt m).mantissa := by
  unfold numberAt
  split <;> dsimp only <;> omega

/-- Neighbours have mantissas of different parity. -/
theorem numberAt_mantissa_mod (m : ℕ) : (numberAt m).mantissa % 2 = m % 2 := by
  unfold numberAt
  split <;> dsimp only <;> omega

/-- One step on, the last digit of the mantissa counts up, or the exponent does. -/
theorem numberAt_succ (m : ℕ) :
    (numberAt (m + 1) = ⟨(numberAt m).mantissa + 1, (numberAt m).exponent, false⟩) ∨
      (numberAt m).mantissa + 1 = 2 ^ 23 ∧
        numberAt (m + 1) = ⟨2 ^ 23, (numberAt m).exponent, true⟩ ∨
      (numberAt m).mantissa + 1 = 2 ^ 24 ∧
        numberAt (m + 1) = ⟨2 ^ 23, (numberAt m).exponent + 1, true⟩ := by
  -- the fraction counts up, or it overflows into the exponent field
  rcases Nat.lt_or_ge (m % 2 ^ 23 + 1) (2 ^ 23) with hsame | hnext
  · left
    have hfield : (m + 1) / 2 ^ 23 = m / 2 ^ 23 := by omega
    have hfraction : (m + 1) % 2 ^ 23 = m % 2 ^ 23 + 1 := by omega
    rw [numberAt, numberAt, hfield, hfraction]
    split
    · rfl
    · simp only [Binary.mk.injEq, true_and, Nat.add_right_comm, decide_eq_false_iff_not]
      omega
  · right
    have hfield : (m + 1) / 2 ^ 23 = m / 2 ^ 23 + 1 := by omega
    have hfraction : (m + 1) % 2 ^ 23 = 0 := by omega
    have hlast : m % 2 ^ 23 + 1 = 2 ^ 23 := by omega
    rw [numberAt, numberAt, hfield, hfraction, if_neg (Nat.succ_ne_zero _), Nat.zero_add]
    split
    case isTrue hzero =>
      left
      simp only [hlast, hzero, Binary.mk.injEq, true_and, and_true, decide_true]
      decide
    case isFalse =>
      right
      simp only [Binary.mk.injEq, true_and, and_true, decide_true]
      omega

/-- The reals that round to a number end where those of the next one begin; only below
the first full mantissa a quarter of a gap is left over. -/
theorem high_le_low_succ (m : ℕ) : (numberAt m).high ≤ (numberAt (m + 1)).low := by
  obtain h | ⟨hmantissa, h⟩ | ⟨hmantissa, h⟩ := numberAt_succ m <;>
    rw [Binary.high, Binary.low, h] <;> dsimp only
  · refine mul_le_mul_of_nonneg_right (Nat.cast_le.mpr ?_) (by positivity)
    rw [if_neg (by decide)]
    omega
  · refine mul_le_mul_of_nonneg_right (Nat.cast_le.mpr ?_) (by positivity)
    rw [if_pos rfl]
    omega
  · -- the unit has doubled
    have hunit (q : ℤ) : (2 : ℚ) ^ (q + 1) / 4 = 2 * (2 ^ q / 4) := by
      rw [zpow_add_one₀ (by norm_num)]
      ring
    rw [if_pos rfl, hunit, ← mul_assoc]
    refine mul_le_mul_of_nonneg_right ?_ (by positivity)
    have hdouble : 4 * (numberAt m).mantissa + 2 = (4 * 2 ^ 23 - 1) * 2 := by omega
    rw [hdouble, Nat.cast_mul]
    exact le_of_eq rfl

/-- The reals that round to a number do not lie above those of any later one. -/
theorem high_le_low (h : m < m') : (numberAt m).high ≤ (numberAt m').low := by
  induction m', h using Nat.le_induction with
  | base => exact high_le_low_succ m
  | succ k _ ih => exact ih.trans ((Binary.low_lt_high _).le.trans (high_le_low_succ k))

/-- If there is a number in between, not even the ends meet. -/
theorem high_lt_low (h : m + 1 < m') : (numberAt m).high < (numberAt m').low :=
  (high_le_low_succ m).trans_lt ((Binary.low_lt_high _).trans_le (high_le_low h))

/-- No real rounds to a number and to a later one. -/
theorem not_rounds_of_lt (h : m < m') (hm : (numberAt m).Rounds r) (hm' : (numberAt m').Rounds r) :
    False := by
  have hr : (numberAt m').low ≤ (numberAt m).high := hm'.ends.1.trans hm.ends.2
  rcases Nat.lt_or_ge (m + 1) m' with hfar | hnear
  · exact absurd hr (not_le.mpr (high_lt_low hfar))
  · -- the end they share belongs to the even one only
    obtain rfl : m' = m + 1 := by omega
    have hparity := numberAt_mantissa_mod m
    have hparity' := numberAt_mantissa_mod (m + 1)
    have hle := high_le_low_succ m
    have hends := hm.ends.2
    have hends' := hm'.ends.1
    rw [Binary.Rounds] at hm hm'
    split at hm
    · rw [if_neg (by omega)] at hm'
      linarith [hm'.1]
    · linarith [hm.2]

/-- A real rounds to one number only. -/
theorem eq_of_rounds (hm : (numberAt m).Rounds r) (hm' : (numberAt m').Rounds r) : m = m' := by
  rcases Nat.lt_trichotomy m m' with hlt | heq | hgt
  · exact (not_rounds_of_lt hlt hm hm').elim
  · exact heq
  · exact (not_rounds_of_lt hgt hm' hm).elim

end Order

/-! ### The text of a bit pattern -/

section Text

variable {m m' : ℕ} {c : Char}

/-- Digits are printed with digits and a point. -/
theorem Digits.notMem_text (hdigit : c.isDigit = false) (hpoint : c ≠ '.') (d : Digits) :
    c ∉ d.text.toList := by
  by_cases he : 0 ≤ d.exponent
  · rw [Digits.text, if_pos he]
    exact notMem_nat hdigit _
  · obtain ⟨places, hexp, hpos⟩ := Digits.exists_places he
    have hfraction : c ∉ fractionText (d.digits % 10 ^ places) places := by
      intro h
      obtain hzero | hmem := List.mem_append.mp ((List.rdropWhile_prefix _ _).subset h)
      · rw [(List.mem_replicate.mp hzero).2] at hdigit
        exact absurd hdigit (by decide)
      · exact notMem_nat hdigit _ hmem
    rw [d.text_of_neg hexp hpos, List.mem_append, not_or]
    refine ⟨notMem_nat hdigit _, ?_⟩
    split
    · simp
    · simpa [hpoint] using hfraction

/-- The text of a number without its sign. -/
def magnitudeText (m : ℕ) : String :=
  match binaryOfBits m with
  | some b => b.shortest.text
  | none => if m = 0 then "0" else "inf"

theorem magnitudeText_finite (hpos : 0 < m) (hfinite : m < 255 * 2 ^ 23) :
    magnitudeText m = (numberAt m).shortest.text := by
  rw [magnitudeText, binaryOfBits_eq hpos hfinite]

theorem magnitudeText_zero : magnitudeText 0 = "0" := rfl

theorem magnitudeText_infinite : magnitudeText (255 * 2 ^ 23) = "inf" := by
  have hnone : binaryOfBits (255 * 2 ^ 23) = none := by
    rw [binaryOfBits]
    simp only [Nat.pow_eq]
    rw [if_pos (Nat.mul_div_cancel _ (by norm_num))]
  rw [magnitudeText, hnone]
  dsimp only
  rw [if_neg (by norm_num)]

theorem notMem_magnitudeText (hdigit : c.isDigit = false) (hother : c ∉ ".inf".toList) (m : ℕ) :
    c ∉ (magnitudeText m).toList := by
  simp only [String.reduceToList, List.mem_cons, List.not_mem_nil, or_false, not_or] at hother
  unfold magnitudeText
  split
  · exact Digits.notMem_text hdigit hother.1 _
  · split
    · intro h
      obtain rfl : c = '0' := by simpa using h
      cases hdigit
    · simp [hother]

/-- The text of a finite number rounds to it. -/
theorem rounds_magnitudeText (hfinite : m < 255 * 2 ^ 23) :
    (numberAt m).Rounds (reading (magnitudeText m).toList) := by
  rcases Nat.eq_zero_or_pos m with rfl | hpos
  · -- zero is the lower end of what rounds to it
    have hzero : numberAt 0 = ⟨0, -149, false⟩ := rfl
    have hreading : reading (magnitudeText 0).toList = 0 := (reading_whole 0).trans Nat.cast_zero
    rw [hreading, hzero, Binary.Rounds, if_pos (by rfl), Binary.low, Binary.high]
    norm_num
  · rw [magnitudeText_finite hpos hfinite, Digits.reading_text]
    exact readsBack_iff.mp
      (Binary.readsBack_shortest (numberAt_mantissa_pos hpos) (numberAt_mantissa_lt m))

/-- The text of a finite number has no letters. -/
theorem notMem_magnitudeText_finite (hdigit : c.isDigit = false) (hpoint : c ≠ '.')
    (hfinite : m < 255 * 2 ^ 23) : c ∉ (magnitudeText m).toList := by
  rcases Nat.eq_zero_or_pos m with rfl | hpos
  · rw [magnitudeText_zero]
    intro h
    obtain rfl : c = '0' := by simpa using h
    cases hdigit
  · rw [magnitudeText_finite hpos hfinite]
    exact Digits.notMem_text hdigit hpoint _

/-- Up to the sign the text of a number determines it. -/
theorem magnitudeText_inj (hm : m ≤ 255 * 2 ^ 23) (hm' : m' ≤ 255 * 2 ^ 23)
    (h : magnitudeText m = magnitudeText m') : m = m' := by
  have hletter {k : ℕ} (hfinite : k < 255 * 2 ^ 23) : magnitudeText k ≠ "inf" := by
    intro hinf
    refine notMem_magnitudeText_finite (by decide) (by decide) hfinite (c := 'i') ?_
    rw [hinf]
    decide
  rcases Nat.lt_or_eq_of_le hm with hfinite | rfl <;>
    rcases Nat.lt_or_eq_of_le hm' with hfinite' | rfl
  · have hrounds := rounds_magnitudeText hfinite
    rw [h] at hrounds
    exact eq_of_rounds hrounds (rounds_magnitudeText hfinite')
  · exact absurd (h.trans magnitudeText_infinite) (hletter hfinite)
  · exact absurd (h.symm.trans magnitudeText_infinite) (hletter hfinite')
  · rfl

end Text

/-! ### The text of a number -/

section Number

variable {x y : Float32}

/-- The bit pattern of a number without the sign. -/
def magnitudeBits (x : Float32) : ℕ := x.toBits.toNat % 2 ^ 31

/-- The bit pattern of a number; patterns that stand for none are not told apart. -/
def pattern (x : Float32) : Option UInt32 :=
  if 255 * 2 ^ 23 < magnitudeBits x then none else some x.toBits

theorem text_eq (x : Float32) : text x =
    if 255 * 2 ^ 23 < magnitudeBits x then "NaN"
    else if 2 ^ 31 ≤ x.toBits.toNat then "-" ++ magnitudeText (magnitudeBits x)
    else magnitudeText (magnitudeBits x) := rfl

/-- No text has separators or line breaks in it. -/
theorem notMem_text {c : Char} (hdigit : c.isDigit = false) (hother : c ∉ "-.infNa".toList)
    (x : Float32) : c ∉ (text x).toList := by
  simp only [String.reduceToList, List.mem_cons, List.not_mem_nil, or_false, not_or] at hother
  have hmagnitude := notMem_magnitudeText hdigit (by simp [hother]) (magnitudeBits x)
  rw [text_eq]
  split
  · simp [hother]
  · split
    · simpa [hother] using hmagnitude
    · exact hmagnitude

/-- The letter that only the text of no number has. -/
theorem letter_mem_text_iff :
    'N' ∈ (text x).toList ↔ 255 * 2 ^ 23 < magnitudeBits x := by
  have hmagnitude : 'N' ∉ (magnitudeText (magnitudeBits x)).toList :=
    notMem_magnitudeText (by decide) (by decide) _
  rw [text_eq]
  split
  case isTrue hnan => exact iff_of_true (by simp) hnan
  case isFalse hnan =>
    refine iff_of_false ?_ hnan
    generalize magnitudeText (magnitudeBits x) = t at hmagnitude
    split <;> simp [hmagnitude]

/-- The sign that only the text of a negative number has. -/
theorem sign_mem_text_iff (hx : magnitudeBits x ≤ 255 * 2 ^ 23) :
    '-' ∈ (text x).toList ↔ 2 ^ 31 ≤ x.toBits.toNat := by
  have hmagnitude : '-' ∉ (magnitudeText (magnitudeBits x)).toList :=
    notMem_magnitudeText (by decide) (by decide) _
  rw [text_eq, if_neg (not_lt.mpr hx)]
  split
  case isTrue hsign => exact iff_of_true (by simp) hsign
  case isFalse hsign => exact iff_of_false hmagnitude hsign

/-- What is printed without that letter is told apart: the sign by its mark, the rest by
what follows. -/
theorem toBits_eq_of_text_eq (hx : magnitudeBits x ≤ 255 * 2 ^ 23)
    (hy : magnitudeBits y ≤ 255 * 2 ^ 23) (h : text x = text y) : x.toBits = y.toBits := by
  have hsign : 2 ^ 31 ≤ x.toBits.toNat ↔ 2 ^ 31 ≤ y.toBits.toNat := by
    rw [← sign_mem_text_iff hx, ← sign_mem_text_iff hy, h]
  have hmagnitude : magnitudeBits x = magnitudeBits y := by
    rw [text_eq, text_eq, if_neg (not_lt.mpr hx), if_neg (not_lt.mpr hy)] at h
    by_cases hnegative : 2 ^ 31 ≤ x.toBits.toNat
    · rw [if_pos hnegative, if_pos (hsign.mp hnegative), String.append_right_inj] at h
      exact magnitudeText_inj hx hy h
    · rw [if_neg hnegative, if_neg (mt hsign.mpr hnegative)] at h
      exact magnitudeText_inj hx hy h
  unfold magnitudeBits at hmagnitude
  have hltx := x.toBits.toNat_lt
  have hlty := y.toBits.toNat_lt
  refine UInt32.toNat_inj.mp ?_
  omega

/-- **The text of a number determines its bit pattern**, if it is one. -/
theorem text_eq_text_iff : text x = text y ↔ pattern x = pattern y := by
  constructor
  · -- what is not a number is told apart by a letter in its text
    intro h
    have hnan : 255 * 2 ^ 23 < magnitudeBits x ↔ 255 * 2 ^ 23 < magnitudeBits y := by
      rw [← letter_mem_text_iff, ← letter_mem_text_iff, h]
    by_cases hx : 255 * 2 ^ 23 < magnitudeBits x
    · rw [pattern, pattern, if_pos hx, if_pos (hnan.mp hx)]
    · rw [pattern, pattern, if_neg hx, if_neg (mt hnan.mpr hx),
        toBits_eq_of_text_eq (not_lt.mp hx) (not_lt.mp (mt hnan.mpr hx)) h]
  · intro h
    rw [pattern, pattern] at h
    by_cases hx : 255 * 2 ^ 23 < magnitudeBits x <;> by_cases hy : 255 * 2 ^ 23 < magnitudeBits y
    · rw [text_eq, text_eq, if_pos hx, if_pos hy]
    · rw [if_pos hx, if_neg hy] at h
      cases h
    · rw [if_neg hx, if_pos hy] at h
      cases h
    · rw [if_neg hx, if_neg hy] at h
      rw [text_eq, text_eq, magnitudeBits, magnitudeBits, Option.some.inj h]

end Number

end TensorProgram.Decimal
