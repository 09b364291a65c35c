import ClassMachine.Number.Format

/-!
# Shortest decimal digits

Every real number between the two midpoints around a number of a format rounds to it; the
midpoints themselves do when its significand is even. Of the decimal numbers in that interval the
ones with the fewest digits are considered, and of those the nearest to the number; between two
that are equally near it is the larger one.

All comparisons are between natural numbers: `n * 2 ^ i` and `d * 10 ^ k` are compared after
multiplication with the powers that are in a denominator.
-/

namespace ClassMachine

/-- The decimal number `digits * 10 ^ exponent`. -/
structure Decimal where
  digits : Nat
  exponent : Int
deriving Repr, DecidableEq, Inhabited

namespace Decimal

/-- How many decimal digits a positive number has. -/
def digitCount (n : Nat) : Nat :=
  if h : n < 10 then 1 else digitCount (n / 10) + 1
termination_by n
decreasing_by omega

/-- Moves the last zeros into the exponent; `fuel` bounds their number. -/
def trim : Nat → Decimal → Decimal
  | 0, d => d
  | fuel + 1, d =>
    if d.digits % 10 = 0 ∧ d.digits ≠ 0 then trim fuel ⟨d.digits / 10, d.exponent + 1⟩ else d

/-- Place of the first digit: its power of ten. -/
def leading (d : Decimal) : Int :=
  d.exponent + (digitCount d.digits - 1 : Nat)

end Decimal

/-- A positive real number as a fraction of natural numbers. -/
structure Ratio where
  num : Nat
  den : Nat
deriving Repr, DecidableEq, Inhabited

namespace Ratio

/-- `n * 2 ^ i`. -/
def ofBinary (n : Nat) (i : Int) : Ratio :=
  ⟨n * Nat.pow 2 i.toNat, Nat.pow 2 (-i).toNat⟩

/-- The ratio divided by `10 ^ k`. -/
def overPowerOfTen (r : Ratio) (k : Int) : Ratio :=
  ⟨r.num * Nat.pow 10 (-k).toNat, r.den * Nat.pow 10 k.toNat⟩

/-- The power of ten at or below the ratio. -/
def leading (r : Ratio) : Int :=
  if r.den ≤ r.num then (Decimal.digitCount (r.num / r.den) - 1 : Nat)
  else
    -- the least power of ten at or above `den / num`
    let inverse := (r.den + r.num - 1) / r.num
    Int.negOfNat (if inverse ≤ 1 then 0 else Decimal.digitCount (inverse - 1))

end Ratio

namespace Format

variable (format : Format)

/-- Quarters of the last place from the number down to the lower midpoint: half a place, or a
quarter where the numbers below are twice as dense. -/
def lowerQuarters (significand : Nat) (exponent : Int) : Nat :=
  if significand = Nat.pow 2 format.fractionBits ∧ format.lowestExponent < exponent then 1 else 2

/-- Whether the decimal `digits` over the scaled lower midpoint lies in the interval. -/
def aboveLower (inclusive : Bool) (low : Ratio) (digits : Nat) : Bool :=
  if inclusive then low.num ≤ digits * low.den else low.num < digits * low.den

def belowUpper (inclusive : Bool) (high : Ratio) (digits : Nat) : Bool :=
  if inclusive then digits * high.den ≤ high.num else digits * high.den < high.num

/-- The decimal with `count` digits in the interval that is nearest to the number, if one is. The
candidates are the number's two neighbours among the multiples of a power of ten. -/
def candidate? (significand : Nat) (exponent : Int) (count : Nat) : Option Decimal :=
  let place (n : Nat) : Ratio := Ratio.ofBinary n (exponent - 2)
  let value := place (4 * significand)
  let k : Int := value.leading + 1 - count
  let scaled := value.overPowerOfTen k
  let low := (place (4 * significand - format.lowerQuarters significand exponent)).overPowerOfTen k
  let high := (place (4 * significand + 2)).overPowerOfTen k
  let inclusive := decide (significand % 2 = 0)
  let down := scaled.num / scaled.den
  let twice := 2 * (scaled.num % scaled.den)
  match aboveLower inclusive low down, belowUpper inclusive high (down + 1) with
  | true, true => some ⟨if twice < scaled.den then down else down + 1, k⟩
  | true, false => some ⟨down, k⟩
  | false, true => some ⟨down + 1, k⟩
  | false, false => none

/-- The first candidate from `count` digits on; `fuel` bounds how many more counts are tried. -/
def shortestFrom (significand : Nat) (exponent : Int) : Nat → Nat → Decimal
  | 0, count =>
    (format.candidate? significand exponent count).getD ⟨significand, 0⟩
  | fuel + 1, count =>
    match format.candidate? significand exponent count with
    | some d => d
    | none => shortestFrom significand exponent fuel (count + 1)

/-- The shortest decimal for a positive number of the format. A significand of `precision` bits
needs no more than that many digits. -/
def shortest (significand : Nat) (exponent : Int) : Decimal :=
  let d := format.shortestFrom significand exponent format.precision 1
  d.trim (Decimal.digitCount d.digits)

end Format

end ClassMachine
