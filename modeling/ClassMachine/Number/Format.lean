import ClassMachine.Number.Basic

/-!
# Binary interchange formats

A format fixes how many bits the significand and the exponent of its numbers have. Its finite
numbers are the `m * 2 ^ e` with `m < 2 ^ precision` and `e` from `lowestExponent` to
`highestExponent`; each is written once, with the significand as large as the range allows.
`round` takes an exact value to the nearest number of the format, a tie to the even significand.
-/

namespace ClassMachine

structure Format where
  /-- Bits of the significand, its first one included. -/
  precision : Nat
  exponentBits : Nat
deriving Repr, DecidableEq, Inhabited

namespace Format

def single : Format := ⟨24, 8⟩

def double : Format := ⟨53, 11⟩

def fractionBits (format : Format) : Nat :=
  format.precision - 1

def bias (format : Format) : Nat :=
  Nat.pow 2 (format.exponentBits - 1) - 1

/-- The exponent field of infinities and of what is not a number. -/
def specialField (format : Format) : Nat :=
  Nat.pow 2 format.exponentBits - 1

def lowestExponent (format : Format) : Int :=
  1 - (format.bias + format.fractionBits : Nat)

def highestExponent (format : Format) : Int :=
  (format.bias : Int) - format.fractionBits

/-- The natural number nearest to `n / d`, the even one of two. -/
def divideToEven (n d : Nat) : Nat :=
  let quotient := n / d
  let twice := 2 * (n % d)
  if twice < d ∨ (twice = d ∧ quotient % 2 = 0) then quotient else quotient + 1

theorem divideToEven_mul (n d : Nat) (h : 0 < d) : divideToEven (n * d) d = n := by
  simp [divideToEven, Nat.mul_div_cancel n h, h]

/-- Puts a rounded significand into the format: a carry out of the precision raises the exponent,
and what lies above the range is infinite. -/
def finish (format : Format) (negative : Bool) (significand : Nat) (exponent : Int) : Number :=
  let carried := decide (significand = Nat.pow 2 format.precision)
  let m := if carried then Nat.pow 2 format.fractionBits else significand
  let e := if carried then exponent + 1 else exponent
  if format.highestExponent < e then .infinite negative else .finite negative m e

/-- The number of the format nearest to `significand * 2 ^ exponent`. -/
def round (format : Format) (negative : Bool) (significand : Nat) (exponent : Int) : Number :=
  if significand = 0 then .finite negative 0 format.lowestExponent
  else
    let full : Int := exponent + significand.log2 + 1 - format.precision
    let target := max full format.lowestExponent
    let m :=
      if target ≤ exponent then significand * Nat.pow 2 (exponent - target).toNat
      else divideToEven significand (Nat.pow 2 (target - exponent).toNat)
    format.finish negative m target

/-- Correctly rounded product. -/
def multiply (format : Format) : Number → Number → Number
  | .finite s m e, .finite t n f => format.round (s != t) (m * n) (e + f)
  | .infinite s, .infinite t => .infinite (s != t)
  | .infinite s, .finite t n _ => if n = 0 then .nan else .infinite (s != t)
  | .finite s m _, .infinite t => if m = 0 then .nan else .infinite (s != t)
  | _, _ => .nan

/-- The same value in another format. -/
def convert (format : Format) : Number → Number
  | .finite s m e => format.round s m e
  | x => x

def powerOfTwo (format : Format) (exponent : Int) : Number :=
  format.round false 1 exponent

end Format

end ClassMachine
