/-!
# Binary floating point numbers

A number is finite, infinite or not a number. A finite one is a significand times a power of two,
with a sign that zero has too.
-/

namespace ClassMachine

inductive Number where
  | finite (negative : Bool) (significand : Nat) (exponent : Int)
  | infinite (negative : Bool)
  | nan
deriving Repr, DecidableEq, Inhabited

namespace Number

/-- Sign and magnitude over the common unit `2 ^ unit`, for a `unit` that is no larger than the
exponent. -/
def units (negative : Bool) (significand : Nat) (exponent unit : Int) : Int :=
  let magnitude : Int := (significand * Nat.pow 2 (exponent - unit).toNat : Nat)
  if negative then -magnitude else magnitude

/-- Comparison as numbers: the two zeros are equal and what is not a number differs from
everything. -/
def equal : Number → Number → Bool
  | finite s m e, finite t n f => units s m e (min e f) == units t n f (min e f)
  | infinite s, infinite t => s == t
  | _, _ => false

end Number

end ClassMachine
