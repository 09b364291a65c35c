import ClassMachine.Number.Format

/-!
# Numbers as bit patterns

From the most significant bit a pattern holds the sign, the exponent field and the fraction. A
field of zero means that the significand has no leading one; the largest field is for infinities
(fraction zero) and for what is not a number.

A pattern is read by scaling its integral significand in two multiplications in the double format,
each by about half of the exponent, and converting the product to the format of the pattern.
-/

namespace ClassMachine.Format

variable (format : Format)

def width : Nat :=
  format.precision + format.exponentBits

def fractionOf (bits : Nat) : Nat :=
  bits % Nat.pow 2 format.fractionBits

def fieldOf (bits : Nat) : Nat :=
  bits / Nat.pow 2 format.fractionBits % Nat.pow 2 format.exponentBits

def isNegative (bits : Nat) : Bool :=
  bits / Nat.pow 2 (format.width - 1) % 2 != 0

/-- The significand in units of the last place; without a leading one it is doubled, so that the
exponent is `field - bias - fractionBits` for every field. -/
def integralSignificand (field fraction : Nat) : Nat :=
  if field = 0 then fraction * 2 else Nat.pow 2 format.fractionBits + fraction

/-- `significand * 2 ^ exponent` in the double format, in two steps. -/
def scale (significand : Nat) (exponent : Int) : Number :=
  let half := exponent.tdiv 2
  double.multiply
    (double.multiply (double.round false significand 0) (double.powerOfTwo half))
    (double.powerOfTwo (exponent - half))

def signOne (negative : Bool) : Number :=
  double.round negative 1 0

/-- The number that a bit pattern of the format stands for. -/
def decode (bits : Nat) : Number :=
  let negative := format.isNegative bits
  let field := format.fieldOf bits
  let fraction := format.fractionOf bits
  if field = format.specialField then
    if fraction = 0 then .infinite negative else .nan
  else
    let exponent : Int := field - (format.bias + format.fractionBits : Nat)
    format.convert
      (double.multiply (signOne negative)
        (scale (format.integralSignificand field fraction) exponent))

def pack (negative : Bool) (field fraction : Nat) : Nat :=
  (if negative then Nat.pow 2 (format.width - 1) else 0) +
    field * Nat.pow 2 format.fractionBits + fraction

/-- The bit pattern of a number of the format, with one pattern for all that are not numbers. -/
def encode : Number → Nat
  | .finite negative m e =>
    if m < Nat.pow 2 format.fractionBits then format.pack negative 0 m
    else
      format.pack negative (e - format.lowestExponent + 1).toNat
        (m - Nat.pow 2 format.fractionBits)
  | .infinite negative => format.pack negative format.specialField 0
  | .nan => format.pack false format.specialField (Nat.pow 2 (format.fractionBits - 1))

end ClassMachine.Format
