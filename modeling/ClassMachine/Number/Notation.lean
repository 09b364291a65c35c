import ClassMachine.Number.Shortest

/-!
# Decimal notation

Two notations for numbers. The console notation is positional throughout and marks whole numbers
below ten million with `.0`. The inspection notation always shows a fraction or an exponent, and
takes the exponent for numbers that are very large or very small.
-/

namespace ClassMachine

namespace Decimal

def digitText (d : Decimal) : List Char :=
  (toString d.digits).toList

/-- Positional notation; whole numbers have no point. -/
def positional (d : Decimal) : List Char :=
  let digits := d.digitText
  let whole : Int := d.exponent + digits.length
  if 0 ≤ d.exponent then digits ++ List.replicate d.exponent.toNat '0'
  else if 0 < whole then digits.take whole.toNat ++ '.' :: digits.drop whole.toNat
  else '0' :: '.' :: List.replicate (-whole).toNat '0' ++ digits

/-- One digit, the others behind a point, and the power of ten. -/
def scientific (d : Decimal) : List Char :=
  let fraction := match d.digitText with
    | [] => []
    | [only] => [only]
    | first :: others => first :: '.' :: others
  fraction ++ 'e' :: (toString d.leading).toList

end Decimal

namespace Number

def sign (negative : Bool) : List Char :=
  if negative then ['-'] else []

/-- The natural number `m * 2 ^ e`, if it is one. -/
def whole? (significand : Nat) (exponent : Int) : Option Nat :=
  if 0 ≤ exponent then some (significand * Nat.pow 2 exponent.toNat)
  else
    let unit := Nat.pow 2 (-exponent).toNat
    if significand % unit = 0 then some (significand / unit) else none

/-- Whole numbers below this bound end in `.0` on the console. -/
def pointBound : Nat := 10000000

/-- Console notation of a magnitude. -/
def consoleDigits (format : Format) (significand : Nat) (exponent : Int) : List Char :=
  match whole? significand exponent with
  | some n =>
    if n < pointBound then (toString n).toList ++ ['.', '0']
    else (format.shortest significand exponent).positional
  | none => (format.shortest significand exponent).positional

def console (format : Format) : Number → String
  | finite negative m e => String.ofList (sign negative ++ consoleDigits format m e)
  | infinite negative => String.ofList (sign negative) ++ "Infinity"
  | nan => "NaN"

/-- Powers of ten of the first digit for which inspection stays positional. -/
def positionalRange (leading : Int) : Bool :=
  -4 ≤ leading && leading < 16

/-- Inspection notation of a magnitude. -/
def inspectionDigits (format : Format) (significand : Nat) (exponent : Int) : List Char :=
  if significand = 0 then ['0', '.', '0']
  else
    let d := format.shortest significand exponent
    if !positionalRange d.leading then d.scientific
    else if 0 ≤ d.exponent then d.positional ++ ['.', '0']
    else d.positional

def inspection (format : Format) : Number → String
  | finite negative m e => String.ofList (sign negative ++ inspectionDigits format m e)
  | infinite negative => String.ofList (sign negative) ++ "inf"
  | nan => "NaN"

end Number

end ClassMachine
