import ClassMachine.Text.GraphemeExtend
import ClassMachine.Text.Unprintable

/-!
# Quoted text

Text between double quotes, where quotes, backslashes and everything that would not show as a
character of its own are escaped.
-/

namespace ClassMachine.Text

def hexDigit (n : Nat) : Char :=
  if n < 10 then Char.ofNat (0x30 + n) else Char.ofNat (0x61 + (n - 10))

/-- Lower case hexadecimal digits without leading zeros. -/
def hexDigits (n : Nat) : List Char :=
  if n < 16 then [hexDigit n] else hexDigits (n / 16) ++ [hexDigit (n % 16)]

/-- Hexadecimal digits, padded with zeros to at least `width`. -/
def hexPadded (width n : Nat) : String :=
  let digits := hexDigits n
  String.ofList (List.replicate (width - digits.length) '0' ++ digits)

/-- The fillers of the Hangul script are letters, but nothing is drawn for them. -/
def isHangulFiller (c : Char) : Bool :=
  [0x115f, 0x1160, 0x3164, 0xffa0].contains c.toNat

/-- The halfwidth sound marks belong to the character before them, but have a place of their own. -/
def isHalfwidthSoundMark (c : Char) : Bool :=
  c.toNat = 0xff9e || c.toNat = 0xff9f

/-- A character is shown as itself if it would be seen as one of its own. ASCII needs no look at the
tables. -/
def isShown (c : Char) : Bool :=
  if c.toNat < 0x7f then 0x20 ≤ c.toNat
  else
    isHalfwidthSoundMark c ||
      (!isGraphemeExtend c && !isUnprintable c && !isHangulFiller c)

def escapeChar (c : Char) : List Char :=
  match c with
  | '"' => ['\\', '"']
  | '\\' => ['\\', '\\']
  | '\n' => ['\\', 'n']
  | '\t' => ['\\', 't']
  | '\r' => ['\\', 'r']
  | '\x00' => ['\\', '0']
  | c =>
    if isShown c then [c]
    else ['\\', 'u', '\x7b'] ++ hexDigits c.toNat ++ ['\x7d']

def quoted (text : String) : String :=
  String.ofList ('"' :: text.toList.flatMap escapeChar ++ ['"'])

end ClassMachine.Text
