import ClassMachine.Bytes

/-!
# UTF-8 text

A byte string is cut into pieces: well-formed encodings of a character, and maximal ill-formed
parts. A part is maximal when no longer one is the beginning of a well-formed encoding. Strict
reading refuses every ill-formed part, lenient reading puts one replacement character for each.
-/

namespace ClassMachine.Utf8

def encode (text : String) : Bytes :=
  text.toList.flatMap String.utf8EncodeChar

/-- An encoding that has begun: its bits so far, how many bytes are still to come, and the range
of the next of them. -/
structure Pending where
  bits : Nat
  missing : Nat
  low : UInt8
  high : UInt8

/-- What a byte at the start of a piece says. -/
inductive Lead where
  | complete (c : Char)
  | opens (pending : Pending)
  | illFormed

/-- Overlong forms, surrogates and code points above U+10FFFF are cut off by the range of the
second byte. -/
def lead (b : UInt8) : Lead :=
  if b < 0x80 then .complete (Char.ofNat b.toNat)
  else if b < 0xc2 then .illFormed
  else if b < 0xe0 then .opens ⟨b.toNat - 0xc0, 1, 0x80, 0xbf⟩
  else if b = 0xe0 then .opens ⟨0x0, 2, 0xa0, 0xbf⟩
  else if b = 0xed then .opens ⟨0xd, 2, 0x80, 0x9f⟩
  else if b < 0xf0 then .opens ⟨b.toNat - 0xe0, 2, 0x80, 0xbf⟩
  else if b = 0xf0 then .opens ⟨0x0, 3, 0x90, 0xbf⟩
  else if b < 0xf4 then .opens ⟨b.toNat - 0xf0, 3, 0x80, 0xbf⟩
  else if b = 0xf4 then .opens ⟨0x4, 3, 0x80, 0x8f⟩
  else .illFormed

/-- A piece is a character, or `none` for an ill-formed part. -/
abbrev Piece := Option Char

/-- The pieces that a byte ends when no encoding is pending, and what is pending after it. -/
def start (b : UInt8) : List Piece × Option Pending :=
  match lead b with
  | .complete c => ([some c], none)
  | .opens pending => ([], some pending)
  | .illFormed => ([none], none)

def extend? (pending : Pending) (b : UInt8) : Option (List Piece × Option Pending) :=
  if pending.low ≤ b ∧ b ≤ pending.high then
    let bits := pending.bits * 64 + (b.toNat - 0x80)
    if pending.missing ≤ 1 then some ([some (Char.ofNat bits)], none)
    else some ([], some ⟨bits, pending.missing - 1, 0x80, 0xbf⟩)
  else none

/-- A byte that does not continue the pending encoding ends it as ill-formed and starts anew. -/
def step : Option Pending → UInt8 → List Piece × Option Pending
  | none, b => start b
  | some pending, b =>
    (extend? pending b).getD (none :: (start b).1, (start b).2)

def piecesFrom : Option Pending → Bytes → List Piece
  | none, [] => []
  | some _, [] => [none]
  | pending, b :: rest => (step pending b).1 ++ piecesFrom (step pending b).2 rest

def pieces (bytes : Bytes) : List Piece :=
  piecesFrom none bytes

/-- Lenient reading: U+FFFD stands for each ill-formed part. -/
def lenient (bytes : Bytes) : String :=
  String.ofList ((pieces bytes).map (·.getD '\uFFFD'))

/-- Strict reading. -/
def decode? (bytes : Bytes) : Option String :=
  ((pieces bytes).mapM id).map String.ofList

/-- How many 16-bit units the text takes in UTF-16. -/
def utf16Length (text : String) : Nat :=
  text.toList.foldr (fun c units => (if c.toNat < 0x10000 then 1 else 2) + units) 0

end ClassMachine.Utf8
