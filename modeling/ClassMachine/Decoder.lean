import ClassMachine.Fault.Structural
import ClassMachine.Work
import ClassMachine.Bytes

/-!
# Reading a byte string from front to back

A cursor is a position in a byte string together with the bytes that are still to come. A decoder
reads at the cursor; when it fails the cursor stays where the decoder left it. Reads of a fixed
number of bytes move on success only.
-/

namespace ClassMachine

structure Cursor where
  position : Nat
  rest : Bytes
deriving Repr, DecidableEq, Inhabited

namespace Cursor

def ofBytes (bytes : Bytes) : Cursor :=
  ⟨0, bytes⟩

def remaining (cursor : Cursor) : Nat :=
  cursor.rest.length

/-- Length of the whole byte string that the cursor moves over. -/
def length (cursor : Cursor) : Nat :=
  cursor.position + cursor.remaining

def isEmpty (cursor : Cursor) : Bool :=
  cursor.rest.isEmpty

theorem length_ofBytes (bytes : Bytes) : (ofBytes bytes).length = bytes.length := by
  simp [length, remaining, ofBytes]

end Cursor

abbrev Decoder (α : Type) := EStateM StructuralError Cursor α

namespace Decoder

variable {α : Type}

/-- Reads all of a byte string; what it has left unread is in the cursor. -/
def runOn (decoder : Decoder α) (bytes : Bytes) : EStateM.Result StructuralError Cursor α :=
  EStateM.run decoder (Cursor.ofBytes bytes)

/-- An answer that needs no reading. -/
def lift : Except StructuralError α → Decoder α
  | .ok a => pure a
  | .error e => throw e

/-- The next `width` bytes, as they are. -/
def bytes (width : Nat) : Decoder Bytes := do
  let cursor ← get
  match Bytes.split? width cursor.rest with
  | some (front, back) =>
    set (Cursor.mk (cursor.position + width) back)
    return front
  | none => throw (.unexpectedEnd cursor.position width)

theorem run_bytes (width : Nat) (cursor : Cursor) :
    (bytes width).run cursor =
      if width ≤ cursor.remaining then
        .ok (cursor.rest.take width) ⟨cursor.position + width, cursor.rest.drop width⟩
      else .error (.unexpectedEnd cursor.position width) cursor := by
  unfold bytes Cursor.remaining
  simp only [EStateM.run_bind, EStateM.run_get, Bytes.split?_eq]
  by_cases h : width ≤ cursor.rest.length <;> simp [h]

/-- All bytes that are left. -/
def rest : Decoder Bytes :=
  modifyGet fun cursor => (cursor.rest, ⟨cursor.length, []⟩)

theorem run_rest (cursor : Cursor) : rest.run cursor = .ok cursor.rest ⟨cursor.length, []⟩ := by
  simp [rest]

/-- An unsigned number of `width` bytes. -/
def unsigned (width : Nat) : Decoder Nat :=
  Bytes.toNat <$> bytes width

def u8 : Decoder UInt8 := Nat.toUInt8 <$> unsigned 1

def u16 : Decoder UInt16 := Nat.toUInt16 <$> unsigned 2

def u32 : Decoder UInt32 := Nat.toUInt32 <$> unsigned 4

def u64 : Decoder UInt64 := Nat.toUInt64 <$> unsigned 8

def i8 : Decoder Int8 := UInt8.toInt8 <$> u8

def i16 : Decoder Int16 := UInt16.toInt16 <$> u16

/-- A stored pool index `i` means position `i - 1`, and 0 means that there is none. -/
def optionalPoolIndex : Decoder (Option Nat) := do
  match (← u16).toNat with
  | 0 => return none
  | position + 1 => return some position

/-- A pool index that must be there; the two bytes of a refused 0 have been read. -/
def poolIndex : Decoder Nat := do
  match ← optionalPoolIndex with
  | some position => return position
  | none => throw .reservedPoolIndex

/-- The bytes before the next `delimiter`, which is passed over. Without one everything is read
before the decoder fails at the end. -/
def upTo (delimiter : UInt8) : Decoder Bytes := do
  let cursor ← get
  match Bytes.cut? delimiter cursor.rest with
  | some (front, back) =>
    set (Cursor.mk (cursor.position + front.length + 1) back)
    return front
  | none =>
    set (Cursor.mk cursor.length [])
    throw (.unexpectedEnd cursor.length 1)

/-- Passes over the next bytes while they are `b` and counts them. -/
def countRun (b : UInt8) : Decoder Nat :=
  modifyGet fun cursor =>
    let run := (cursor.rest.takeWhile (· == b)).length
    (run, ⟨cursor.position + run, cursor.rest.dropWhile (· == b)⟩)

/-- Reads `count` items one after another. -/
def times (count : Nat) (item : Decoder α) : Decoder (List α) :=
  match count with
  | 0 => return []
  | count + 1 => do
    let first ← item
    let others ← times count item
    return first :: others

/-- A table: a 16-bit count, then that many items. -/
def table (item : Decoder α) : Decoder (List α) := do
  times (← u16).toNat item

end Decoder

end ClassMachine
