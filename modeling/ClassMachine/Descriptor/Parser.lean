import ClassMachine.Descriptor.Basic
import ClassMachine.Decoder

/-!
# Reading descriptors

A field descriptor is read to its end. In a method descriptor the parameters end at the first
closing parenthesis; both parts have to be UTF-8, and the result is neither empty nor contains a
line feed. Whatever is wrong inside a method descriptor, the error shows the descriptor whole.
-/

namespace ClassMachine

open Decoder

namespace Ascii

def openBracket : UInt8 := 0x5b

def openParen : UInt8 := 0x28

def closeParen : UInt8 := 0x29

def semicolon : UInt8 := 0x3b

def lineFeed : UInt8 := 0x0a

end Ascii

namespace FieldType

/-- The primitive type of a letter. -/
def primitive? : Char → Option FieldType
  | 'B' => some byte
  | 'C' => some char
  | 'D' => some double
  | 'F' => some float
  | 'I' => some int
  | 'J' => some long
  | 'S' => some short
  | 'Z' => some boolean
  | _ => none

/-- A type that is no array. A byte that begins no type is shown as the character of that code. -/
def elementDecoder : Decoder FieldType := do
  let letter := Char.ofNat (← u8).toNat
  match primitive? letter with
  | some type => return type
  | none =>
    if letter = 'L' then
      let className ← upTo Ascii.semicolon
      if className.isEmpty then throw (.malformedDescriptor "L;")
      return object className
    else throw (.malformedDescriptor (String.singleton letter))

def decoder : Decoder FieldType := do
  let depth ← countRun Ascii.openBracket
  return arrays depth (← elementDecoder)

/-- Types up to the end of the bytes; each takes at least one byte, which `fuel` counts. -/
def listDecoder : Nat → Decoder (List FieldType)
  | 0 => return []
  | fuel + 1 => do
    if (← get).isEmpty then return []
    let first ← decoder
    return first :: (← listDecoder fuel)

/-- Reads a whole field descriptor. -/
def parse (descriptor : Bytes) : Except StructuralError FieldType :=
  match decoder.runOn descriptor with
  | .error e _ => .error e
  | .ok type cursor =>
    if cursor.isEmpty then .ok type
    else .error (.malformedDescriptor (Utf8.lenient descriptor))

end FieldType

namespace MethodSignature

/-- The parts of a method descriptor between the parentheses and behind them. -/
def parts? : Bytes → Option (Bytes × Bytes)
  | [] => none
  | b :: rest =>
    if b = Ascii.openParen then Bytes.cut? Ascii.closeParen rest else none

/-- Result texts are not empty, valid UTF-8 and on one line. -/
def resultText? (result : Bytes) : Bool :=
  !result.isEmpty && (Utf8.decode? result).isSome && !result.contains Ascii.lineFeed

def parseParams? (params : Bytes) : Option (List FieldType) :=
  match (FieldType.listDecoder params.length).runOn params with
  | .ok types _ => some types
  | .error _ _ => none

def parseResult? (result : Bytes) : Option ReturnType :=
  if result = Utf8.encode "V" then some .void
  else (FieldType.parse result).toOption.map .value

def parse? (descriptor : Bytes) : Option MethodSignature := do
  let (params, result) ← parts? descriptor
  guard ((Utf8.decode? params).isSome && resultText? result)
  return ⟨← parseParams? params, ← parseResult? result⟩

/-- Reads a whole method descriptor. -/
def parse (descriptor : Bytes) : Except StructuralError MethodSignature :=
  match parse? descriptor with
  | some signature => .ok signature
  | none => .error (.malformedDescriptor (Utf8.lenient descriptor))

/-- The text of a method descriptor before its closing parenthesis, by which overloads are told
apart. -/
def paramsText (descriptor : Bytes) : Bytes :=
  descriptor.takeWhile (· != Ascii.closeParen)

end MethodSignature

end ClassMachine
