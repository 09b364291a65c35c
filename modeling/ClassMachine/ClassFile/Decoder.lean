import ClassMachine.ClassFile.Basic
import ClassMachine.Number.Encoding

/-!
# Reading class files

A class file holds, in this order: the magic number, two version numbers, the constant pool, access
flags, the class, its superclass and interfaces, fields, methods and attributes, and nothing else.
The count in front of the constant pool is one more than the number of its positions. An attribute
states its length; its content is read on its own and has to be used up.
-/

namespace ClassMachine

open Decoder

namespace ClassFile

def magic : UInt32 := 0xcafebabe

def memberDecoder (kind : MemberKind) : Decoder Constant := do
  let owner ← poolIndex
  return .member kind owner (← poolIndex)

/-- A constant: a tag and what belongs to it. The number of the entry is for the message. -/
def constantDecoder (entry : Nat) : Decoder Constant := do
  let tag ← u8
  match tag.toNat with
  | 1 => return .utf8 (← bytes (← u16).toNat)
  | 3 => return .integer (← u32).toInt32
  | 4 => return .float (Format.single.decode (← u32).toNat)
  | 5 => return .long (← u64).toInt64
  | 6 => return .double (Format.double.decode (← u64).toNat)
  | 7 => return .classEntry (← poolIndex)
  | 8 => return .string (← poolIndex)
  | 9 => memberDecoder .field
  | 10 => memberDecoder .method
  | 11 => memberDecoder .interfaceMethod
  | 12 =>
    let name ← poolIndex
    return .nameAndType name (← poolIndex)
  | _ => throw (.unknownConstantTag tag entry)

/-- Reads constants until `missing` more positions are taken; a wide one at the end takes one too
many. -/
def constantsDecoder : Nat → ConstantPool → Decoder ConstantPool
  | 0, pool => return pool
  | 1, pool => return pool.push (← constantDecoder (pool.size + 1))
  | missing + 2, pool => do
    let constant ← constantDecoder (pool.size + 1)
    if constant.isWide then constantsDecoder missing (pool.push constant)
    else constantsDecoder (missing + 1) (pool.push constant)

def poolDecoder : Decoder ConstantPool := do
  constantsDecoder ((← u16).toNat - 1) .empty

def attributeNameDecoder (pool : ConstantPool) : Decoder AttributeName := do
  let spelling ← lift (pool.utf8 (← poolIndex))
  match AttributeName.ofBytes? spelling with
  | some name => return name
  | none => throw (.unknownAttribute (Utf8.lenient spelling))

/-- The content of an attribute: its length, then that many bytes, which `content` has to use up. -/
def contentDecoder {α : Type} (name : AttributeName) (content : Decoder α) : Decoder α := do
  let length := (← u32).toNat
  match content.runOn (← bytes length) with
  | .error e _ => throw e
  | .ok a cursor =>
    if cursor.isEmpty then return a
    else throw (.attributeLength name.spelling length cursor.position)

def lineNumberDecoder : Decoder LineNumber := do
  let start ← u16
  return ⟨start, ← u16⟩

def exceptionRangeDecoder : Decoder ExceptionRange := do
  let start ← u16
  let stop ← u16
  let handler ← u16
  return ⟨start, stop, handler, ← u16⟩

/-- How the content of an attribute other than code is read. -/
def plainContent? : AttributeName → Option (Decoder PlainAttribute)
  | .code => none
  | .constantValue => some (.constantValue <$> poolIndex)
  | .signature => some (.signature <$> poolIndex)
  | .sourceFile => some (.sourceFile <$> poolIndex)
  | .lineNumberTable => some (.lineNumberTable <$> table lineNumberDecoder)
  | .raw name => some (.raw name <$> rest)

/-- An attribute of code. -/
def plainAttributeDecoder (pool : ConstantPool) : Decoder PlainAttribute := do
  let name ← attributeNameDecoder pool
  match plainContent? name with
  | some content => contentDecoder name content
  | none => throw .nestedCode

def codeDecoder (pool : ConstantPool) : Decoder Code := do
  let maxStack ← u16
  let maxLocals ← u16
  let code ← bytes (← u32).toNat
  let exceptions ← table exceptionRangeDecoder
  return ⟨maxStack, maxLocals, code, exceptions, ← table (plainAttributeDecoder pool)⟩

/-- An attribute of a class, field or method. -/
def attributeDecoder (pool : ConstantPool) : Decoder Attribute := do
  let name ← attributeNameDecoder pool
  match plainContent? name with
  | some content => return .plain (← contentDecoder name content)
  | none => return .code (← contentDecoder name (codeDecoder pool))

/-- A field, whose descriptor has to be one of a type. -/
def fieldDecoder (pool : ConstantPool) : Decoder Field := do
  let flags ← u16
  let name ← poolIndex
  let descriptor ← poolIndex
  discard (lift (pool.utf8 descriptor >>= FieldType.parse))
  return ⟨⟨flags⟩, name, descriptor, ← table (attributeDecoder pool)⟩

/-- A method, whose descriptor is looked at when its attributes have been read. -/
def methodDecoder (pool : ConstantPool) : Decoder Method := do
  let flags ← u16
  let name ← poolIndex
  let descriptor ← poolIndex
  let attributes ← table (attributeDecoder pool)
  let signature ← lift (pool.utf8 descriptor >>= MethodSignature.parse)
  return ⟨⟨flags⟩, name, descriptor, attributes, signature, .bytecode⟩

def decoder : Decoder ClassFile := do
  let found ← u32
  if found ≠ magic then throw (.badMagic found)
  let minorVersion ← u16
  let majorVersion ← u16
  let pool ← poolDecoder
  let flags ← u16
  let thisClass ← poolIndex
  let superClass ← optionalPoolIndex
  let interfaces ← table poolIndex
  let fields ← table (fieldDecoder pool)
  let methods ← table (methodDecoder pool)
  let attributes ← table (attributeDecoder pool)
  let unread := (← get).remaining
  if unread ≠ 0 then throw (.trailingBytes unread)
  return {
    minorVersion, majorVersion, pool, flags := ⟨flags⟩, thisClass, superClass, interfaces, fields,
    methods, attributes }

/-- Reads a class file from its bytes. -/
def parse (content : Bytes) : Except StructuralError ClassFile :=
  match decoder.runOn content with
  | .ok file _ => .ok file
  | .error e _ => .error e

end ClassFile

end ClassMachine
