import ClassMachine.Text.Quoted

/-!
# Structural errors

Why a byte string is no class file, or why a constant pool position does not hold what is wanted.
-/

namespace ClassMachine

inductive StructuralError where
  | badMagic (found : UInt32)
  | unexpectedEnd (offset wanted : Nat)
  | trailingBytes (count : Nat)
  | unknownConstantTag (tag : UInt8) (entry : Nat)
  | reservedPoolIndex
  | poolIndexOutOfRange (position size : Nat)
  | emptyPoolSlot (position : Nat)
  | unexpectedConstant (position : Nat) (expected : String)
  | unknownAttribute (name : String)
  | attributeLength (name : String) (declared consumed : Nat)
  | nestedCode
  | malformedDescriptor (text : String)
deriving Repr, DecidableEq, Inhabited

def StructuralError.message : StructuralError → String
  | badMagic found => "bad magic number 0x" ++ Text.hexPadded 8 found.toNat
  | unexpectedEnd offset wanted =>
    s!"unexpected end of input at offset {offset} (wanted {wanted} bytes)"
  | trailingBytes count => s!"{count} trailing bytes after class attributes"
  | unknownConstantTag tag entry => s!"unknown constant pool tag {tag.toNat} at entry {entry}"
  | reservedPoolIndex => "constant pool index 0 is reserved"
  | poolIndexOutOfRange position size =>
    s!"constant pool index {position} out of range (pool has {size} entries)"
  | emptyPoolSlot position =>
    s!"constant pool index {position} addresses the second half of a long or double"
  | unexpectedConstant position expected => s!"constant pool entry {position} is not a {expected}"
  | unknownAttribute name => "unknown attribute `" ++ name ++ "`"
  | attributeLength name declared consumed =>
    "attribute `" ++ name ++ s!"` declared {declared} bytes but consumed {consumed}"
  | nestedCode => "`Code` attribute nested inside another `Code` attribute"
  | malformedDescriptor text => "malformed descriptor `" ++ text ++ "`"

end ClassMachine
