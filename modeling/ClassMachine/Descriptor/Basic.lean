import ClassMachine.Text.Utf8

/-!
# Types of fields and methods

Descriptors write types in a compact notation: one letter for a primitive type, `L` name `;` for a
class and `[` before the type of the elements for an array. A method has the types of its
parameters between parentheses, followed by the type of its result or `V`.
-/

namespace ClassMachine

inductive FieldType where
  | byte
  | char
  | double
  | float
  | int
  | long
  | short
  | boolean
  | object (className : Bytes)
  | array (element : FieldType)
deriving Repr, DecidableEq, Inhabited

inductive ReturnType where
  | void
  | value (type : FieldType)
deriving Repr, DecidableEq, Inhabited

structure MethodSignature where
  params : List FieldType
  result : ReturnType
deriving Repr, DecidableEq, Inhabited

namespace FieldType

/-- Slots that a value of the type takes among local variables. -/
def size : FieldType → Nat
  | long | double => 2
  | _ => 1

/-- `depth` arrays around an element type. -/
def arrays : Nat → FieldType → FieldType
  | 0, element => element
  | depth + 1, element => array (arrays depth element)

/-- The dimensions of an array type, and the type that is no array inside. -/
def dimensions : FieldType → Nat × FieldType
  | array element => ((dimensions element).1 + 1, (dimensions element).2)
  | type => (0, type)

/-- The text of the type in source notation, packages separated by dots. -/
def display : FieldType → String
  | byte => "byte"
  | char => "char"
  | double => "double"
  | float => "float"
  | int => "int"
  | long => "long"
  | short => "short"
  | boolean => "boolean"
  | object className => (Utf8.lenient className).map fun c => if c = '/' then '.' else c
  | array element => display element ++ "[]"

/-- The descriptor of a type. -/
def descriptor : FieldType → Bytes
  | byte => Utf8.encode "B"
  | char => Utf8.encode "C"
  | double => Utf8.encode "D"
  | float => Utf8.encode "F"
  | int => Utf8.encode "I"
  | long => Utf8.encode "J"
  | short => Utf8.encode "S"
  | boolean => Utf8.encode "Z"
  | object className => Utf8.encode "L" ++ className ++ Utf8.encode ";"
  | array element => Utf8.encode "[" ++ descriptor element

end FieldType

def ReturnType.descriptor : ReturnType → Bytes
  | void => Utf8.encode "V"
  | value type => type.descriptor

namespace MethodSignature

/-- Local variable slots that the parameters take. -/
def slots (signature : MethodSignature) : Nat :=
  signature.params.foldr (fun type slots => type.size + slots) 0

def descriptor (signature : MethodSignature) : Bytes :=
  Utf8.encode "(" ++ signature.params.flatMap FieldType.descriptor ++ Utf8.encode ")" ++
    signature.result.descriptor

end MethodSignature

end ClassMachine
