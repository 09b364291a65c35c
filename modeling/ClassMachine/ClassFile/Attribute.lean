import ClassMachine.Text.Utf8

/-!
# Attributes

Twenty attribute names are known. Five kinds are interpreted, the others are kept as the bytes they
came with. Code has attributes of its own, which cannot be code again.
-/

namespace ClassMachine

/-- Names of attributes whose content is not looked into. -/
inductive RawAttribute where
  | stackMapTable
  | exceptions
  | innerClasses
  | enclosingMethod
  | synthetic
  | sourceDebugExtension
  | localVariableTable
  | localVariableTypeTable
  | deprecated
  | runtimeVisibleAnnotations
  | runtimeInvisibleAnnotations
  | runtimeVisibleParameterAnnotations
  | runtimeInvisibleParameterAnnotations
  | annotationDefault
  | bootstrapMethods
deriving Repr, DecidableEq, Inhabited

inductive AttributeName where
  | constantValue
  | code
  | signature
  | sourceFile
  | lineNumberTable
  | raw (name : RawAttribute)
deriving Repr, DecidableEq, Inhabited

namespace RawAttribute

def all : List RawAttribute :=
  [stackMapTable, exceptions, innerClasses, enclosingMethod, synthetic, sourceDebugExtension,
    localVariableTable, localVariableTypeTable, deprecated, runtimeVisibleAnnotations,
    runtimeInvisibleAnnotations, runtimeVisibleParameterAnnotations,
    runtimeInvisibleParameterAnnotations, annotationDefault, bootstrapMethods]

def spelling : RawAttribute → String
  | stackMapTable => "StackMapTable"
  | exceptions => "Exceptions"
  | innerClasses => "InnerClasses"
  | enclosingMethod => "EnclosingMethod"
  | synthetic => "Synthetic"
  | sourceDebugExtension => "SourceDebugExtension"
  | localVariableTable => "LocalVariableTable"
  | localVariableTypeTable => "LocalVariableTypeTable"
  | deprecated => "Deprecated"
  | runtimeVisibleAnnotations => "RuntimeVisibleAnnotations"
  | runtimeInvisibleAnnotations => "RuntimeInvisibleAnnotations"
  | runtimeVisibleParameterAnnotations => "RuntimeVisibleParameterAnnotations"
  | runtimeInvisibleParameterAnnotations => "RuntimeInvisibleParameterAnnotations"
  | annotationDefault => "AnnotationDefault"
  | bootstrapMethods => "BootstrapMethods"

end RawAttribute

namespace AttributeName

def all : List AttributeName :=
  [constantValue, code, signature, sourceFile, lineNumberTable] ++ RawAttribute.all.map raw

def spelling : AttributeName → String
  | constantValue => "ConstantValue"
  | code => "Code"
  | signature => "Signature"
  | sourceFile => "SourceFile"
  | lineNumberTable => "LineNumberTable"
  | raw name => name.spelling

/-- The known name that the bytes spell. -/
def ofBytes? (bytes : Bytes) : Option AttributeName :=
  all.find? fun name => Utf8.encode name.spelling == bytes

end AttributeName

/-- A protected range of code; the type of the exception stays as it is stored, 0 for any. -/
structure ExceptionRange where
  start : UInt16
  stop : UInt16
  handler : UInt16
  catchType : UInt16
deriving Repr, DecidableEq, Inhabited

structure LineNumber where
  start : UInt16
  line : UInt16
deriving Repr, DecidableEq, Inhabited

/-- The attributes that can stand anywhere. -/
inductive PlainAttribute where
  | constantValue (position : Nat)
  | signature (position : Nat)
  | sourceFile (position : Nat)
  | lineNumberTable (lines : List LineNumber)
  | raw (name : RawAttribute) (content : Bytes)
deriving Repr, DecidableEq, Inhabited

structure Code where
  maxStack : UInt16
  maxLocals : UInt16
  bytes : Bytes
  exceptions : List ExceptionRange
  attributes : List PlainAttribute
deriving Repr, DecidableEq, Inhabited

inductive Attribute where
  | plain (content : PlainAttribute)
  | code (content : Code)
deriving Repr, DecidableEq, Inhabited

def PlainAttribute.name : PlainAttribute → AttributeName
  | constantValue _ => .constantValue
  | signature _ => .signature
  | sourceFile _ => .sourceFile
  | lineNumberTable _ => .lineNumberTable
  | raw name _ => .raw name

namespace Attribute

def name : Attribute → AttributeName
  | plain content => content.name
  | code _ => .code

/-- The first attribute of that name. -/
def find? (attributes : List Attribute) (name : AttributeName) : Option Attribute :=
  attributes.find? (·.name = name)

/-- The position that the first constant value attribute names. -/
def constantValue? (attributes : List Attribute) : Option Nat :=
  match find? attributes .constantValue with
  | some (.plain (.constantValue position)) => some position
  | _ => none

/-- The first code attribute. -/
def code? (attributes : List Attribute) : Option Code :=
  match find? attributes .code with
  | some (.code content) => some content
  | _ => none

end Attribute

end ClassMachine
