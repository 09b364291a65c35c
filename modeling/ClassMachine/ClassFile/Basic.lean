import ClassMachine.ClassFile.Flags
import ClassMachine.ClassFile.Attribute
import ClassMachine.Descriptor.Parser
import ClassMachine.Native.Action
import ClassMachine.Pool.Basic

/-!
# Class files

The content of a class file, with names, types and references given as positions in its constant
pool. Classes that the machine brings with it have the same form; only the bodies of their methods
are native.
-/

namespace ClassMachine

structure Field where
  flags : AccessFlags
  name : Nat
  descriptor : Nat
  attributes : List Attribute
deriving DecidableEq, Inhabited

inductive MethodBody where
  /-- Interpreted from the code attribute. -/
  | bytecode
  | native (actions : List NativeAction)
deriving DecidableEq, Inhabited

structure Method where
  flags : AccessFlags
  name : Nat
  descriptor : Nat
  attributes : List Attribute
  signature : MethodSignature
  body : MethodBody
deriving DecidableEq, Inhabited

structure ClassFile where
  minorVersion : UInt16 := 0
  majorVersion : UInt16 := 0
  pool : ConstantPool
  flags : AccessFlags := ⟨AccessFlags.publicBit⟩
  thisClass : Nat
  superClass : Option Nat := none
  interfaces : List Nat := []
  fields : List Field := []
  methods : List Method := []
  attributes : List Attribute := []
deriving DecidableEq, Inhabited

namespace Method

def isStatic (method : Method) : Bool :=
  method.flags.isStatic

def code? (method : Method) : Option Code :=
  Attribute.code? method.attributes

end Method

namespace ClassFile

variable (file : ClassFile)

/-- The full name of the class, with slashes between packages. -/
def name : Except StructuralError Bytes :=
  file.pool.className file.thisClass

/-- The name for messages, which is there even if the class has no valid name. -/
def displayName : String :=
  match file.name with
  | .ok name => Utf8.lenient name
  | .error _ => "<class #" ++ toString file.thisClass ++ ">"

/-- The name of the superclass, or none at the root of the hierarchy. -/
def superName : Except StructuralError (Option Bytes) :=
  match file.superClass with
  | some position => some <$> file.pool.className position
  | none => .ok none

def isInterface : Bool :=
  file.flags.isInterface

/-- The text at a position, if it holds one. -/
def text? (position : Nat) : Option Bytes :=
  (file.pool.utf8 position).toOption

/-- Place of the first field of that name. -/
def fieldIndex? (name : Bytes) : Option Nat :=
  file.fields.findIdx? fun field => file.text? field.name == some name

/-- The value that a field starts with: its constant value, or null. -/
def initialValue (field : Field) : Except StructuralError Slot :=
  match Attribute.constantValue? field.attributes with
  | some position => file.pool.literal position
  | none => .ok .null

def staticFields : List Field :=
  file.fields.filter (·.flags.isStatic)

def instanceFields : List Field :=
  file.fields.filter fun field => !field.flags.isStatic

end ClassFile

end ClassMachine
