import ClassMachine.Fault.Structural
import ClassMachine.Text.Utf8
import ClassMachine.Value

/-!
# The constant pool

Constants refer to each other by position, counted from 0. A long or double takes two positions,
the second of which is empty and cannot be referred to. The accessors follow references and fail
where one does not land on the kind of constant that is wanted.
-/

namespace ClassMachine

inductive MemberKind where
  | field
  | method
  | interfaceMethod
deriving Repr, DecidableEq, Inhabited

inductive Constant where
  | classEntry (name : Nat)
  | nameAndType (name descriptor : Nat)
  | utf8 (bytes : Bytes)
  | string (text : Nat)
  | integer (x : Int32)
  | long (x : Int64)
  | float (x : Number)
  | double (x : Number)
  | member (kind : MemberKind) (owner nameAndType : Nat)
  | empty
deriving DecidableEq, Inhabited

def Constant.isWide : Constant → Bool
  | long _ | double _ => true
  | _ => false

/-- A reference to a member, with all names in place of positions. -/
structure MemberRef where
  kind : MemberKind
  className : Bytes
  name : Bytes
  descriptor : Bytes
deriving Repr, DecidableEq, Inhabited

structure ConstantPool where
  constants : Array Constant := #[]
deriving DecidableEq, Inhabited

namespace ConstantPool

theorem eq_of_toList_eq {pool other : ConstantPool}
    (h : pool.constants.toList = other.constants.toList) : pool = other := by
  obtain ⟨constants⟩ := pool
  obtain ⟨others⟩ := other
  exact congrArg mk (Array.toList_inj.1 h)

variable (pool : ConstantPool)

def empty : ConstantPool := {}

def size : Nat :=
  pool.constants.size

/-- Appends a constant, and an empty position behind a wide one. -/
def push (constant : Constant) : ConstantPool :=
  if constant.isWide then ⟨(pool.constants.push constant).push .empty⟩
  else ⟨pool.constants.push constant⟩

def get (position : Nat) : Except StructuralError Constant :=
  match pool.constants[position]? with
  | some .empty => .error (.emptyPoolSlot position)
  | some constant => .ok constant
  | none => .error (.poolIndexOutOfRange position pool.size)

def utf8 (position : Nat) : Except StructuralError Bytes := do
  match ← pool.get position with
  | .utf8 bytes => return bytes
  | _ => throw (.unexpectedConstant position "Utf8")

def className (position : Nat) : Except StructuralError Bytes := do
  match ← pool.get position with
  | .classEntry name => pool.utf8 name
  | _ => throw (.unexpectedConstant position "Class")

def nameAndType (position : Nat) : Except StructuralError (Bytes × Bytes) := do
  match ← pool.get position with
  | .nameAndType name descriptor => return (← pool.utf8 name, ← pool.utf8 descriptor)
  | _ => throw (.unexpectedConstant position "NameAndType")

def memberRef (position : Nat) : Except StructuralError MemberRef := do
  match ← pool.get position with
  | .member kind owner nameAndType =>
    let className ← pool.className owner
    let (name, descriptor) ← pool.nameAndType nameAndType
    return ⟨kind, className, name, descriptor⟩
  | _ => throw (.unexpectedConstant position "MemberRef")

/-- The value of a constant that can be loaded. -/
def literal (position : Nat) : Except StructuralError Slot := do
  match ← pool.get position with
  | .integer x => return .of (.int x)
  | .long x => return .of (.long x)
  | .float x => return .of (.float x)
  | .double x => return .of (.double x)
  | .string text => return .of (.string (Utf8.lenient (← pool.utf8 text)))
  | _ => throw (.unexpectedConstant position "literal")

end ConstantPool

end ClassMachine
