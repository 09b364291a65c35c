import ClassMachine.ClassTable.Basic

/-!
# Building native classes

A draft of a class gets its constants, methods and static fields one by one. Each text is one
constant, however often it is used. The finished class has the form of a class file and counts as
initialized.
-/

namespace ClassMachine

structure NativeDraft where
  pool : ConstantPool := .empty
  /-- Where each text is in the constant pool. -/
  texts : NameMap Nat := .empty
  thisClass : Nat := 0
  superClass : Option Nat := none
  fields : List Field := []
  methods : List Method := []
  statics : FieldMap := .empty
deriving DecidableEq, Inhabited

/-- Work on a draft. A failure keeps the constants that have been added. -/
abbrev Drafting (α : Type) := EStateM StructuralError NativeDraft α

namespace Drafting

/-- The position of a text, which is added if it is new. -/
def text (content : Bytes) : Drafting Nat := do
  let draft ← get
  match draft.texts.get? content with
  | some position => return position
  | none =>
    let position := draft.pool.size
    set { draft with
      pool := draft.pool.push (.utf8 content), texts := draft.texts.insert content position }
    return position

/-- Adds a constant for the class of that name and gives its position. -/
def classEntry (name : Bytes) : Drafting Nat := do
  let namePosition ← text name
  let draft ← get
  set { draft with pool := draft.pool.push (.classEntry namePosition) }
  return draft.pool.size

/-- Begins a class without superclass. -/
def root (name : Bytes) : Drafting Unit := do
  let thisClass ← classEntry name
  modify fun draft => { draft with thisClass }

def objectName : Bytes := Utf8.encode "java/lang/Object"

/-- Begins a class below the root class. -/
def derived (name : Bytes) : Drafting Unit := do
  root name
  let superClass ← classEntry objectName
  modify fun draft => { draft with superClass := some superClass }

/-- Native methods are public and marked as native. -/
def methodFlags : AccessFlags := ⟨AccessFlags.publicBit ||| AccessFlags.nativeBit⟩

def staticFlags : AccessFlags := ⟨AccessFlags.publicBit ||| AccessFlags.staticBit⟩

/-- Adds a method, if its descriptor is one. -/
def method (name descriptor : Bytes) (actions : List NativeAction) : Drafting Unit := do
  let namePosition ← text name
  let descriptorPosition ← text descriptor
  match MethodSignature.parse descriptor with
  | .error e => throw e
  | .ok signature =>
    let method : Method :=
      ⟨methodFlags, namePosition, descriptorPosition, [], signature, .native actions⟩
    modify fun draft => { draft with methods := draft.methods ++ [method] }

/-- Adds a static field with its value. -/
def staticField (name descriptor : Bytes) (value : Slot) : Drafting Unit := do
  let namePosition ← text name
  let descriptorPosition ← text descriptor
  let field : Field := ⟨staticFlags, namePosition, descriptorPosition, []⟩
  modify fun draft => { draft with
    fields := draft.fields ++ [field], statics := draft.statics.insert name value }

/-- The finished class of a draft that is worked out from nothing. -/
def build (work : Drafting Unit) : Except StructuralError LoadedClass :=
  match EStateM.run work {} with
  | .error e _ => .error e
  | .ok _ draft => .ok {
      file := {
        pool := draft.pool, thisClass := draft.thisClass, superClass := draft.superClass,
        fields := draft.fields, methods := draft.methods }
      state := .done
      statics := draft.statics }

end Drafting

end ClassMachine
