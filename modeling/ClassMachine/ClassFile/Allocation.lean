import ClassMachine.ClassFile.Basic
import ClassMachine.Heap

/-!
# Initial contents of fields

A new object has a slot for each instance field of its class, and of two fields of one name the
later one decides. Static fields get their slots once; what is already there stays, so that of two
fields of one name the earlier one decides.
-/

namespace ClassMachine.ClassFile

variable (file : ClassFile)

/-- Sets the slots of instance fields, in order. -/
def fillInstance : List Field → FieldMap → Except StructuralError FieldMap
  | [], slots => .ok slots
  | field :: fields, slots => do
    let name ← file.pool.utf8 field.name
    fillInstance fields (slots.insert name (← file.initialValue field))

/-- The fields of a new object. -/
def newInstance : Except StructuralError FieldMap :=
  file.fillInstance file.instanceFields .empty

/-- Sets the slots of static fields that have none yet, in order. The slots set before a failure
remain. -/
def fillStatics : List Field → EStateM StructuralError FieldMap Unit
  | [] => return
  | field :: fields => do
    match file.pool.utf8 field.name with
    | .error e => throw e
    | .ok name =>
      unless (← get).contains name do
        match file.initialValue field with
        | .error e => throw e
        | .ok value => modify (·.insert name value)
      fillStatics fields

end ClassMachine.ClassFile
