import ClassMachine.ClassTable.Basic

/-!
# Initialization of classes

A class is initialized after its superclass, which is loaded if need be; an interface does not look
at its superclass. A class that is in progress counts as initialized, which ends cycles, and a class
that has failed fails for good. The chain of superclasses may be endless if the source goes on
inventing classes, so its depth is bounded.
-/

namespace ClassMachine.Linking

/-- Why a class stops whose superclass has stopped: a fault is wrapped as the cause. -/
def superclassStop (className : String) : Stop → Stop
  | .fault cause => .fault (.superclass className cause)
  | .tooDeep => .tooDeep

/-- Loads the superclass of a class, if it counts for it, and passes it on. -/
def withSuperclass (file : ClassFile) (next : Bytes → Linking Unit) : Linking Unit := do
  if file.isInterface then return
  match ← structural file.superName with
  | none => return
  | some superName =>
    discard (load superName)
    next superName

/-- Initializes a registered class; at most `depth` classes are nested. -/
def initClass : (depth : Nat) → (name : Bytes) → Linking Unit
  | 0, _ => throw .tooDeep
  | depth + 1, name => do
    let c ← lookup name
    match c.state with
    | .done | .inProgress => return
    | .failed => fail (.noClassDefFound c.file.displayName)
    | .verified =>
      modify (·.setState name .inProgress)
      let outcome ← Work.attempt do
        (withSuperclass c.file (initClass depth)).adaptExcept (superclassStop c.file.displayName)
        prepareStatics name
      match outcome with
      | .ok () => modify (·.setState name .done)
      | .error .tooDeep => throw .tooDeep
      | .error (.fault fault) =>
        modify (·.setState name .failed)
        fail fault

end ClassMachine.Linking
