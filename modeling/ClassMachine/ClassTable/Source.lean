import ClassMachine.Fault
import ClassMachine.Bytes

/-!
# Where classes come from

A class source is asked for the class file of a name and has it, does not have it, or cannot say
because of an input error. Dots and slashes in names are the same to it.
-/

namespace ClassMachine

structure ClassSource where
  read : String → Except IoError (Option Bytes)

namespace ClassSource

/-- The source that has no class. -/
def none : ClassSource := ⟨fun _ => .ok Option.none⟩

instance : Inhabited ClassSource := ⟨none⟩

/-- The name with slashes for dots. -/
def slashed (name : String) : String :=
  name.map fun c => if c = '.' then '/' else c

end ClassSource

/-- Class files in memory, the latest of each name first. -/
structure MemoryClasses where
  files : List (String × Bytes) := []
deriving DecidableEq, Inhabited

namespace MemoryClasses

def insert (classes : MemoryClasses) (name : String) (content : Bytes) : MemoryClasses :=
  ⟨(ClassSource.slashed name, content) :: classes.files⟩

def source (classes : MemoryClasses) : ClassSource :=
  ⟨fun name => .ok (classes.files.lookup (ClassSource.slashed name))⟩

end MemoryClasses

end ClassMachine
