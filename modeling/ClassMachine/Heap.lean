import ClassMachine.NameMap
import ClassMachine.Text.Utf8
import ClassMachine.Value

/-!
# Objects

An object has a class, known by its name, and a map of fields. Objects are numbered in the order of
their creation and never go away. Where the allocator puts them is not known: a heap may be given any
addresses, which are shown in labels and used for nothing else.
-/

namespace ClassMachine

abbrev FieldMap := NameMap Slot

structure Instance where
  className : Bytes
  fields : FieldMap
deriving DecidableEq, Inhabited

/-- Addresses at equal distances, as an allocator may give them. -/
def Heap.spaced (id : ObjectId) : Nat :=
  0x100000000000 + 0x10 * id

structure Heap where
  objects : Array Instance := #[]
  address : ObjectId → Nat := Heap.spaced
deriving Inhabited

namespace Heap

variable (heap : Heap)

def get? (id : ObjectId) : Option Instance :=
  heap.objects[id]?

/-- The heap with one more object, and the number of that object. -/
def allocate (object : Instance) : ObjectId × Heap :=
  (heap.objects.size, { heap with objects := heap.objects.push object })

def setField (id : ObjectId) (name : Bytes) (value : Slot) : Heap :=
  { heap with objects := heap.objects.modify id fun object =>
    { object with fields := object.fields.insert name value } }

def className (id : ObjectId) : Bytes :=
  match heap.get? id with
  | some object => object.className
  | none => []

/-- The class of an object and its address. -/
def label (id : ObjectId) : String :=
  Utf8.lenient (heap.className id) ++ "@" ++ String.ofList (Text.hexDigits (heap.address id))

/-- The class of an object and its fields in the order of their names. -/
def inspect (object : Instance) : String :=
  let field := fun (name, slot) => Utf8.lenient name ++ ": " ++ slot.value.inspect heap.label
  let className := Utf8.lenient object.className
  match object.fields.entries with
  | [] => className
  | entries => className ++ " \x7b " ++ ", ".intercalate (entries.map field) ++ " \x7d"

end Heap

end ClassMachine
