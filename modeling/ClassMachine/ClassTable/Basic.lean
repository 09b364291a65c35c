import ClassMachine.ClassFile.Allocation
import ClassMachine.ClassFile.Overload
import ClassMachine.ClassFile.Validity
import ClassMachine.ClassTable.Source

/-!
# The class table

Classes are registered once under their own name and never replaced; only their state of
initialization and their static fields change. A class that is missing is read from the source,
checked, and registered if it has the name that was asked for.
-/

namespace ClassMachine

/-- Progress of the initialization of a class; `failed` and `done` are final. -/
inductive InitState where
  | verified
  | inProgress
  | done
  | failed
deriving Repr, DecidableEq, Inhabited

structure LoadedClass where
  file : ClassFile
  state : InitState := .verified
  statics : FieldMap := .empty
deriving DecidableEq, Inhabited

structure ClassTable where
  classes : NameMap LoadedClass := .empty
  source : ClassSource := .none
  /-- The names that the source was asked for, the latest first. -/
  asked : List String := []
deriving Inhabited

/-- Why a run stops before its end: a fault of the program, or the given depth is used up. -/
inductive Stop where
  | fault (fault : Fault)
  | tooDeep
deriving Repr, DecidableEq, Inhabited

/-- Work on the class table. A failure keeps what has been done before it. -/
abbrev Linking (α : Type) := EStateM Stop ClassTable α

namespace ClassTable

variable (table : ClassTable)

def get? (name : Bytes) : Option LoadedClass :=
  table.classes.get? name

def contains (name : Bytes) : Bool :=
  table.classes.contains name

def size : Nat :=
  table.classes.size

/-- Changes the class of that name, if it is registered. -/
def update (name : Bytes) (change : LoadedClass → LoadedClass) : ClassTable :=
  match table.get? name with
  | some c => { table with classes := table.classes.insert name (change c) }
  | none => table

def setState (name : Bytes) (state : InitState) : ClassTable :=
  table.update name fun c => { c with state }

def setStatics (name : Bytes) (statics : FieldMap) : ClassTable :=
  table.update name fun c => { c with statics }

def setStatic (name field : Bytes) (value : Slot) : ClassTable :=
  table.update name fun c => { c with statics := c.statics.insert field value }

end ClassTable

namespace Linking

variable {α : Type}

def fail (fault : Fault) : Linking α :=
  throw (.fault fault)

def structural : Except StructuralError α → Linking α
  | .ok a => pure a
  | .error e => fail (.structural e)

def resolution : Except ResolutionError α → Linking α
  | .ok a => pure a
  | .error e => fail (.resolution e)

/-- The registered class of that name. -/
def lookup (name : Bytes) : Linking LoadedClass := do
  match (← get).get? name with
  | some c => return c
  | none => fail (.resolution (.classNotFound (Utf8.lenient name)))

/-- Registers a class under its own name, unless there is one of that name, and gives the name. -/
def register (c : LoadedClass) : Linking Bytes := do
  let name ← structural c.file.name
  let table ← get
  unless table.contains name do
    set { table with classes := table.classes.insert name c }
  return name

/-- Reads, checks and registers a class file, and gives its name. -/
def define (content : Bytes) : Linking Bytes := do
  let file ← structural (ClassFile.parseChecked content)
  register { file }

/-- The class file that the source has for a name. -/
def ask (name : String) : Linking Bytes := do
  modify fun table => { table with asked := name :: table.asked }
  match (← get).source.read name with
  | .ok (some content) => return content
  | .ok none => fail (.resolution (.classNotFound name))
  | .error e => fail (.io e)

/-- The class of that name, which is registered on first use. -/
def load (name : Bytes) : Linking ClassFile := do
  match (← get).get? name with
  | some c => return c.file
  | none =>
    let wanted := Utf8.lenient name
    let file ← structural (ClassFile.parseChecked (← ask wanted))
    if (← structural file.name) ≠ name then
      fail (.resolution (.nameMismatch wanted file.displayName))
    discard (register { file })
    return file

/-- Gives the static fields of a class their slots. -/
def prepareStatics (name : Bytes) : Linking Unit := do
  let c ← lookup name
  match EStateM.run (c.file.fillStatics c.file.staticFields) c.statics with
  | .ok _ statics => modify (·.setStatics name statics)
  | .error e statics =>
    modify (·.setStatics name statics)
    fail (.structural e)

/-- The value of a static field. -/
def getStatic (name field : Bytes) : Linking Slot := do
  let c ← lookup name
  match c.statics.get? field with
  | some value => return value
  | none => fail (.resolution (.noSuchField c.file.displayName (Utf8.lenient field)))

end Linking

/-- A method together with the class that it was found in. -/
structure ResolvedMethod where
  file : ClassFile
  method : Method
deriving DecidableEq, Inhabited

/-- Loads a class and chooses the method that a call means. -/
def Linking.resolve (className name descriptor : Bytes) : Linking ResolvedMethod := do
  let file ← load className
  let (method, _) ← resolution (file.overload name descriptor)
  return ⟨file, method⟩

end ClassMachine
