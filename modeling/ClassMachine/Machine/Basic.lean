import ClassMachine.ClassTable.Basic
import ClassMachine.Machine.Console
import ClassMachine.Machine.OperandStack

/-!
# The machine

The class table, the objects, the console and the operand stack, and what is done with them.
-/

namespace ClassMachine

structure Machine where
  table : ClassTable := {}
  heap : Heap := {}
  console : Console := {}
  stack : OperandStack := .empty
deriving Inhabited

/-- Work of the machine. A failure keeps what has been done before it. -/
abbrev Run (α : Type) := EStateM Stop Machine α

namespace Run

variable {α : Type}

def fail (fault : Fault) : Run α :=
  throw (.fault fault)

def execution (error : ExecutionError) : Run α :=
  fail (.execution error)

def structural : Except StructuralError α → Run α
  | .ok a => pure a
  | .error e => fail (.structural e)

/-- Work on the class table alone. -/
def link (work : Linking α) : Run α := do
  let machine ← get
  match work.run machine.table with
  | .ok a table =>
    set { machine with table }
    return a
  | .error stop table =>
    set { machine with table }
    throw stop

theorem run_link (work : Linking α) (machine : Machine) :
    (link work).run machine =
      match work.run machine.table with
      | .ok a table => .ok a { machine with table }
      | .error stop table => .error stop { machine with table } := by
  unfold link
  simp only [EStateM.run_bind, EStateM.run_get]
  cases work.run machine.table <;> simp

def push (value : Slot) : Run Unit :=
  modify fun machine => { machine with stack := machine.stack.push value }

/-- Takes the last value off the shared stack. -/
def pop : Run Slot := do
  let machine ← get
  match machine.stack.pop? with
  | some (value, stack) =>
    set { machine with stack }
    return value
  | none => execution .stackUnderflow

/-- The text of a value for the console. -/
def shown (value : Slot) : Run String := do
  return value.value.display (← get).heap.label

/-- A new object of a registered class. -/
def create (file : ClassFile) : Run Slot := do
  let className ← structural file.name
  let fields ← structural file.newInstance
  let machine ← get
  let (id, heap) := machine.heap.allocate ⟨className, fields⟩
  set { machine with heap }
  return .of (.object id)

/-- Writes to the console; a text that does not fit is cut. -/
def print (text : String) : Run Unit := do
  let content := Utf8.encode text
  let console := (← get).console
  modify fun machine => { machine with console := machine.console.write content }
  unless console.fits content do fail (.io .consoleFull)

end Run

end ClassMachine
