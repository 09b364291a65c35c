import ClassMachine.Machine.Basic

/-!
# Activations of methods

An activation has local variables and knows how many of the values on the shared stack it owns: the
ones that were pushed on its behalf and not taken since. It takes no others.
-/

namespace ClassMachine

structure Frame where
  locals : List Slot
  /-- Values at the end of the shared stack that belong to this activation. -/
  owned : Nat := 0
deriving DecidableEq, Inhabited

namespace Frame

/-- An argument among the local variables: a wide one is followed by null. -/
def spread (value : Slot) : List Slot :=
  if value.width = 2 then [value, .null] else [value]

/-- Local variables at the start: the arguments, then null up to the number that the code asks
for. -/
def initialLocals (maxLocals : Nat) (args : List Slot) : List Slot :=
  let slots := args.flatMap spread
  slots ++ List.replicate (maxLocals - slots.length) .null

theorem length_initialLocals (maxLocals : Nat) (args : List Slot) :
    (initialLocals maxLocals args).length = max maxLocals (args.flatMap spread).length := by
  simp only [initialLocals, List.length_append, List.length_replicate]
  omega

def enter (code : Code) (args : List Slot) : Frame :=
  { locals := initialLocals code.maxLocals.toNat args }

def push (frame : Frame) (value : Slot) : Run Frame := do
  Run.push value
  return { frame with owned := frame.owned + 1 }

def pop (frame : Frame) : Run (Slot × Frame) := do
  match frame.owned with
  | 0 => Run.execution .stackUnderflow
  | owned + 1 =>
    let value ← Run.pop
    return (value, { frame with owned })

/-- Takes `count` values; the one that was pushed first comes first. -/
def popMany : (count : Nat) → Frame → List Slot → Run (List Slot × Frame)
  | 0, frame, values => return (values, frame)
  | count + 1, frame, values => do
    let (value, frame) ← frame.pop
    popMany count frame (value :: values)

/-- Takes all values that the activation owns. -/
def clear (frame : Frame) : Run Frame := do
  let (_, frame) ← popMany frame.owned frame []
  return frame

def getLocal (frame : Frame) (index : Nat) : Run Slot :=
  match frame.locals[index]? with
  | some value => pure value
  | none => Run.execution (.localOutOfRange index frame.locals.length)

def setLocal (frame : Frame) (index : Nat) (value : Slot) : Run Frame :=
  if index < frame.locals.length then
    pure { frame with locals := frame.locals.set index value }
  else Run.execution (.localOutOfRange index frame.locals.length)

end Frame

end ClassMachine
