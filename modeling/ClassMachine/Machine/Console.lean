import ClassMachine.Bytes

/-!
# The console

The console may take a limited number of bytes: of a text that does not fit it takes the beginning,
and the write fails.
-/

namespace ClassMachine

structure Console where
  /-- How many more bytes are taken, if there is a limit. -/
  room : Option Nat := none
  /-- The texts that were taken, the latest first. -/
  taken : List Bytes := []
deriving DecidableEq, Inhabited

namespace Console

variable (console : Console)

/-- All that was taken. -/
def output : Bytes :=
  console.taken.reverse.flatten

/-- As much of a text as there is room for. -/
def cut (text : Bytes) : Bytes :=
  match console.room with
  | none => text
  | some room => text.take room

def fits (text : Bytes) : Bool :=
  match console.room with
  | none => true
  | some room => text.length ≤ room

/-- Takes what fits of a text. -/
def write (text : Bytes) : Console :=
  { room := console.room.map (· - text.length), taken := console.cut text :: console.taken }

@[simp]
theorem output_write (text : Bytes) :
    (console.write text).output = console.output ++ console.cut text := by
  simp [output, write]

end Console

end ClassMachine
