import ClassMachine.Value

/-!
# Actions of native methods

A native method is a list of actions of the machine that hosts it. They work on the shared operand
stack, on the arguments of the call, of which the receiver is the first, and on the console.
-/

namespace ClassMachine

inductive NativeAction where
  /-- Takes the last value off the stack. -/
  | discard
  | push (value : Slot)
  /-- Pushes an argument, or null if there is none at that place. -/
  | pushArgument (place : Nat)
  /-- Pushes the length of the receiver in UTF-16 units, or 0 if it is no string. -/
  | pushTextLength
  /-- Prints the argument behind the receiver, if there is one, and ends the line. -/
  | printLine
  /-- Fails with an input or output error. -/
  | fail (reason : String)
deriving DecidableEq, Inhabited

end ClassMachine
