import ClassMachine.Machine.Basic

/-!
# Running native methods
-/

namespace ClassMachine.NativeAction

def textLength : Option Slot → Nat
  | some ⟨_, .string text⟩ => Utf8.utf16Length text
  | _ => 0

/-- The line that is printed for the arguments of a call. -/
def line (args : List Slot) : Run String := do
  match args[1]? with
  | some value => return (← Run.shown value) ++ "\n"
  | none => return "\n"

def perform (args : List Slot) : NativeAction → Run Unit
  | discard => do let _ ← Run.pop
  | push value => Run.push value
  | pushArgument place => Run.push (args[place]?.getD .null)
  | pushTextLength => Run.push (.int (Int32.ofNat (textLength args.head?)))
  | printLine => do Run.print (← line args)
  | fail reason => Run.fail (.io (.other reason))

def performAll (args : List Slot) : List NativeAction → Run Unit
  | [] => return
  | action :: actions => do
    action.perform args
    performAll args actions

end ClassMachine.NativeAction
