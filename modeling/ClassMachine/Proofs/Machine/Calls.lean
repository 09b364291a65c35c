import ClassMachine.Machine.Interpreter

/-!
# The parts of a call

A call finds its method and takes the arguments. Then the method runs, and what it has left on the
stack is counted for the caller.
-/

namespace ClassMachine

namespace Instruction

theorem run_memberRef {pool : ConstantPool} {place : Nat} {member : MemberRef}
    (hmember : pool.memberRef place = .ok member) (machine : Machine) :
    (memberRef pool (place + 1)).run machine = .ok member machine := by
  simp only [memberRef, position, pure_bind, hmember]
  rfl

/-- What comes before the method runs: the method, its arguments, and the frame without them. -/
def calling (pool : ConstantPool) (operand : Nat) (frame : Frame) :
    Run (ResolvedMethod × List Slot × Frame) := do
  let member ← memberRef pool operand
  let target ← Run.link (Linking.resolve member.className member.name member.descriptor)
  let (args, frame) ← frame.popMany (argumentCount target.method) []
  return (target, args, frame)

/-- Runs the method and counts what it has left for the frame of the caller. -/
def complete (call : ResolvedMethod → List Slot → Run Unit) (target : ResolvedMethod)
    (args : List Slot) (frame : Frame) : Run Frame := do
  let before := (← get).stack.size
  call target args
  let after := (← get).stack.size
  if after < before then Run.execution .stackUnderflow
  return { frame with owned := frame.owned + (after - before) }

theorem invoke_eq (call : ResolvedMethod → List Slot → Run Unit) (pool : ConstantPool)
    (operand : Nat) (frame : Frame) :
    invoke call pool operand frame =
      calling pool operand frame >>= fun (target, args, frame) =>
        complete call target args frame := by
  simp only [invoke, calling, bind_assoc, pure_bind]
  rfl

/-- How an instruction goes on if it succeeds, and what is on the stack then. -/
def outcome : EStateM.Result Stop Machine (Option Frame) → Option (Option Frame × List Slot)
  | .ok next later => some (next, later.stack.slots)
  | .error _ _ => none

theorem exists_of_outcome {result : EStateM.Result Stop Machine (Option Frame)}
    {next : Option Frame} {slots : List Slot} (h : outcome result = some (next, slots)) :
    ∃ later, result = .ok next later ∧ later.stack.slots = slots := by
  cases result with
  | error stop later => contradiction
  | ok frame later =>
    obtain ⟨rfl, rfl⟩ := Prod.mk.inj (Option.some.inj h)
    exact ⟨later, rfl, rfl⟩

end Instruction

namespace Machine

def finding (depth : Nat) (className name descriptor : Bytes) : Run ResolvedMethod :=
  Run.link do
    discard (Linking.load className)
    Linking.initClass depth className
    Linking.resolve className name descriptor

theorem invoke_eq_finding (depth : Nat) (className name descriptor : Bytes) (args : List Slot) :
    invoke depth className name descriptor args =
      finding depth className name descriptor >>= fun target => runMethod depth target args :=
  rfl

end Machine

end ClassMachine
