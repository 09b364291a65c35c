import ClassMachine.Proofs.Machine.Calls
import ClassMachine.Proofs.Machine.Isolation

/-!
# What a return without a result leaves

`areturn` takes everything that its activation owns. `return` takes nothing: whatever the activation
owns then stays on the shared stack, and its caller owns it from then on. So the stack is as it was
only if the activation has used up all that it had pushed.
-/

namespace ClassMachine

open Work Run

namespace OperandStack

/-- Putting a stack onto another one changes that one unless there is nothing to put. -/
theorem onto_eq_self_iff (stack below : OperandStack) : stack.onto below = below ↔ stack = empty := by
  constructor
  · intro h
    have hsize : stack.size + below.size = below.size := congrArg OperandStack.size h
    exact eq_empty_of_size (by omega)
  · rintro rfl
    exact empty_onto below

end OperandStack

namespace Machine

theorem run_execute_returnVoid {call : ResolvedMethod → List Slot → Run Unit} {depth : Nat}
    {pool : ConstantPool} {listing : Listing} {frame : Frame} {machine last : Machine}
    (hending : ending call depth pool listing frame machine = some (.returnVoid, last)) :
    (execute call depth pool listing frame).run machine = .ok () last := by
  induction listing generalizing frame machine with
  | exhausted => contradiction
  | truncated pc opcode => contradiction
  | instruction pc opcode operand next ih =>
    simp only [ending] at hending
    cases hrun : (Instruction.run call depth pool pc opcode operand frame).run machine with
    | error stop later => simp [hrun] at hending
    | ok goesOn later =>
      simp only [execute, EStateM.run_bind, hrun]
      cases goesOn with
      | some frame =>
        simp only [hrun] at hending
        exact ih hending
      | none =>
        simp only [hrun, Option.some.injEq, Prod.mk.injEq] at hending
        obtain ⟨rfl, rfl⟩ := hending
        have hreturn : EStateM.Result.ok none machine = .ok (none : Option Frame) later := hrun
        obtain ⟨-, rfl⟩ := EStateM.Result.ok.inj hreturn
        rfl

theorem run_runMethod_returnVoid {depth : Nat} {target : ResolvedMethod} {args : List Slot}
    {machine last : Machine}
    (hending : methodEnding depth target args machine = some (.returnVoid, last)) :
    (runMethod depth target args).run machine = .ok () last := by
  cases depth with
  | zero => contradiction
  | succ depth =>
    simp only [methodEnding] at hending
    simp only [runMethod]
    cases hbody : target.method.body with
    | native actions => simp [hbody] at hending
    | bytecode =>
      cases hcode : target.method.code? with
      | none => simp [hbody, hcode] at hending
      | some code =>
        simp only [hbody, hcode, Option.bind_some] at hending ⊢
        exact run_execute_returnVoid hending

/-- A method that ends with `return` leaves what it owns then on top of the stack that it was
called with. The stack is the same as before only if that is nothing, and all of it belongs to the
activation that has called the method. -/
theorem runMethod_returnVoid {depth : Nat} {target : ResolvedMethod} {args : List Slot}
    {machine last : Machine} (htable : machine.table.TakesNothing)
    (htarget : target.method.TakesNothing)
    (hending : methodEnding depth target args machine = some (.returnVoid, last)) :
    (runMethod depth target args).run machine = .ok () last ∧
      ∃ left : OperandStack, last.stack = left.onto machine.stack ∧
        (last.stack = machine.stack ↔ left = .empty) ∧
        ∀ frame : Frame, (Instruction.complete (runMethod depth) target args frame).run machine =
          .ok { frame with owned := frame.owned + left.size } last := by
  have hrun := run_runMethod_returnVoid hending
  have hinsulated := callsInsulated_runMethod depth target args htarget
  obtain ⟨left, hleft⟩ := hinsulated.stack_grows htable hrun
  refine ⟨hrun, left, hleft, ?_, fun frame => ?_⟩
  · rw [hleft]
    exact left.onto_eq_self_iff machine.stack
  · have hsize : last.stack.size = left.size + machine.stack.size := by rw [hleft]; rfl
    have hgrown : ¬ last.stack.size < machine.stack.size := by omega
    have hcount : last.stack.size - machine.stack.size = left.size := by omega
    simp only [Instruction.complete, EStateM.run_bind, EStateM.run_get, hrun, hgrown, hcount]
    rfl

/-- A method without a result that pushes a number and returns. -/
def litter : ResolvedMethod where
  file := { pool := .empty, thisClass := 0 }
  method := {
    flags := ⟨AccessFlags.staticBit⟩, name := 0, descriptor := 0
    attributes := [.code {
      maxStack := 1, maxLocals := 0, bytes := [0x04, 0xb1], exceptions := [], attributes := [] }]
    signature := ⟨[], .void⟩, body := .bytecode }

theorem methodEnding_litter (machine : Machine) :
    methodEnding 1 litter [] machine =
      some (.returnVoid, { machine with stack := machine.stack.push (.int 1) }) :=
  rfl

def laden : Machine := { stack := OperandStack.empty.push .null }

theorem runMethod_returnVoid_litter :
    laden.table.TakesNothing ∧ litter.method.TakesNothing ∧
      methodEnding 1 litter [] laden =
        some (.returnVoid, { laden with stack := laden.stack.push (.int 1) }) ∧
      (runMethod 1 litter []).run laden =
        .ok () { laden with stack := laden.stack.push (.int 1) } := by
  have htable : laden.table.TakesNothing := fun _ _ h => nomatch h
  have htarget : litter.method.TakesNothing := fun _ h => nomatch h
  have hending := methodEnding_litter laden
  exact ⟨htable, htarget, hending, (runMethod_returnVoid htable htarget hending).1⟩

/-- Not every method without a result leaves the stack as it was when it comes to `return`. -/
theorem exists_leftover :
    ∃ later : Machine, litter.method.signature.result = .void ∧
      methodEnding 1 litter [] laden = some (.returnVoid, later) ∧
      (runMethod 1 litter []).run laden = .ok () later ∧ later.stack ≠ laden.stack := by
  have hending := methodEnding_litter laden
  have hrun := run_runMethod_returnVoid hending
  refine ⟨_, rfl, hending, hrun, fun hstack => ?_⟩
  have hsize : laden.stack.size + 1 = laden.stack.size := congrArg OperandStack.size hstack
  omega

end Machine

end ClassMachine
