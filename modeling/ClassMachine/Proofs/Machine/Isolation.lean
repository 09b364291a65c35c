import ClassMachine.Proofs.Machine.Calls
import ClassMachine.Proofs.Native.Installed

/-!
# Methods leave their caller's values alone

A method does the same whatever lies on the shared stack when it begins, and leaves it there. Calls
being insulated, whatever a call has made the stack grow by is the caller's, so that every
instruction gives a frame that owns what the stack has above the values from before.
-/

namespace ClassMachine

open Work Run

def Run.CallsInsulated (call : ResolvedMethod → List Slot → Run Unit) : Prop :=
  ∀ target args, target.method.TakesNothing →
    Insulated (·.table.TakesNothing) (call target args) fun _ machine => machine.table.TakesNothing

namespace Frame

/-- An activation that goes on owns what is on the stack. -/
def OwnsIfAny : Option Frame → Machine → Prop
  | some frame, machine => frame.Owns machine
  | none, machine => machine.table.TakesNothing

theorem insulated_some (frame : Frame) :
    Insulated frame.Owns (pure (some frame)) OwnsIfAny := by
  refine (insulated_pure (some frame)).weaken (fun _ h => h) ?_
  rintro next machine ⟨rfl, h⟩
  exact h

end Frame

namespace Instruction

variable {call : ResolvedMethod → List Slot → Run Unit}

theorem insulated_calling (pool : ConstantPool) (operand : Nat) (frame : Frame) :
    Insulated frame.Owns (calling pool operand frame) fun (target, _, rest) machine =>
      target.method.TakesNothing ∧ rest.Owns machine := by
  apply (insulated_still (.memberRef pool operand)).bind
  intro member
  have hresolve : Insulated frame.Owns
      (Run.link (Linking.resolve member.className member.name member.descriptor))
      fun target machine => target.method.TakesNothing ∧ frame.Owns machine :=
    insulated_link (·.size = frame.owned) fun table target later htable hrun =>
      have hlater := ((Linking.resolve_grows _ _ _).ok hrun).takesNothing htable
      ⟨hlater, (Linking.registered_of_resolve hrun).of_each hlater⟩
  apply hresolve.bind
  intro target
  have hpop : Insulated (fun machine => target.method.TakesNothing ∧ frame.Owns machine)
      (frame.popMany (argumentCount target.method) [])
      fun answer machine => target.method.TakesNothing ∧ answer.2.Owns machine := by
    rintro machine ⟨htarget, howns⟩
    obtain ⟨hsame, hlater⟩ := Frame.insulated_popMany _ frame [] machine howns
    exact ⟨hsame, fun answer later hrun => ⟨htarget, (hlater answer later hrun).1⟩⟩
  apply hpop.bind
  rintro ⟨args, rest⟩
  refine (insulated_pure _).weaken (fun _ h => h) ?_
  rintro _ machine ⟨rfl, h⟩
  exact h

theorem insulated_invoke (hcall : CallsInsulated call) (pool : ConstantPool) (operand : Nat)
    (frame : Frame) : Insulated frame.Owns (invoke call pool operand frame) Frame.Owns := by
  rw [invoke_eq]
  apply (insulated_calling pool operand frame).bind
  rintro ⟨target, args, rest⟩ machine ⟨htarget, htable, hsize⟩
  have hinsulated := hcall target args htarget
  obtain ⟨hsame, hlater⟩ := hinsulated machine htable
  simp only [complete, EStateM.run_bind, EStateM.run_get]
  cases hrun : (call target args).run machine with
  | error stop later =>
    refine ⟨fun below => ?_, fun _ _ h => nomatch h⟩
    rw [hsame below, hrun]
    rfl
  | ok done later =>
    obtain ⟨stack, hstack⟩ := hinsulated.stack_grows htable hrun
    have hgrown : later.stack.size = stack.size + machine.stack.size := by rw [hstack]; rfl
    have hshrunk : ¬ later.stack.size < machine.stack.size := by omega
    constructor
    · intro below
      have hbelow : ¬ (later.onto below).stack.size < (machine.onto below).stack.size := by
        simp only [Machine.onto, OperandStack.size_onto]
        omega
      have hsizes : (later.onto below).stack.size - (machine.onto below).stack.size =
          later.stack.size - machine.stack.size := by
        simp only [Machine.onto, OperandStack.size_onto]
        omega
      rw [hsame below, hrun]
      simp only [onState, hbelow, hshrunk, hsizes, if_false]
      rfl
    · intro next last hnext
      simp only [hshrunk, if_false, EStateM.run_pure, EStateM.Result.ok.injEq] at hnext
      obtain ⟨rfl, rfl⟩ := hnext
      refine ⟨hlater done later hrun, ?_⟩
      simp only
      omega

theorem insulated_run (hcall : CallsInsulated call) (depth : Nat) (pool : ConstantPool) (pc : Nat)
    (opcode : Opcode) (operand : Nat) (frame : Frame) :
    Insulated frame.Owns (run call depth pool pc opcode operand frame) Frame.OwnsIfAny := by
  have hpush (value : Slot) : Insulated frame.Owns (do return some (← frame.push value))
      Frame.OwnsIfAny :=
    (frame.insulated_push value).bind Frame.insulated_some
  have hpop (frame : Frame) : Insulated frame.Owns frame.pop fun answer => answer.2.Owns :=
    frame.insulated_pop.weaken (fun _ h => h) fun _ _ h => h.1
  have hset (frame : Frame) (index : Nat) (value : Slot) :
      Insulated frame.Owns (do return some (← frame.setLocal index value)) Frame.OwnsIfAny :=
    (frame.insulated_setLocal index value).bind Frame.insulated_some
  cases opcode with
  | nop => exact Frame.insulated_some frame
  | iconst1 => exact hpush _
  | dconst1 => exact hpush _
  | bipush => exact hpush _
  | sipush => exact hpush _
  | ldc => exact (insulated_still (.constant pool operand)).bind hpush
  | ldc2w => exact (insulated_still (.wideConstant pool operand)).bind hpush
  | aload0 => exact (insulated_still (.getLocal frame 0)).bind hpush
  | aload1 => exact (insulated_still (.getLocal frame 1)).bind hpush
  | astore0 => exact (hpop frame).bind fun answer => hset answer.2 0 answer.1
  | astore1 => exact (hpop frame).bind fun answer => hset answer.2 1 answer.1
  | dup =>
    apply (hpop frame).bind
    intro answer
    apply (answer.2.insulated_push answer.1).bind
    intro pushed
    exact (pushed.insulated_push answer.1).bind Frame.insulated_some
  | getstatic =>
    apply (insulated_still (.memberRef pool operand)).bind
    intro member
    exact (insulated_staticField depth member frame).bind hpush
  | getfield =>
    apply (insulated_still (.memberRef pool operand)).bind
    intro member
    apply (hpop frame).bind
    intro target
    apply (insulated_still (.getField member.name target.1)).bind
    intro value
    exact (target.2.insulated_push value).bind Frame.insulated_some
  | putfield =>
    apply (insulated_still (.memberRef pool operand)).bind
    intro member
    apply (hpop frame).bind
    intro value
    apply (hpop value.2).bind
    intro target
    apply (insulated_putField member.name target.1 value.1 target.2).bind
    intro _
    exact Frame.insulated_some target.2
  | new => exact (insulated_newObject pool operand frame).bind hpush
  | invokevirtual =>
    exact (insulated_invoke hcall pool operand frame).bind Frame.insulated_some
  | invokespecial =>
    exact (insulated_invoke hcall pool operand frame).bind Frame.insulated_some
  | returnVoid =>
    refine (insulated_pure _).weaken (fun _ h => h) ?_
    rintro next machine ⟨rfl, howns⟩
    exact howns.1
  | areturn =>
    apply (hpop frame).bind
    intro result
    apply (result.2.insulated_clear.map fun _ => PUnit.unit).bind
    intro _
    refine Insulated.bind ((insulated_leave result.1).weaken ?_ fun _ _ h => h) fun _ => ?_
    · rintro machine ⟨last, -, howns, -⟩
      exact howns.1
    · refine (insulated_pure _).weaken (fun _ h => h) ?_
      rintro next machine ⟨rfl, htable⟩
      exact htable
  | unsupported byte => exact insulated_execution _

/-- `areturn` leaves the last value of its activation alone on the stack. -/
theorem run_areturn (depth : Nat) (pool : ConstantPool) (pc operand : Nat) {frame : Frame}
    {machine : Machine} (howns : frame.Owns machine) :
    (run call depth pool pc .areturn operand frame).run machine =
      match machine.stack.top? with
      | some value => .ok none { machine with stack := OperandStack.empty.push value }
      | none => .error (.fault (.execution .stackUnderflow)) machine := by
  cases howned : frame.owned with
  | zero =>
    have hempty := OperandStack.eq_empty_of_size (howns.2.trans howned)
    simp only [run, Frame.pop, howned, hempty]
    rfl
  | succ owned =>
    obtain ⟨value, rest, hstack, hrest⟩ := OperandStack.eq_push_of_size (howns.2.trans howned)
    have hclear : (Frame.clear { frame with owned }).run { machine with stack := rest } =
        .ok { frame with owned := 0 } { machine with stack := .empty } :=
      Frame.run_clear hrest
    simp only [run, EStateM.run_bind, Frame.run_pop howned hstack, run_discard, hclear, hstack]
    rfl

end Instruction

namespace Machine

variable {call : ResolvedMethod → List Slot → Run Unit}

theorem insulated_execute (hcall : CallsInsulated call) (depth : Nat) (pool : ConstantPool)
    (listing : Listing) (frame : Frame) :
    Insulated frame.Owns (execute call depth pool listing frame)
      fun _ machine => machine.table.TakesNothing := by
  induction listing generalizing frame with
  | exhausted => exact insulated_execution _
  | truncated pc opcode => exact insulated_execution _
  | instruction pc opcode operand next ih =>
    apply (Instruction.insulated_run hcall depth pool pc opcode operand frame).bind
    intro goesOn
    cases goesOn with
    | some frame => exact ih frame
    | none => exact insulated_return ()

theorem callsInsulated_runMethod (depth : Nat) : CallsInsulated (runMethod depth) := by
  induction depth with
  | zero => exact fun target args htarget => insulated_throw _
  | succ depth ih =>
    intro target args htarget
    unfold runMethod
    split
    next actions hbody => exact NativeAction.insulated_performAll args (htarget actions hbody)
    next =>
      split
      · exact insulated_fail _
      next code hcode =>
        have hexecute := insulated_execute ih depth target.file.pool (Listing.ofBytes code.bytes)
          (Frame.enter code args)
        exact Insulated.ofEmpty ClassTable.TakesNothing (fun _ table => table.TakesNothing) hexecute

/-- The instruction that ends an activation, and the machine on which it is met. -/
def ending (call : ResolvedMethod → List Slot → Run Unit) (depth : Nat) (pool : ConstantPool) :
    Listing → Frame → Machine → Option (Opcode × Machine)
  | .exhausted, _, _ | .truncated _ _, _, _ => none
  | .instruction pc opcode operand next, frame, machine =>
    match (Instruction.run call depth pool pc opcode operand frame).run machine with
    | .ok (some frame) later => ending call depth pool next frame later
    | .ok none _ => some (opcode, machine)
    | .error _ _ => none

theorem ending_onto (hcall : CallsInsulated call) (depth : Nat) (pool : ConstantPool)
    (listing : Listing) {frame : Frame} {machine : Machine} (howns : frame.Owns machine)
    (below : OperandStack) :
    ending call depth pool listing frame (machine.onto below) =
      (ending call depth pool listing frame machine).map fun (opcode, last) =>
        (opcode, last.onto below) := by
  induction listing generalizing frame machine with
  | exhausted => rfl
  | truncated pc opcode => rfl
  | instruction pc opcode operand next ih =>
    obtain ⟨hsame, hlater⟩ :=
      Instruction.insulated_run hcall depth pool pc opcode operand frame machine howns
    simp only [ending, hsame below]
    cases hrun : (Instruction.run call depth pool pc opcode operand frame).run machine with
    | error stop later => rfl
    | ok goesOn later =>
      cases goesOn with
      | none => rfl
      | some frame => exact ih (hlater _ _ hrun)

/-- An activation that comes to `areturn` leaves the last of its values then, and nothing else. -/
theorem run_execute_of_ending (hcall : CallsInsulated call) {depth : Nat} {pool : ConstantPool}
    {listing : Listing} {frame : Frame} {machine last : Machine} (howns : frame.Owns machine)
    (hending : ending call depth pool listing frame machine = some (.areturn, last)) :
    ∃ value, last.stack.top? = some value ∧
      (execute call depth pool listing frame).run machine =
        .ok () { last with stack := OperandStack.empty.push value } := by
  induction listing generalizing frame machine with
  | exhausted => contradiction
  | truncated pc opcode => contradiction
  | instruction pc opcode operand next ih =>
    obtain ⟨-, hlater⟩ :=
      Instruction.insulated_run hcall depth pool pc opcode operand frame machine howns
    simp only [ending] at hending
    cases hrun : (Instruction.run call depth pool pc opcode operand frame).run machine with
    | error stop later => simp [hrun] at hending
    | ok goesOn later =>
      cases goesOn with
      | some frame =>
        simp only [hrun] at hending
        obtain ⟨value, htop, hexecute⟩ := ih (hlater _ _ hrun) hending
        refine ⟨value, htop, ?_⟩
        simp only [execute, EStateM.run_bind, hrun]
        exact hexecute
      | none =>
        simp only [hrun, Option.some.injEq, Prod.mk.injEq] at hending
        obtain ⟨rfl, rfl⟩ := hending
        rw [Instruction.run_areturn depth pool pc operand howns] at hrun
        cases htop : machine.stack.top? with
        | none => simp [htop] at hrun
        | some value =>
          refine ⟨value, rfl, ?_⟩
          simp only [execute, EStateM.run_bind, Instruction.run_areturn depth pool pc operand howns,
            htop]
          rfl

def methodEnding : (depth : Nat) → ResolvedMethod → List Slot → Machine → Option (Opcode × Machine)
  | 0, _, _, _ => none
  | depth + 1, target, args, machine =>
    match target.method.body with
    | .native _ => none
    | .bytecode =>
      target.method.code?.bind fun code =>
        ending (runMethod depth) depth target.file.pool (Listing.ofBytes code.bytes)
          (Frame.enter code args) machine

/-- A method does the same on any stack as on the empty one, and adds to the stack what it leaves
on the empty one: if it ends with `areturn`, the value on top then. -/
theorem runMethod_isolated (depth : Nat) (target : ResolvedMethod) (args : List Slot)
    (machine : Machine) (stack : OperandStack) (htable : machine.table.TakesNothing)
    (htarget : target.method.TakesNothing) :
    (runMethod depth target args).run { machine with stack } =
        onState (·.onto stack) ((runMethod depth target args).run { machine with stack := .empty }) ∧
      ∀ last, methodEnding depth target args { machine with stack } = some (.areturn, last) →
        ∃ value, last.stack.top? = some value ∧
          (runMethod depth target args).run { machine with stack := .empty } =
            .ok () { last with stack := OperandStack.empty.push value } := by
  have honto := machine.empty_onto stack
  constructor
  · rw [← honto]
    exact (callsInsulated_runMethod depth target args htarget { machine with stack := .empty }
      htable).1 stack
  · intro last hending
    rw [← honto] at hending
    cases depth with
    | zero => contradiction
    | succ depth =>
      simp only [methodEnding] at hending
      simp only [runMethod]
      cases hbody : target.method.body with
      | native actions => simp [hbody] at hending
      | bytecode =>
        cases hcode : target.method.code? with
        | none => simp [hbody, hcode] at hending
        | some code =>
          simp only [hbody, hcode, Option.bind_some] at hending ⊢
          have hcall := callsInsulated_runMethod depth
          -- On the empty stack all values belong to the activation, which ends in the same way there.
          have howns : (Frame.enter code args).Owns { machine with stack := .empty } :=
            ⟨htable, rfl⟩
          rw [ending_onto hcall depth _ _ howns stack, Option.map_eq_some_iff] at hending
          obtain ⟨⟨opcode, bare⟩, hbare, heq⟩ := hending
          obtain ⟨rfl, rfl⟩ := Prod.mk.inj heq
          obtain ⟨value, htop, hrun⟩ := run_execute_of_ending hcall howns hbare
          exact ⟨value, OperandStack.top?_onto htop stack, hrun⟩

/-- A method that pushes a number twice and returns it. -/
def one : ResolvedMethod where
  file := { pool := .empty, thisClass := 0 }
  method := {
    flags := ⟨AccessFlags.staticBit⟩, name := 0, descriptor := 0
    attributes := [.code {
      maxStack := 2, maxLocals := 0, bytes := [0x04, 0x04, 0xb0], exceptions := []
      attributes := [] }]
    signature := ⟨[], .value .int⟩, body := .bytecode }

theorem methodEnding_one (machine : Machine) :
    methodEnding 1 one [] machine =
      some (.areturn, { machine with stack := (machine.stack.push (.int 1)).push (.int 1) }) :=
  rfl

theorem runMethod_isolated_one :
    (runMethod 1 one []).run
        { Bootstrap.machine .none {} with stack := OperandStack.empty.push .null } =
      .ok () { Bootstrap.machine .none {} with
        stack := (OperandStack.empty.push (.int 1)).onto (OperandStack.empty.push .null) } := by
  have htable := Bootstrap.machine_takesNothing .none {} Heap.spaced
  generalize Bootstrap.machine .none {} = machine at htable ⊢
  obtain ⟨hsame, hreturn⟩ := runMethod_isolated 1 one [] machine (OperandStack.empty.push .null)
    htable fun _ h => nomatch h
  obtain ⟨value, htop, hrun⟩ := hreturn _ (methodEnding_one _)
  obtain rfl := Option.some.inj htop
  rw [hsame, hrun]
  rfl

end Machine

end ClassMachine
