import ClassMachine.Proofs.Machine.Counts
import ClassMachine.Proofs.Machine.Isolation
import ClassMachine.Proofs.Machine.Locals
import ClassMachine.Proofs.Machine.TypedCalls

/-!
# How arguments are handed over

A call takes the last values that its activation owns, one for each parameter and one for the
receiver unless the method is static, and leaves the others where they are. What a method with code
leaves on the stack belongs to the caller from then on. If the activation owns too few values the
method is not run. The method finds its receiver in local variable 0 and its parameters behind it.
-/

namespace ClassMachine

open Work Run

namespace Frame

/-- The activation owns the values of the first stack, and those of the other one lie below. -/
structure Stands (frame : Frame) (own below : OperandStack) (machine : Machine) : Prop where
  stack : machine.stack = own.onto below
  owned : own.size = frame.owned

/-- What the activation owns is told from how many other values there are. -/
theorem Counts.stands {base : Nat} {frame : Frame} {machine : Machine}
    (h : frame.Counts base machine) :
    ∃ own below : OperandStack, below.size = base ∧ frame.Stands own below machine := by
  have hsize : machine.stack.slots.length = base + frame.owned := machine.stack.size_eq ▸ h
  refine ⟨⟨machine.stack.slots.take frame.owned, frame.owned, ?_⟩,
    ⟨machine.stack.slots.drop frame.owned, base, ?_⟩, rfl, ⟨?_, rfl⟩⟩
  · rw [List.length_take]
    omega
  · rw [List.length_drop]
    omega
  · exact OperandStack.eq_of_slots_eq (List.take_append_drop ..).symm

variable {frame : Frame} {own below : OperandStack} {machine : Machine} {count : Nat}

/-- An activation that owns enough values gives the last ones, in the order in which they were
pushed. -/
theorem Stands.run_popMany (h : frame.Stands own below machine) (hle : count ≤ frame.owned)
    (values : List Slot) :
    ∃ args, ∃ kept : OperandStack, args.length = count ∧ own.slots = args.reverse ++ kept.slots ∧
      (popMany count frame values).run machine =
        .ok (args ++ values, { frame with owned := kept.size })
          { machine with stack := kept.onto below } := by
  induction count generalizing frame own machine values with
  | zero =>
    obtain ⟨hstack, howned⟩ := h
    refine ⟨[], own, rfl, rfl, ?_⟩
    rw [← hstack, howned]
    rfl
  | succ count ih =>
    obtain ⟨owned, howned⟩ : ∃ owned, frame.owned = owned + 1 := ⟨frame.owned - 1, by omega⟩
    obtain ⟨value, rest, rfl, hrest⟩ := OperandStack.eq_push_of_size (h.owned.trans howned)
    have hstack : machine.stack = (rest.onto below).push value := by
      rw [h.stack, OperandStack.push_onto]
    have hlater : ({ frame with owned } : Frame).Stands rest below
        { machine with stack := rest.onto below } := ⟨rfl, hrest⟩
    obtain ⟨args, kept, hlength, hslots, hrun⟩ := ih hlater (by simp only; omega) (value :: values)
    refine ⟨args ++ [value], kept, by simp [hlength], by simp [hslots], ?_⟩
    simp only [popMany, EStateM.run_bind, run_pop howned hstack, hrun, List.append_assoc]
    rfl

/-- An activation that owns too few values loses them and stops at those below. -/
theorem Stands.run_popMany_underflow (h : frame.Stands own below machine)
    (hlt : frame.owned < count) (values : List Slot) :
    (popMany count frame values).run machine =
      .error (.fault (.execution .stackUnderflow)) { machine with stack := below } := by
  induction count generalizing frame own machine values with
  | zero => exact absurd hlt (Nat.not_lt_zero _)
  | succ count ih =>
    cases howned : frame.owned with
    | zero =>
      have hempty := OperandStack.eq_empty_of_size (h.owned.trans howned)
      have hstack : machine.stack = below := by rw [h.stack, hempty, OperandStack.empty_onto]
      simp only [popMany, pop, howned, ← hstack]
      rfl
    | succ owned =>
      obtain ⟨value, rest, rfl, hrest⟩ := OperandStack.eq_push_of_size (h.owned.trans howned)
      have hstack : machine.stack = (rest.onto below).push value := by
        rw [h.stack, OperandStack.push_onto]
      have hlater : ({ frame with owned } : Frame).Stands rest below
          { machine with stack := rest.onto below } := ⟨rfl, hrest⟩
      simp only [popMany, EStateM.run_bind, run_pop howned hstack,
        ih hlater (by simp only; omega) (value :: values)]

end Frame

namespace Instruction

variable {machine : Machine} {frame : Frame} {own below : OperandStack} {opcode : Opcode}
  {pool : ConstantPool} {operand : Nat} {member : MemberRef} {target : ResolvedMethod}
  {table : ClassTable}

/-- The instruction calls this method, which is found at the cost of what the class table has
become. -/
structure Calls (machine : Machine) (opcode : Opcode) (pool : ConstantPool) (operand : Nat)
    (target : ResolvedMethod) (table : ClassTable) : Prop where
  opcode : opcode = .invokevirtual ∨ opcode = .invokespecial
  found : ∃ member, (memberRef pool operand).run machine = .ok member machine ∧
    (Linking.resolve member.className member.name member.descriptor).run machine.table =
      .ok target table

/-- What a call does once its method has been found: it takes the arguments, runs the method, and
counts what that has left. -/
def enter (call : ResolvedMethod → List Slot → Run Unit) (target : ResolvedMethod) (frame : Frame) :
    Run Frame := do
  let (args, frame) ← frame.popMany (argumentCount target.method) []
  complete call target args frame

theorem Calls.run_eq (h : Calls machine opcode pool operand target table)
    (call : ResolvedMethod → List Slot → Run Unit) (depth pc : Nat) (frame : Frame) :
    (run call depth pool pc opcode operand frame).run machine =
      (some <$> enter call target frame).run { machine with table } := by
  obtain ⟨hopcode, member, hmember, hresolve⟩ := h
  rw [run_call depth pool pc hopcode, run_map, run_map]
  have hinvoke : (invoke call pool operand frame).run machine =
      (enter call target frame).run { machine with table } := by
    simp only [invoke_eq, calling, enter, bind_assoc, pure_bind, EStateM.run_bind, hmember,
      Run.run_link, hresolve]
  rw [hinvoke]

/-- A call takes `args` off the values that its activation owns and leaves it `kept`. -/
structure Handover (machine : Machine) (frame : Frame) (own below : OperandStack) (opcode : Opcode)
    (pool : ConstantPool) (operand : Nat) (target : ResolvedMethod) (table : ClassTable)
    (args : List Slot) (kept : OperandStack) : Prop where
  count : args.length = argumentCount target.method
  /-- The arguments are the values pushed last, in the order in which they were pushed. -/
  taken : own.slots = args.reverse ++ kept.slots
  /-- The method runs with them, on the values that are left, and the caller keeps these. -/
  runs : ∀ call depth pc, (run call depth pool pc opcode operand frame).run machine =
    (some <$> complete call target args { frame with owned := kept.size }).run
      { machine with table, stack := kept.onto below }
  /-- If a method with code succeeds the caller owns as many values more as there are then. These
  lie on those it has kept, unless some native method takes values that are not its own. -/
  returns : target.method.body = .bytecode → ∀ depth later,
    (Machine.runMethod depth target args).run { machine with table, stack := kept.onto below } =
      .ok () later →
    ∃ left, later.stack.size = left + (kept.onto below).size ∧
      (∀ pc, (run (Machine.runMethod depth) depth pool pc opcode operand frame).run machine =
        .ok (some { frame with owned := kept.size + left }) later) ∧
      (machine.table.TakesNothing → ∃ results : OperandStack,
        results.size = left ∧ later.stack = results.onto (kept.onto below))
  /-- A method with code begins with its receiver and its parameters among its local variables. -/
  begins : target.method.body = .bytecode → ∀ code, target.method.code? = some code →
    ∀ lead values, args = lead ++ values →
      lead.length = (if target.method.isStatic then 0 else 1) →
      values.map Slot.width = target.method.signature.params.map FieldType.size →
      ∃ start : Frame, start.LaidOut code target.method.signature lead values ∧ start.owned = 0 ∧
        ∀ depth, Machine.runMethod (depth + 1) target args =
          Machine.execute (Machine.runMethod depth) depth target.file.pool
            (Listing.ofBytes code.bytes) start

/-- An activation that owns enough values hands over those for the method and keeps the others. -/
theorem Calls.handover (h : Calls machine opcode pool operand target table)
    (hstands : frame.Stands own below machine)
    (hle : argumentCount target.method ≤ frame.owned) :
    ∃ args kept, Handover machine frame own below opcode pool operand target table args kept := by
  have hready : frame.Stands own below { machine with table } := ⟨hstands.stack, hstands.owned⟩
  obtain ⟨args, kept, hcount, htaken, hpop⟩ := hready.run_popMany hle []
  rw [List.append_nil] at hpop
  have hruns (call : ResolvedMethod → List Slot → Run Unit) (depth pc : Nat) :
      (run call depth pool pc opcode operand frame).run machine =
        (some <$> complete call target args { frame with owned := kept.size }).run
          { machine with table, stack := kept.onto below } := by
    rw [h.run_eq, run_map, run_map]
    simp only [enter, EStateM.run_bind, hpop]
  refine ⟨args, kept, hcount, htaken, hruns, ?_, ?_⟩
  · intro hbody depth later hrun
    have hsize := Machine.size_le_of_runMethod hbody hrun
    simp only at hsize
    refine ⟨later.stack.size - (kept.onto below).size, by omega, fun pc => ?_, fun htable => ?_⟩
    · have hgrown : ¬ later.stack.size < (kept.onto below).size := by omega
      rw [hruns, run_map]
      simp only [complete, EStateM.run_bind, EStateM.run_get, hrun, hgrown, if_false]
      rfl
    · obtain ⟨-, member, -, hresolve⟩ := h
      have hlater : table.TakesNothing :=
        ((Linking.resolve_grows _ _ _).ok hresolve).takesNothing htable
      have htarget : target.method.TakesNothing := by
        intro actions hnative
        rw [hbody] at hnative
        contradiction
      obtain ⟨results, hresults⟩ :=
        (Machine.callsInsulated_runMethod depth target args htarget).stack_grows hlater hrun
      refine ⟨results, ?_, hresults⟩
      rw [hresults, OperandStack.size_onto]
      exact (Nat.add_sub_cancel ..).symm
  · rintro hbody code hcode lead values rfl - hwidths
    refine ⟨Frame.enter code (lead ++ values), Frame.laidOut_enter code lead hwidths, rfl,
      fun depth => ?_⟩
    simp only [Machine.runMethod, hbody, hcode]

/-- An activation that owns too few values does not come to the method and touches no others. -/
theorem Calls.underflow (h : Calls machine opcode pool operand target table)
    (hstands : frame.Stands own below machine)
    (hlt : frame.owned < argumentCount target.method)
    (call : ResolvedMethod → List Slot → Run Unit) (depth pc : Nat) :
    (run call depth pool pc opcode operand frame).run machine =
      .error (.fault (.execution .stackUnderflow)) { machine with table, stack := below } := by
  have hready : frame.Stands own below { machine with table } := ⟨hstands.stack, hstands.owned⟩
  rw [h.run_eq, run_map]
  simp only [enter, EStateM.run_bind, hready.run_popMany_underflow hlt []]

/-- A call takes the last values that its activation owns, as many as the method takes, and runs the
method with them; or it owns fewer, and the call fails without running the method. Either way the
values below stay where they are, and if the activation goes on it again owns what there is above as
many values. -/
theorem call_protocol (h : Calls machine opcode pool operand target table) {base : Nat}
    (hcounts : frame.Counts base machine) :
    ∃ own below : OperandStack, below.size = base ∧ frame.Stands own below machine ∧
      (argumentCount target.method ≤ frame.owned → ∃ args kept,
        Handover machine frame own below opcode pool operand target table args kept) ∧
      (frame.owned < argumentCount target.method → ∀ call depth pc,
        (run call depth pool pc opcode operand frame).run machine =
          .error (.fault (.execution .stackUnderflow)) { machine with table, stack := below }) ∧
      ∀ call depth pc next later,
        (run call depth pool pc opcode operand frame).run machine = .ok (some next) later →
          next.Counts base later := by
  obtain ⟨own, below, hbase, hstands⟩ := hcounts.stands
  refine ⟨own, below, hbase, hstands, h.handover hstands, h.underflow hstands, ?_⟩
  intro call depth pc next later hrun
  exact counts_run call depth pool pc opcode operand frame machine hcounts (some next) later hrun

/-- A class with a method of one parameter that gives local variable 1, and with a method that calls
a native one. -/
def handoverBytes : Bytes :=
  [0xca, 0xfe, 0xba, 0xbe, 0x00, 0x00, 0x00, 0x34, 0x00, 0x18, 0x01, 0x00, 0x04, 0x4d, 0x61, 0x69,
    0x6e, 0x07, 0x00, 0x01, 0x01, 0x00, 0x10, 0x6a, 0x61, 0x76, 0x61, 0x2f, 0x6c, 0x61, 0x6e, 0x67,
    0x2f, 0x4f, 0x62, 0x6a, 0x65, 0x63, 0x74, 0x07, 0x00, 0x03, 0x05, 0x00, 0x00, 0x00, 0x00, 0x00,
    0x00, 0x00, 0x05, 0x01, 0x00, 0x01, 0x66, 0x01, 0x00, 0x15, 0x28, 0x49, 0x29, 0x4c, 0x6a, 0x61,
    0x76, 0x61, 0x2f, 0x6c, 0x61, 0x6e, 0x67, 0x2f, 0x4f, 0x62, 0x6a, 0x65, 0x63, 0x74, 0x3b, 0x0c,
    0x00, 0x07, 0x00, 0x08, 0x0a, 0x00, 0x02, 0x00, 0x09, 0x01, 0x00, 0x05, 0x69, 0x6e, 0x6e, 0x65,
    0x72, 0x01, 0x00, 0x03, 0x28, 0x29, 0x56, 0x0c, 0x00, 0x0b, 0x00, 0x0c, 0x0a, 0x00, 0x02, 0x00,
    0x0d, 0x01, 0x00, 0x01, 0x4e, 0x07, 0x00, 0x0f, 0x01, 0x00, 0x04, 0x73, 0x77, 0x61, 0x70, 0x0c,
    0x00, 0x11, 0x00, 0x0c, 0x0a, 0x00, 0x10, 0x00, 0x12, 0x01, 0x00, 0x04, 0x43, 0x6f, 0x64, 0x65,
    0x01, 0x00, 0x04, 0x77, 0x69, 0x64, 0x65, 0x01, 0x00, 0x14, 0x28, 0x29, 0x4c, 0x6a, 0x61, 0x76,
    0x61, 0x2f, 0x6c, 0x61, 0x6e, 0x67, 0x2f, 0x4f, 0x62, 0x6a, 0x65, 0x63, 0x74, 0x3b, 0x01, 0x00,
    0x05, 0x6f, 0x75, 0x74, 0x65, 0x72, 0x00, 0x21, 0x00, 0x02, 0x00, 0x04, 0x00, 0x00, 0x00, 0x00,
    0x00, 0x04, 0x00, 0x01, 0x00, 0x07, 0x00, 0x08, 0x00, 0x01, 0x00, 0x14, 0x00, 0x00, 0x00, 0x0e,
    0x00, 0x02, 0x00, 0x02, 0x00, 0x00, 0x00, 0x02, 0x2b, 0xb0, 0x00, 0x00, 0x00, 0x00, 0x00, 0x09,
    0x00, 0x15, 0x00, 0x16, 0x00, 0x01, 0x00, 0x14, 0x00, 0x00, 0x00, 0x14, 0x00, 0x04, 0x00, 0x04,
    0x00, 0x00, 0x00, 0x08, 0x14, 0x00, 0x05, 0x04, 0xb6, 0x00, 0x0a, 0xb0, 0x00, 0x00, 0x00, 0x00,
    0x00, 0x09, 0x00, 0x0b, 0x00, 0x0c, 0x00, 0x01, 0x00, 0x14, 0x00, 0x00, 0x00, 0x11, 0x00, 0x04,
    0x00, 0x04, 0x00, 0x00, 0x00, 0x05, 0x04, 0xb6, 0x00, 0x13, 0xb1, 0x00, 0x00, 0x00, 0x00, 0x00,
    0x09, 0x00, 0x17, 0x00, 0x16, 0x00, 0x01, 0x00, 0x14, 0x00, 0x00, 0x00, 0x12, 0x00, 0x04, 0x00,
    0x04, 0x00, 0x00, 0x00, 0x06, 0x10, 0x07, 0xb6, 0x00, 0x0e, 0xb0, 0x00, 0x00, 0x00, 0x00, 0x00,
    0x00]

/-- A class with a native method that takes a value off the stack and pushes another one. -/
def swapping : Drafting Unit :=
  Drafting.assemble (Drafting.root (Utf8.encode "N"))
    [.method (Utf8.encode "swap") (Utf8.encode "()V") [.discard, .push (.int 9)]]

def handoverPool : ConstantPool :=
  match ClassFile.parseChecked handoverBytes with
  | .ok file => file.pool
  | .error _ => .empty

def handoverTable : ClassTable :=
  (final ((do
    discard (Run.link (Linking.define handoverBytes))
    discard (Bootstrap.register swapping)).run (Bootstrap.machine .none {}))).table

/-- The machine with these values on the stack, the one pushed last first. -/
def handoverMachine (slots : List Slot) : Machine where
  table := handoverTable
  stack := ⟨slots, slots.length, rfl⟩

def handoverMember : MemberRef where
  kind := .method
  className := Utf8.encode "Main"
  name := Utf8.encode "f"
  descriptor := Utf8.encode "(I)Ljava/lang/Object;"

def handoverFound : EStateM.Result Stop ClassTable ResolvedMethod :=
  (Linking.resolve handoverMember.className handoverMember.name handoverMember.descriptor).run
    handoverTable

def handoverTarget : ResolvedMethod :=
  match handoverFound with
  | .ok target _ => target
  | .error _ _ => default

theorem exists_calls_handoverTarget (slots : List Slot) :
    ∃ table, Calls (handoverMachine slots) .invokevirtual handoverPool 10 handoverTarget table := by
  have hok : (match handoverFound with
    | .ok _ _ => true
    | .error _ _ => false) = true := by decide +kernel
  have hmember : handoverPool.memberRef 9 = .ok handoverMember := by decide +kernel
  cases hfound : handoverFound with
  | error stop table => simp [hfound] at hok
  | ok target table =>
    have htarget : handoverTarget = target := by rw [handoverTarget, hfound]
    refine ⟨table, .inl rfl, handoverMember, run_memberRef hmember _, ?_⟩
    rw [htarget, ← hfound]
    dsimp only [handoverMachine, handoverFound]

theorem call_protocol_handover :
    let machine := handoverMachine [.int 1, .null, .int 7]
    let frame : Frame := ⟨[], 3⟩
    ∃ table, Calls machine .invokevirtual handoverPool 10 handoverTarget table ∧
      frame.Counts 0 machine ∧
      ∃ own below : OperandStack, below.size = 0 ∧ frame.Stands own below machine ∧
        argumentCount handoverTarget.method ≤ frame.owned ∧ ∃ args kept,
          Handover machine frame own below .invokevirtual handoverPool 10 handoverTarget table args
            kept := by
  intro machine frame
  obtain ⟨table, hcalls⟩ := exists_calls_handoverTarget [.int 1, .null, .int 7]
  have hcounts : frame.Counts 0 machine := rfl
  obtain ⟨own, below, hbase, hstands, henough, -⟩ := call_protocol hcalls hcounts
  have hle : argumentCount handoverTarget.method ≤ frame.owned := by decide +kernel
  exact ⟨table, hcalls, hcounts, own, below, hbase, hstands, hle, henough hle⟩

/-- A parameter lies behind both local variables of its receiver if that is a long, and a native
method takes a value that the caller of its caller has kept. -/
theorem exists_handover_astray :
    (∃ table code, Calls (handoverMachine [.int 1, .of (.long 5)]) .invokevirtual handoverPool 10
        handoverTarget table ∧
      handoverTarget.method.isStatic = false ∧
      [Slot.int 1].map Slot.width = handoverTarget.method.signature.params.map FieldType.size ∧
      handoverTarget.method.code? = some code ∧
      (Frame.enter code [.of (.long 5), .int 1]).locals = [.of (.long 5), .null, .int 1]) ∧
    (∃ later, (run (Machine.runMethod 1) 1 handoverPool 0 .invokevirtual 10 ⟨[], 2⟩).run
        (handoverMachine [.int 1, .of (.long 5)]) = .ok (some ⟨[], 1⟩) later ∧
      later.stack.slots = [.null]) ∧
    ∃ later, (run (Machine.runMethod 2) 2 handoverPool 0 .invokevirtual 14 ⟨[], 1⟩).run
        (handoverMachine [.int 7]) = .ok (some ⟨[], 1⟩) later ∧ later.stack.slots = [.int 9] := by
  refine ⟨?_, exists_of_outcome (by decide +kernel), exists_of_outcome (by decide +kernel)⟩
  obtain ⟨table, hcalls⟩ := exists_calls_handoverTarget [.int 1, .of (.long 5)]
  have hcode : handoverTarget.method.code? = some ⟨2, 2, [0x2b, 0xb0], [], []⟩ := by
    decide +kernel
  exact ⟨table, _, hcalls, by decide +kernel, by decide +kernel, hcode, by decide +kernel⟩

end Instruction

end ClassMachine
