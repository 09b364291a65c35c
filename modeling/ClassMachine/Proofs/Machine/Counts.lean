import ClassMachine.Proofs.Machine.Calls
import ClassMachine.Proofs.Machine.Ownership

/-!
# Activations own what is on the stack

The stack always holds as many values as it did when an activation began, and those that the
activation owns. Every instruction keeps this, whatever a method does that it calls: the caller owns
as many values more as the stack has grown by, and a method that makes the stack shrink is a fault.
So the stack never gets smaller by running the instructions of a method.
-/

namespace ClassMachine

open Work Run

variable {α β : Type}

/-- If the work succeeds on a machine that meets the condition, the machine after it meets the other
one. -/
def Run.Yields (before : Machine → Prop) (work : Run α) (after : α → Machine → Prop) : Prop :=
  ∀ machine, before machine → ∀ a later, work.run machine = .ok a later → after a later

namespace Run

variable {before : Machine → Prop} {work : Run α} {after : α → Machine → Prop}

theorem yields_pure (a : α) (h : ∀ machine, before machine → after a machine) :
    Yields before (pure a) after := by
  intro machine hbefore b later hrun
  obtain ⟨rfl, rfl⟩ := EStateM.Result.ok.inj hrun
  exact h machine hbefore

theorem yields_throw (stop : Stop) : Yields before (throw stop) after :=
  fun _ _ _ _ hrun => by contradiction

theorem Yields.bind {next : α → Run β} {last : β → Machine → Prop} (h : Yields before work after)
    (hnext : ∀ a, Yields (after a) (next a) last) : Yields before (work >>= next) last := by
  intro machine hbefore b later hrun
  obtain ⟨a, middle, hwork, hrest⟩ := (run_bind_eq_ok_iff _ _ _ _ _).1 hrun
  exact hnext a middle (h machine hbefore a middle hwork) b later hrest

theorem yields_still (h : Still work) : Yields before work fun _ => before := by
  intro machine hbefore a later hrun
  obtain rfl : machine = later := h.unchanged.ok hrun
  exact hbefore

theorem yields_of_stack {P : OperandStack → Prop}
    (h : ∀ machine a later, work.run machine = .ok a later → later.stack = machine.stack) :
    Yields (fun machine => P machine.stack) work fun _ machine => P machine.stack := by
  intro machine hbefore a later hrun
  rw [h machine a later hrun]
  exact hbefore

end Run

namespace Frame

variable {base : Nat}

/-- Besides the values that the activation owns there are `base` values on the stack. -/
def Counts (base : Nat) (frame : Frame) (machine : Machine) : Prop :=
  machine.stack.size = base + frame.owned

/-- There are at least as many values on the stack as when the activation began. -/
def CountsIfAny (base : Nat) : Option Frame → Machine → Prop
  | some frame, machine => frame.Counts base machine
  | none, machine => base ≤ machine.stack.size

theorem counts_some (frame : Frame) :
    Yields (frame.Counts base) (pure (some frame)) (CountsIfAny base) :=
  yields_pure (some frame) fun _ h => h

theorem counts_push (frame : Frame) (value : Slot) :
    Yields (frame.Counts base) (frame.push value) (Counts base) := by
  intro machine hcounts next later hrun
  obtain ⟨rfl, rfl⟩ := EStateM.Result.ok.inj hrun
  show machine.stack.size + 1 = base + (frame.owned + 1)
  rw [hcounts, Nat.add_assoc]

theorem counts_pop (frame : Frame) :
    Yields (frame.Counts base) frame.pop fun answer => answer.2.Counts base := by
  intro machine hcounts answer later hrun
  cases howned : frame.owned with
  | zero =>
    simp only [pop, howned] at hrun
    contradiction
  | succ owned =>
    have hsize : machine.stack.size = base + owned + 1 := by rw [hcounts, howned, Nat.add_assoc]
    obtain ⟨value, rest, hstack, hrest⟩ := OperandStack.eq_push_of_size hsize
    rw [run_pop howned hstack] at hrun
    obtain ⟨rfl, rfl⟩ := EStateM.Result.ok.inj hrun
    exact hrest

theorem counts_popMany (count : Nat) (frame : Frame) (values : List Slot) :
    Yields (frame.Counts base) (popMany count frame values) fun answer => answer.2.Counts base := by
  induction count generalizing frame values with
  | zero => exact yields_pure _ fun _ h => h
  | succ count ih => exact (counts_pop frame).bind fun answer => ih _ _

theorem counts_clear (frame : Frame) :
    Yields (frame.Counts base) frame.clear (Counts base) :=
  (counts_popMany frame.owned frame []).bind fun _ => yields_pure _ fun _ h => h

theorem counts_setLocal (frame : Frame) (index : Nat) (value : Slot) :
    Yields (frame.Counts base) (frame.setLocal index value) (Counts base) := by
  unfold setLocal
  split
  · exact yields_pure _ fun _ h => h
  · exact yields_throw _

end Frame

namespace Instruction

variable {base : Nat} {call : ResolvedMethod → List Slot → Run Unit}

theorem stack_of_run_link (linking : Linking α) {machine later : Machine} {a : α}
    (hrun : (Run.link linking).run machine = .ok a later) : later.stack = machine.stack := by
  rw [Run.run_link] at hrun
  cases hlinking : linking.run machine.table with
  | error stop table =>
    rw [hlinking] at hrun
    contradiction
  | ok b table =>
    rw [hlinking] at hrun
    exact (EStateM.Result.ok.inj hrun).2 ▸ rfl

theorem counts_link (linking : Linking α) (frame : Frame) :
    Yields (frame.Counts base) (Run.link linking) fun _ => frame.Counts base :=
  yields_of_stack (P := fun stack => stack.size = base + frame.owned)
    fun _ _ _ => stack_of_run_link linking

theorem counts_create (file : ClassFile) (frame : Frame) :
    Yields (frame.Counts base) (Run.create file) fun _ => frame.Counts base := by
  refine (yields_still (.structural _)).bind fun className => ?_
  refine (yields_still (.structural _)).bind fun fields => ?_
  intro machine hcounts value later hrun
  obtain ⟨-, rfl⟩ := EStateM.Result.ok.inj hrun
  exact hcounts

theorem counts_newObject (pool : ConstantPool) (operand : Nat) (frame : Frame) :
    Yields (frame.Counts base) (newObject pool operand) fun _ => frame.Counts base := by
  refine (yields_still (.position operand)).bind fun place => ?_
  refine (yields_still (.structural _)).bind fun className => ?_
  exact (counts_link _ frame).bind fun file => counts_create file frame

theorem counts_putField (name : Bytes) (target value : Slot) (frame : Frame) :
    Yields (frame.Counts base) (putField name target value) fun _ => frame.Counts base := by
  refine (yields_still (.receiver _ target)).bind fun id => ?_
  intro machine hcounts done later hrun
  obtain ⟨-, rfl⟩ := EStateM.Result.ok.inj hrun
  exact hcounts

theorem counts_complete (target : ResolvedMethod) (args : List Slot) (frame : Frame) :
    Yields (frame.Counts base) (complete call target args frame) (Frame.Counts base) := by
  intro machine hcounts next last hrun
  simp only [complete, EStateM.run_bind, EStateM.run_get] at hrun
  cases hcall : (call target args).run machine with
  | error stop later =>
    rw [hcall] at hrun
    contradiction
  | ok done later =>
    simp only [hcall] at hrun
    split at hrun
    · contradiction
    next hgrown =>
      obtain ⟨rfl, rfl⟩ := EStateM.Result.ok.inj hrun
      have hsize : machine.stack.size = base + frame.owned := hcounts
      show later.stack.size = base + (frame.owned + (later.stack.size - machine.stack.size))
      omega

theorem counts_invoke (pool : ConstantPool) (operand : Nat) (frame : Frame) :
    Yields (frame.Counts base) (invoke call pool operand frame) (Frame.Counts base) := by
  rw [invoke_eq, calling, bind_assoc]
  refine (yields_still (.memberRef pool operand)).bind fun member => ?_
  rw [bind_assoc]
  refine (counts_link _ frame).bind fun target => ?_
  rw [bind_assoc]
  refine (frame.counts_popMany _ []).bind fun answer => ?_
  exact counts_complete target answer.1 answer.2

/-- Each instruction keeps the count, whatever a method does that it calls. -/
theorem counts_run (call : ResolvedMethod → List Slot → Run Unit) (depth : Nat)
    (pool : ConstantPool) (pc : Nat) (opcode : Opcode) (operand : Nat) (frame : Frame) :
    Yields (frame.Counts base) (run call depth pool pc opcode operand frame)
      (Frame.CountsIfAny base) := by
  have hpush (frame : Frame) (value : Slot) :
      Yields (frame.Counts base) (do return some (← frame.push value)) (Frame.CountsIfAny base) :=
    (frame.counts_push value).bind Frame.counts_some
  have hset (frame : Frame) (index : Nat) (value : Slot) :
      Yields (frame.Counts base) (do return some (← frame.setLocal index value))
        (Frame.CountsIfAny base) :=
    (frame.counts_setLocal index value).bind Frame.counts_some
  cases opcode with
  | nop => exact Frame.counts_some frame
  | iconst1 | dconst1 | bipush | sipush => exact hpush frame _
  | ldc => exact (yields_still (.constant pool operand)).bind (hpush frame)
  | ldc2w => exact (yields_still (.wideConstant pool operand)).bind (hpush frame)
  | aload0 => exact (yields_still (.getLocal frame 0)).bind (hpush frame)
  | aload1 => exact (yields_still (.getLocal frame 1)).bind (hpush frame)
  | astore0 => exact frame.counts_pop.bind fun answer => hset answer.2 0 answer.1
  | astore1 => exact frame.counts_pop.bind fun answer => hset answer.2 1 answer.1
  | dup =>
    refine frame.counts_pop.bind fun answer => ?_
    exact (answer.2.counts_push answer.1).bind fun pushed => hpush pushed answer.1
  | getstatic =>
    refine (yields_still (.memberRef pool operand)).bind fun member => ?_
    exact (counts_link _ frame).bind (hpush frame)
  | getfield =>
    refine (yields_still (.memberRef pool operand)).bind fun member => ?_
    refine frame.counts_pop.bind fun target => ?_
    exact (yields_still (.getField member.name target.1)).bind (hpush target.2)
  | putfield =>
    refine (yields_still (.memberRef pool operand)).bind fun member => ?_
    refine frame.counts_pop.bind fun value => ?_
    refine value.2.counts_pop.bind fun target => ?_
    exact (counts_putField member.name target.1 value.1 target.2).bind fun _ =>
      Frame.counts_some target.2
  | new => exact (counts_newObject pool operand frame).bind (hpush frame)
  | invokevirtual | invokespecial =>
    exact (counts_invoke pool operand frame).bind Frame.counts_some
  | returnVoid =>
    refine yields_pure none fun machine hcounts => ?_
    exact Nat.le.intro hcounts.symm
  | areturn =>
    refine frame.counts_pop.bind fun result => ?_
    intro machine hcounts next last hrun
    simp only [EStateM.run_bind, run_discard] at hrun
    cases hclear : result.2.clear.run machine with
    | error stop later =>
      rw [hclear] at hrun
      contradiction
    | ok cleared later =>
      have hleft := result.2.counts_clear machine hcounts cleared later hclear
      rw [hclear] at hrun
      obtain ⟨rfl, rfl⟩ := EStateM.Result.ok.inj hrun
      have hsize : later.stack.size = base + cleared.owned := hleft
      show base ≤ later.stack.size + 1
      omega
  | unsupported byte => exact yields_throw _

end Instruction

namespace Machine

/-- An activation leaves at least as many values on the stack as it has found there. -/
theorem counts_execute {base : Nat} (call : ResolvedMethod → List Slot → Run Unit) (depth : Nat)
    (pool : ConstantPool) (listing : Listing) (frame : Frame) :
    Yields (frame.Counts base) (execute call depth pool listing frame)
      fun _ machine => base ≤ machine.stack.size := by
  induction listing generalizing frame with
  | exhausted => exact yields_throw _
  | truncated pc opcode => exact yields_throw _
  | instruction pc opcode operand next ih =>
    refine (Instruction.counts_run call depth pool pc opcode operand frame).bind fun goesOn => ?_
    cases goesOn with
    | some frame => exact ih frame
    | none => exact yields_pure () fun _ h => h

/-- Only a native method can make the stack smaller. -/
theorem size_le_of_runMethod {depth : Nat} {target : ResolvedMethod} {args : List Slot}
    (hbody : target.method.body = .bytecode) {machine later : Machine}
    (hrun : (runMethod depth target args).run machine = .ok () later) :
    machine.stack.size ≤ later.stack.size := by
  cases depth with
  | zero => contradiction
  | succ depth =>
    simp only [runMethod, hbody] at hrun
    cases hcode : target.method.code? with
    | none =>
      simp only [hcode] at hrun
      contradiction
    | some code =>
      simp only [hcode] at hrun
      exact counts_execute (runMethod depth) depth target.file.pool _ (Frame.enter code args)
        machine rfl () later hrun

end Machine

end ClassMachine
