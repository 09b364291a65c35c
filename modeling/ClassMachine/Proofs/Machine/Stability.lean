import ClassMachine.Proofs.Machine.Calls
import ClassMachine.Proofs.Machine.Parts
import ClassMachine.Proofs.ClassTable.Growth

/-!
# Relations that a run stays within

A reflexive and transitive relation between machines is stable if none of the few ways in which a
machine changes leaves it: values on the stack, text on the console, a field, a class that is loaded
or initialized, and an object of a class that has been loaded for it. Then no run leaves it, neither
at its end nor at the dispatch of any instruction on the way.
-/

namespace ClassMachine

open Work

namespace Machine

/-- What is enough for a relation to hold between the beginning of a run and all that follows. -/
structure Stable (R : Machine → Machine → Prop) : Prop where
  refl : ∀ machine, R machine machine
  trans : ∀ first second third, R first second → R second third → R first third
  stack : ∀ machine stack, R machine { machine with stack }
  console : ∀ machine content,
    R machine { machine with console := machine.console.write content }
  field : ∀ machine id name value,
    R machine { machine with heap := machine.heap.setField id name value }
  load : ∀ name, Within R (Run.link (Linking.load name))
  init : ∀ depth name, Within R (Run.link (Linking.initClass depth name))
  create : ∀ name, Within R (Run.link (Linking.load name) >>= Run.create)

end Machine

theorem Work.bind_within_eq {ε σ α β : Type} {work : EStateM ε σ α} {next : α → EStateM ε σ β}
    (h : Within Eq work) (hnext : ∀ a, Within Eq (next a)) : Within Eq (work >>= next) :=
  Within.bind (R := Eq) (fun _ _ _ => Eq.trans) h hnext

namespace Run

variable {α β : Type}

theorem link_bind (work : Linking α) (next : α → Linking β) :
    link (work >>= next) = link work >>= fun a => link (next a) := by
  funext machine
  show (link (work >>= next)).run machine = (link work >>= fun a => link (next a)).run machine
  simp only [run_link, EStateM.run_bind]
  cases work.run machine.table <;> rfl

theorem link_discard (work : Linking α) : link (discard work) = discard (link work) := by
  funext machine
  show (link (discard work)).run machine = (discard (link work)).run machine
  simp only [run_link, run_discard]
  cases work.run machine.table <;> rfl

theorem run_link_eq_ok_iff (work : Linking α) (machine later : Machine) (a : α) :
    (link work).run machine = .ok a later ↔
      ∃ table, work.run machine.table = .ok a table ∧ later = { machine with table } := by
  rw [run_link]
  cases work.run machine.table with
  | error stop table => exact iff_of_false (fun h => nomatch h) fun ⟨_, h, _⟩ => nomatch h
  | ok b table =>
    constructor
    · intro h
      obtain ⟨rfl, rfl⟩ := EStateM.Result.ok.inj h
      exact ⟨table, rfl, rfl⟩
    · rintro ⟨_, h, rfl⟩
      obtain ⟨rfl, rfl⟩ := EStateM.Result.ok.inj h
      rfl

theorem link_within_eq {work : Linking α} (h : Within Eq work) : Within Eq (link work) := by
  intro machine
  have htable := h machine.table
  rw [run_link]
  cases hrun : work.run machine.table with
  | ok a table =>
    rw [hrun] at htable
    exact congrArg (Machine.mk · _ _ _) htable
  | error stop table =>
    rw [hrun] at htable
    exact congrArg (Machine.mk · _ _ _) htable

end Run

namespace Machine.Stable

variable {R : Machine → Machine → Prop} {α β : Type}

section parts

variable (h : Stable R)

include h

theorem bind {work : Run α} {next : α → Run β} (hwork : Within R work)
    (hnext : ∀ a, Within R (next a)) : Within R (work >>= next) :=
  hwork.bind h.trans hnext

theorem unchanged {work : Run α} (hwork : Within Eq work) : Within R work := by
  refine hwork.mono fun machine later heq => ?_
  subst heq
  exact h.refl machine

theorem plain {work : Run α} (hwork : Run.Plain true work) : Within R work :=
  hwork.within h.refl h.trans h.stack (fun _ => h.field) fun _ => h.console

theorem newObject (pool : ConstantPool) (operand : Nat) :
    Within R (Instruction.newObject pool operand) := by
  apply h.bind (h.plain (.still (.position operand)))
  intro place
  exact h.bind (h.plain (.still (.structural _))) fun name => h.create name

theorem resolve (className name descriptor : Bytes) :
    Within R (Run.link (Linking.resolve className name descriptor)) := by
  have hrest (file : ClassFile) : Within Eq (do
      let found ← Linking.resolution (file.overload name descriptor)
      return (⟨file, found.1⟩ : ResolvedMethod)) :=
    bind_within_eq (Linking.resolution_within (fun _ => rfl) _) fun _ =>
      within_pure (fun _ => rfl) _
  rw [Linking.resolve, Run.link_bind]
  exact h.bind (h.load className) fun file => h.unchanged (Run.link_within_eq (hrest file))

/-- A class is loaded and initialized before anything else is done with it. -/
theorem entered {work : Linking α} (depth : Nat) (name : Bytes)
    (hwork : Within R (Run.link work)) :
    Within R (Run.link do
      discard (Linking.load name)
      Linking.initClass depth name
      work) := by
  rw [Run.link_bind, Run.link_discard]
  refine h.bind (h.load name).discard fun _ => ?_
  rw [Run.link_bind]
  exact h.bind (h.init depth name) fun _ => hwork

theorem staticField (depth : Nat) (member : MemberRef) :
    Within R (Instruction.staticField depth member) :=
  h.entered depth _ (h.unchanged (Run.link_within_eq
    (Linking.getStatic_within (fun _ => rfl) _ _)))

theorem finding (depth : Nat) (className name descriptor : Bytes) :
    Within R (Machine.finding depth className name descriptor) :=
  h.entered depth _ (h.resolve className name descriptor)

theorem calling (pool : ConstantPool) (operand : Nat) (frame : Frame) :
    Within R (Instruction.calling pool operand frame) := by
  apply h.bind (h.plain (.still (.memberRef pool operand)))
  intro member
  apply h.bind (h.resolve _ _ _)
  intro target
  exact h.bind (h.plain (.popMany _ frame [])) fun _ => within_pure h.refl _

end parts

section runs

variable {call : ResolvedMethod → List Slot → Run Unit}

theorem within_complete (hcall : ∀ target args, Within R (call target args))
    (target : ResolvedMethod) (args : List Slot) (frame : Frame) :
    Within R (Instruction.complete call target args frame) := by
  intro machine
  have hcalled := hcall target args machine
  simp only [Instruction.complete, EStateM.run_bind, EStateM.run_get]
  cases hrun : (call target args).run machine with
  | error stop later =>
    rw [hrun] at hcalled
    exact hcalled
  | ok done later =>
    rw [hrun] at hcalled
    simp only
    split <;> exact hcalled

theorem run (h : Stable R) (hcall : ∀ target args, Within R (call target args)) (depth : Nat)
    (pool : ConstantPool) (pc : Nat) (opcode : Opcode) (operand : Nat) (frame : Frame) :
    Within R (Instruction.run call depth pool pc opcode operand frame) := by
  have hpush (value : Slot) : Within R (do return some (← frame.push value)) :=
    h.plain (.bind (.framePush frame value) fun _ => .pure _)
  have hinvoke : Within R (Instruction.invoke call pool operand frame) := by
    rw [Instruction.invoke_eq]
    exact h.bind (h.calling pool operand frame) fun _ => within_complete hcall _ _ _
  cases opcode with
  | getstatic =>
    apply h.bind (h.plain (.still (.memberRef pool operand)))
    intro member
    exact h.bind (h.staticField depth member) hpush
  | new => exact h.bind (h.newObject pool operand) hpush
  | invokevirtual => exact h.bind hinvoke fun _ => within_pure h.refl _
  | invokespecial => exact h.bind hinvoke fun _ => within_pure h.refl _
  | _ => exact h.plain (Run.Plain.run call depth pool pc operand frame rfl).outwards

theorem execute (h : Stable R) (hcall : ∀ target args, Within R (call target args)) (depth : Nat)
    (pool : ConstantPool) (listing : Listing) (frame : Frame) :
    Within R (Machine.execute call depth pool listing frame) := by
  induction listing generalizing frame with
  | exhausted => exact within_throw h.refl _
  | truncated pc opcode => exact within_throw h.refl _
  | instruction pc opcode operand next ih =>
    apply h.bind (h.run hcall depth pool pc opcode operand frame)
    intro goesOn
    cases goesOn with
    | some frame => exact ih frame
    | none => exact within_pure h.refl _

theorem runMethod (h : Stable R) (depth : Nat) (target : ResolvedMethod) (args : List Slot) :
    Within R (Machine.runMethod depth target args) := by
  induction depth generalizing target args with
  | zero => exact within_throw h.refl _
  | succ depth ih =>
    unfold Machine.runMethod
    split
    next actions _ => exact h.plain (.performAll args actions)
    next =>
      split
      · exact within_throw h.refl _
      · exact h.execute ih depth _ _ _

theorem invoke (h : Stable R) (depth : Nat) (className name descriptor : Bytes)
    (args : List Slot) : Within R (Machine.invoke depth className name descriptor args) := by
  rw [invoke_eq_finding]
  exact h.bind (h.finding depth className name descriptor) fun target => h.runMethod depth target args

end runs

end Machine.Stable

def Frame.IfAny (F : Frame → Prop) : Option Frame → Prop
  | some frame => F frame
  | none => True

/-- The machines that the method called by an instruction comes to. -/
def Instruction.dispatches (callDispatches : ResolvedMethod → List Slot → Machine → List Machine)
    (pool : ConstantPool) (opcode : Opcode) (operand : Nat) (frame : Frame) (machine : Machine) :
    List Machine :=
  match opcode with
  | .invokevirtual | .invokespecial =>
    match (calling pool operand frame).run machine with
    | .ok (target, args, _) later => callDispatches target args later
    | .error _ _ => []
  | _ => []

namespace Machine

/-- The machines at the dispatches of an activation and of all methods called from it, in order. -/
def executeDispatches (call : ResolvedMethod → List Slot → Run Unit)
    (callDispatches : ResolvedMethod → List Slot → Machine → List Machine) (depth : Nat)
    (pool : ConstantPool) : Listing → Frame → Machine → List Machine
  | .exhausted, _, _ | .truncated _ _, _, _ => []
  | .instruction pc opcode operand next, frame, machine =>
    machine :: Instruction.dispatches callDispatches pool opcode operand frame machine ++
      match (Instruction.run call depth pool pc opcode operand frame).run machine with
      | .ok (some frame) later => executeDispatches call callDispatches depth pool next frame later
      | _ => []

/-- The machines at the dispatches of a method and of all that it calls; a native method has none. -/
def methodDispatches : (depth : Nat) → ResolvedMethod → List Slot → Machine → List Machine
  | 0, _, _, _ => []
  | depth + 1, target, args, machine =>
    match target.method.body with
    | .native _ => []
    | .bytecode =>
      match target.method.code? with
      | none => []
      | some code =>
        executeDispatches (runMethod depth) (methodDispatches depth) depth target.file.pool
          (Listing.ofBytes code.bytes) (Frame.enter code args) machine

section dispatches

variable {I : Machine → Prop} {F : Frame → Prop} {T : ResolvedMethod → List Slot → Prop}
  {call : ResolvedMethod → List Slot → Run Unit}
  {callDispatches : ResolvedMethod → List Slot → Machine → List Machine}

/-- What calls and instructions keep holds at all dispatches. The conditions on frames and on the
methods that are called are kept along with it. -/
theorem forall_mem_executeDispatches
    (hcalling : ∀ pool operand frame, F frame →
      Stays I (Instruction.calling pool operand frame) fun answer => T answer.1 answer.2.1)
    (hdispatches : ∀ target args machine, T target args → I machine →
      ∀ met ∈ callDispatches target args machine, I met)
    {depth : Nat} {pool : ConstantPool}
    (hrun : ∀ pc opcode operand frame, F frame →
      Stays I (Instruction.run call depth pool pc opcode operand frame) (Frame.IfAny F))
    (listing : Listing) {frame : Frame} (hframe : F frame) {machine : Machine} (h : I machine) :
    ∀ met ∈ executeDispatches call callDispatches depth pool listing frame machine, I met := by
  induction listing generalizing frame machine with
  | exhausted => exact fun _ hmet => nomatch hmet
  | truncated pc opcode => exact fun _ hmet => nomatch hmet
  | instruction pc opcode operand next ih =>
    have hinner : ∀ met ∈ Instruction.dispatches callDispatches pool opcode operand frame machine,
        I met := by
      intro met hmet
      unfold Instruction.dispatches at hmet
      split at hmet
      case h_3 => contradiction
      all_goals
        split at hmet
        next target args rest later hcalled =>
          obtain ⟨hlater, hanswer⟩ := hcalling pool operand frame hframe machine h
          rw [hcalled] at hlater
          exact hdispatches target args later (hanswer _ later hcalled) hlater met hmet
        next => contradiction
    intro met hmet
    simp only [executeDispatches, List.cons_append, List.mem_cons, List.mem_append] at hmet
    rcases hmet with rfl | hmet | hmet
    · exact h
    · exact hinner met hmet
    · split at hmet
      next rest later hstep =>
        obtain ⟨hlater, hanswer⟩ := hrun pc opcode operand frame hframe machine h
        rw [hstep] at hlater
        exact ih (hanswer _ later hstep) hlater met hmet
      next => contradiction

theorem forall_mem_methodDispatches
    (hcalling : ∀ pool operand frame, F frame →
      Stays I (Instruction.calling pool operand frame) fun answer => T answer.1 answer.2.1)
    (henter : ∀ target args code, T target args → F (Frame.enter code args))
    (hrun : ∀ depth pool pc opcode operand frame, F frame →
      Stays I (Instruction.run (runMethod depth) depth pool pc opcode operand frame)
        (Frame.IfAny F))
    (depth : Nat) (target : ResolvedMethod) (args : List Slot) (machine : Machine)
    (htarget : T target args) (h : I machine) :
    ∀ met ∈ methodDispatches depth target args machine, I met := by
  induction depth generalizing target args machine with
  | zero => exact fun _ hmet => nomatch hmet
  | succ depth ih =>
    unfold methodDispatches
    split
    · exact fun _ hmet => nomatch hmet
    · split
      · exact fun _ hmet => nomatch hmet
      next code hcode =>
        exact forall_mem_executeDispatches hcalling ih (hrun depth _) _
          (henter target args code htarget) h

end dispatches

theorem Stable.of_mem_methodDispatches {R : Machine → Machine → Prop} (h : Stable R) (depth : Nat)
    (target : ResolvedMethod) (args : List Slot) (machine : Machine) :
    ∀ met ∈ methodDispatches depth target args machine, R machine met := by
  have hstays {α : Type} {work : Run α} {answers : α → Prop} (hwork : Within R work)
      (hanswers : ∀ a, answers a) : Stays (R machine) work answers :=
    (hwork.stays h.trans machine).weaken fun a _ => hanswers a
  have hany (goesOn : Option Frame) : Frame.IfAny (fun _ => True) goesOn := by
    cases goesOn <;> trivial
  exact forall_mem_methodDispatches (F := fun _ => True) (T := fun _ _ => True)
    (fun pool operand frame _ => hstays (h.calling pool operand frame) fun _ => trivial)
    (fun _ _ _ _ => trivial)
    (fun depth pool pc opcode operand frame _ =>
      hstays (h.run (h.runMethod depth) depth pool pc opcode operand frame) hany)
    depth target args machine trivial (h.refl machine)

end Machine

end ClassMachine
