import ClassMachine.Proofs.ClassTable.Termination
import ClassMachine.Proofs.Machine.Stability

/-!
# Runs and the depth that they are given

A run gives up where an initialization or a call is nested more deeply than it may be, and nowhere
else. Nothing catches that, so a run that does not give up has come to its end, and comes to the
same with every greater depth.
-/

namespace ClassMachine

open Work ClassTable

/-- The other work comes to the same wherever the first one does not give up. -/
def Deepens {σ α : Type} (work other : EStateM Stop σ α) : Prop :=
  ∀ s, ¬ GaveUp (work.run s) → other.run s = work.run s

namespace Deepens

variable {σ α β : Type} {work other : EStateM Stop σ α}

theorem refl (work : EStateM Stop σ α) : Deepens work work :=
  fun _ _ => rfl

theorem bind {next after : α → EStateM Stop σ β} (h : Deepens work other)
    (hnext : ∀ a, Deepens (next a) (after a)) : Deepens (work >>= next) (other >>= after) := by
  intro s hs
  rw [gaveUp_bind_iff, not_or] at hs
  rw [EStateM.run_bind, EStateM.run_bind, h s hs.1]
  cases hrun : work.run s with
  | error stop t => rfl
  | ok a t => exact hnext a t fun hup => hs.2 ⟨a, t, hrun, hup⟩

end Deepens

section gaveUp

variable {α β : Type} {machine : Machine}

theorem Run.gaveUp_link_iff {work : Linking α} :
    GaveUp ((Run.link work).run machine) ↔ GaveUp (work.run machine.table) := by
  rw [Run.run_link]
  cases work.run machine.table <;> simp

theorem Deepens.link {work other : Linking α} (h : Deepens work other) :
    Deepens (Run.link work) (Run.link other) := by
  intro machine hmachine
  rw [Run.gaveUp_link_iff] at hmachine
  rw [Run.run_link, Run.run_link, h machine.table hmachine]

theorem Run.Plain.not_gaveUp {work : Run α} (h : Run.Plain true work)
    (machine : Machine) : ¬ GaveUp (work.run machine) := by
  induction h generalizing machine with
  | pure a => simp
  | fail fault => simp [Run.fail]
  | bind _ _ ih ihnext =>
    rw [gaveUp_bind_iff, not_or]
    exact ⟨ih machine, fun ⟨a, later, _, hup⟩ => ihnext a later hup⟩
  | push value => simp [Run.push]
  | pop =>
    simp only [Run.pop, EStateM.run_bind, EStateM.run_get]
    cases machine.stack.pop? <;> simp [Run.execution, Run.fail]
  | heap _ ih => exact ih machine.heap machine
  | setField id name value => simp
  | print text =>
    simp only [Run.print, EStateM.run_bind, EStateM.run_get, EStateM.run_modify]
    split <;> simp [Run.fail]

end gaveUp

def Opcode.calls : Opcode → Bool
  | invokevirtual | invokespecial => true
  | _ => false

namespace Instruction

variable {call other : ResolvedMethod → List Slot → Run Unit} {depth deeper : Nat}
  {pool : ConstantPool} {pc operand : Nat} {opcode : Opcode} {frame : Frame} {machine : Machine}

theorem not_gaveUp_discard {σ α : Type} {work : EStateM Stop σ α} {s : σ}
    (h : ¬ GaveUp (work.run s)) : ¬ GaveUp ((discard work).run s) := by
  rw [run_discard]
  cases hrun : work.run s with
  | error stop t => simpa [hrun] using h
  | ok a t => simp

theorem not_gaveUp_getStatic (name field : Bytes) (table : ClassTable) :
    ¬ GaveUp ((Linking.getStatic name field).run table) := by
  rw [Linking.run_getStatic]
  cases table.get? name with
  | none => simp
  | some c =>
    simp only
    cases c.statics.get? field <;> simp

theorem not_gaveUp_create (file : ClassFile) (machine : Machine) :
    ¬ GaveUp ((Run.create file).run machine) := by
  simp only [Run.create, Run.structural]
  cases file.name with
  | error e => simp [EStateM.run_bind, Run.fail]
  | ok className =>
    cases file.newInstance with
    | error e => simp [EStateM.run_bind, Run.fail]
    | ok fields => simp [EStateM.run_bind]

theorem not_gaveUp_newObject (pool : ConstantPool) (operand : Nat) (machine : Machine) :
    ¬ GaveUp ((newObject pool operand).run machine) := by
  simp only [newObject, gaveUp_bind_iff]
  rintro (hup | ⟨place, first, -, hup | ⟨name, second, -, hup | ⟨file, third, -, hup⟩⟩⟩)
  · exact (Run.Plain.still (.position operand)).not_gaveUp machine hup
  · exact (Run.Plain.still (.structural _)).not_gaveUp first hup
  · exact Linking.not_gaveUp_load name second.table (Run.gaveUp_link_iff.1 hup)
  · exact not_gaveUp_create file third hup

theorem not_gaveUp_resolve (className name descriptor : Bytes) (table : ClassTable) :
    ¬ GaveUp ((Linking.resolve className name descriptor).run table) := by
  simp only [Linking.resolve, gaveUp_bind_iff]
  rintro (hup | ⟨file, first, -, hup | ⟨found, second, -, hup⟩⟩)
  · exact Linking.not_gaveUp_load className table hup
  · cases hoverload : file.overload name descriptor <;> simp [hoverload] at hup
  · simp at hup

theorem not_gaveUp_calling (pool : ConstantPool) (operand : Nat) (frame : Frame)
    (machine : Machine) : ¬ GaveUp ((calling pool operand frame).run machine) := by
  simp only [calling, gaveUp_bind_iff]
  rintro (hup | ⟨member, first, -, hup | ⟨target, second, -, hup | ⟨args, third, -, hup⟩⟩⟩)
  · exact (Run.Plain.still (.memberRef pool operand)).not_gaveUp machine hup
  · exact not_gaveUp_resolve _ _ _ first.table (Run.gaveUp_link_iff.1 hup)
  · exact (Run.Plain.popMany _ frame []).not_gaveUp second hup
  · simp at hup

theorem gaveUp_complete_iff {target : ResolvedMethod} {args : List Slot} :
    GaveUp ((complete call target args frame).run machine) ↔
      GaveUp ((call target args).run machine) := by
  simp only [complete, EStateM.run_bind, EStateM.run_get]
  cases (call target args).run machine with
  | error stop later => simp
  | ok done later =>
    simp only
    split <;> simp [Run.execution, Run.fail]

theorem gaveUp_invoke_iff :
    GaveUp ((invoke call pool operand frame).run machine) ↔
      ∃ target args rest later,
        (calling pool operand frame).run machine = .ok (target, args, rest) later ∧
          GaveUp ((call target args).run later) := by
  rw [invoke_eq, gaveUp_bind_iff, or_iff_right (not_gaveUp_calling pool operand frame machine)]
  constructor
  · rintro ⟨⟨target, args, rest⟩, later, hrun, hup⟩
    exact ⟨target, args, rest, later, hrun, gaveUp_complete_iff.1 hup⟩
  · rintro ⟨target, args, rest, later, hrun, hup⟩
    exact ⟨(target, args, rest), later, hrun, gaveUp_complete_iff.2 hup⟩

theorem gaveUp_staticField {member : MemberRef}
    (h : GaveUp ((staticField depth member).run machine)) :
    ∃ table, machine.table.Advances table ∧
      GaveUp ((Linking.initClass depth member.className).run table) := by
  rw [staticField, Run.gaveUp_link_iff] at h
  simp only [gaveUp_bind_iff] at h
  rcases h with hup | ⟨_, table, hload, hup | ⟨_, later, -, hup⟩⟩
  · exact absurd hup (not_gaveUp_discard (Linking.not_gaveUp_load _ _))
  · exact ⟨table, (Linking.load_advances member.className).discard.ok hload, hup⟩
  · exact absurd hup (not_gaveUp_getStatic _ _ later)

/-- An instruction gives up in an initialization or in a method that it calls. -/
theorem gaveUp_run (h : GaveUp ((run call depth pool pc opcode operand frame).run machine)) :
    (∃ name table, machine.table.Advances table ∧
        GaveUp ((Linking.initClass depth name).run table)) ∨
      opcode.calls = true ∧ ∃ target args rest later,
        (calling pool operand frame).run machine = .ok (target, args, rest) later ∧
          GaveUp ((call target args).run later) := by
  have hpush (value : Slot) (later : Machine) :
      ¬ GaveUp ((do return some (← frame.push value) : Run (Option Frame)).run later) :=
    (Run.Plain.bind (.framePush frame value) fun _ => .pure _).not_gaveUp later
  have hinvoke (hup : GaveUp ((do return some (← invoke call pool operand frame) :
      Run (Option Frame)).run machine)) :
      ∃ target args rest later,
        (calling pool operand frame).run machine = .ok (target, args, rest) later ∧
          GaveUp ((call target args).run later) := by
    rcases gaveUp_bind_iff.1 hup with hup | ⟨rest, later, -, hup⟩
    · exact gaveUp_invoke_iff.1 hup
    · exact absurd hup (by simp)
  cases opcode with
  | getstatic =>
    rcases gaveUp_bind_iff.1 h with hup | ⟨member, first, hmember, hup⟩
    · exact absurd hup ((Run.Plain.still (.memberRef pool operand)).not_gaveUp machine)
    · obtain rfl := (Run.Still.memberRef pool operand).unchanged.ok hmember
      rcases gaveUp_bind_iff.1 hup with hup | ⟨value, second, -, hup⟩
      · exact .inl ⟨member.className, gaveUp_staticField hup⟩
      · exact absurd hup (hpush value second)
  | new =>
    rcases gaveUp_bind_iff.1 h with hup | ⟨value, later, -, hup⟩
    · exact absurd hup (not_gaveUp_newObject pool operand machine)
    · exact absurd hup (hpush value later)
  | invokevirtual => exact .inr ⟨rfl, hinvoke h⟩
  | invokespecial => exact .inr ⟨rfl, hinvoke h⟩
  | _ =>
    refine absurd h (Run.Plain.not_gaveUp ?_ machine)
    exact (Run.Plain.run call depth pool pc operand frame rfl).outwards

theorem gaveUp_run_of_call (hcalls : opcode.calls = true) {target : ResolvedMethod}
    {args : List Slot} {rest : Frame} {later : Machine}
    (hcalling : (calling pool operand frame).run machine = .ok (target, args, rest) later)
    (h : GaveUp ((call target args).run later)) :
    GaveUp ((run call depth pool pc opcode operand frame).run machine) := by
  have hinvoke := gaveUp_invoke_iff.2 ⟨target, args, rest, later, hcalling, h⟩
  cases opcode with
  | invokevirtual => exact gaveUp_bind_iff.2 (.inl hinvoke)
  | invokespecial => exact gaveUp_bind_iff.2 (.inl hinvoke)
  | _ => contradiction

theorem deepens_invoke (hcall : ∀ target args, Deepens (call target args) (other target args))
    (pool : ConstantPool) (operand : Nat) (frame : Frame) :
    Deepens (invoke call pool operand frame) (invoke other pool operand frame) := by
  rw [invoke_eq, invoke_eq]
  refine (Deepens.refl _).bind fun answer => (Deepens.refl _).bind fun before => ?_
  exact (hcall answer.1 answer.2.1).bind fun _ => .refl _

theorem deepens_run (hinit : ∀ name, Deepens (Linking.initClass depth name)
      (Linking.initClass deeper name))
    (hcall : ∀ target args, Deepens (call target args) (other target args)) (pool : ConstantPool)
    (pc : Nat) (opcode : Opcode) (operand : Nat) (frame : Frame) :
    Deepens (run call depth pool pc opcode operand frame)
      (run other deeper pool pc opcode operand frame) := by
  have hinvoke := (deepens_invoke hcall pool operand frame).bind fun rest =>
    .refl (pure (some rest))
  cases opcode with
  | getstatic =>
    refine (Deepens.refl _).bind fun member => Deepens.bind (.link ?_) fun _ => .refl _
    exact (Deepens.refl _).bind fun _ => (hinit member.className).bind fun _ => .refl _
  | invokevirtual => exact hinvoke
  | invokespecial => exact hinvoke
  | _ => exact Deepens.refl _

end Instruction

namespace Machine

variable {call other : ResolvedMethod → List Slot → Run Unit} {depth deeper : Nat}

theorem deepens_execute (hinit : ∀ name, Deepens (Linking.initClass depth name)
      (Linking.initClass deeper name))
    (hcall : ∀ target args, Deepens (call target args) (other target args)) (pool : ConstantPool)
    (listing : Listing) (frame : Frame) :
    Deepens (execute call depth pool listing frame) (execute other deeper pool listing frame) := by
  induction listing generalizing frame with
  | exhausted => exact Deepens.refl _
  | truncated pc opcode => exact Deepens.refl _
  | instruction pc opcode operand next ih =>
    refine (Instruction.deepens_run hinit hcall pool pc opcode operand frame).bind fun goesOn => ?_
    cases goesOn with
    | some frame => exact ih frame
    | none => exact Deepens.refl _

theorem deepens_initClass (depth more : Nat) (name : Bytes) :
    Deepens (Linking.initClass depth name) (Linking.initClass (depth + more) name) :=
  fun _ h => Linking.initClass_add h more

theorem deepens_runMethod (depth more : Nat) (target : ResolvedMethod) (args : List Slot) :
    Deepens (runMethod depth target args) (runMethod (depth + more) target args) := by
  induction depth generalizing target args with
  | zero => exact fun machine h => absurd ⟨machine, rfl⟩ h
  | succ depth ih =>
    rw [Nat.add_right_comm]
    unfold runMethod
    split
    · exact Deepens.refl _
    · split
      · exact Deepens.refl _
      · exact deepens_execute (deepens_initClass depth more) ih _ _ _

/-- An invocation that does not give up comes to the same with more depth. -/
theorem deepens_invocation (depth more : Nat) (className name descriptor : Bytes)
    (args : List Slot) :
    Deepens (invoke depth className name descriptor args)
      (invoke (depth + more) className name descriptor args) := by
  refine Deepens.bind (.link ?_) fun target => deepens_runMethod depth more target args
  exact (Deepens.refl _).bind fun _ =>
    (deepens_initClass depth more className).bind fun _ => .refl _

end Machine

end ClassMachine
