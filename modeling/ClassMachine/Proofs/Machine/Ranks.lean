import ClassMachine.Proofs.Machine.Depths
import ClassMachine.Proofs.Machine.Listings
import ClassMachine.Proofs.Machine.Ownership

/-!
# Methods with ranks

Which methods the code of a method calls is settled by the class table and its source: no run
changes which class file is found under a name. If there is a rank that goes down with every call,
calls are nested no more deeply than it is high, and with so much depth and that for the
initializations no run gives up.
-/

namespace ClassMachine

open Work ClassTable

variable {table later : ClassTable} {className name descriptor : Bytes} {target : ResolvedMethod}

namespace ResolvedMethod

/-- The method is one of a class that is registered or can be loaded. -/
def Known (target : ResolvedMethod) (table : ClassTable) : Prop :=
  ∃ name, (table.find name).map (·.file) = .ok target.file ∧ target.method ∈ target.file.methods

end ResolvedMethod

namespace Linking

theorem resolve_eq_ok_iff :
    (∃ after, (resolve className name descriptor).run table = .ok target after) ↔
      (table.find className).map (·.file) = .ok target.file ∧
        ∃ place, target.file.overload name descriptor = .ok (target.method, place) := by
  obtain ⟨file, method⟩ := target
  obtain ⟨after, -, hload⟩ := run_load_find className table
  cases hfind : table.find className with
  | error fault => simp [resolve, EStateM.run_bind, hload, hfind, Except.map]
  | ok c =>
    by_cases hfile : c.file = file
    · subst hfile
      cases hoverload : c.file.overload name descriptor with
      | error e => simp [resolve, EStateM.run_bind, hload, hfind, Except.map, hoverload]
      | ok found =>
        simp [resolve, EStateM.run_bind, hload, hfind, Except.map, hoverload, Prod.ext_iff]
    · cases hoverload : c.file.overload name descriptor <;>
        simp [resolve, EStateM.run_bind, hload, hfind, Except.map, hoverload, hfile]

theorem resolve_of_advances (hlater : table.Advances later)
    (h : ∃ after, (resolve className name descriptor).run later = .ok target after) :
    ∃ after, (resolve className name descriptor).run table = .ok target after := by
  rw [resolve_eq_ok_iff] at h ⊢
  rwa [hlater.file] at h

theorem known_of_resolve {after : ClassTable}
    (h : (resolve className name descriptor).run table = .ok target after) :
    target.Known table := by
  obtain ⟨hfind, place, hoverload⟩ := resolve_eq_ok_iff.1 ⟨after, h⟩
  exact ⟨className, hfind, ClassFile.mem_of_overload hoverload⟩

end Linking

/-- The method that the instruction calls, if it calls one and that is to be found. -/
def Placed.callee? (placed : Placed) (table : ClassTable) (pool : ConstantPool) :
    Option ResolvedMethod :=
  match placed.opcode.calls, placed.operand with
  | true, place + 1 =>
    match pool.memberRef place with
    | .ok member =>
      match (Linking.resolve member.className member.name member.descriptor).run table with
      | .ok target _ => some target
      | .error _ _ => none
    | .error _ => none
  | _, _ => none

theorem Placed.callee?_eq_some_iff {placed : Placed} {pool : ConstantPool} :
    placed.callee? table pool = some target ↔
      placed.opcode.calls = true ∧ ∃ place member after, placed.operand = place + 1 ∧
        pool.memberRef place = .ok member ∧
        (Linking.resolve member.className member.name member.descriptor).run table =
          .ok target after := by
  obtain ⟨pc, opcode, operand⟩ := placed
  unfold callee?
  cases hcalls : opcode.calls with
  | false => simp
  | true =>
    cases operand with
    | zero => simp
    | succ place =>
      cases hmember : pool.memberRef place with
      | error e => simp [hmember]
      | ok member =>
        cases hresolve :
            (Linking.resolve member.className member.name member.descriptor).run table with
        | error stop after => simp [hmember, hresolve]
        | ok found after => simp [hmember, hresolve]

namespace ClassTable

def callees (table : ClassTable) (caller : ResolvedMethod) : List ResolvedMethod :=
  match caller.method.code? with
  | some code =>
    (Listing.ofBytes code.bytes).instructions.filterMap (·.callee? table caller.file.pool)
  | none => []

/-- Every call leads to a method of smaller rank. -/
def Ranks (table : ClassTable) (rank : ResolvedMethod → Nat) : Prop :=
  ∀ caller, caller.Known table → ∀ callee ∈ table.callees caller, rank callee < rank caller

theorem known_of_mem_callees {caller callee : ResolvedMethod} (h : callee ∈ table.callees caller) :
    callee.Known table := by
  unfold callees at h
  split at h
  next code _ =>
    obtain ⟨placed, -, hcallee⟩ := List.mem_filterMap.1 h
    obtain ⟨-, place, member, after, -, -, hresolve⟩ := Placed.callee?_eq_some_iff.1 hcallee
    exact Linking.known_of_resolve hresolve
  next => contradiction

end ClassTable

namespace Machine

open Instruction

/-- Relations of class tables that loading and initializing stay within are stable. -/
theorem stable_of_tables {R : ClassTable → ClassTable → Prop} (hrefl : ∀ table, R table table)
    (htrans : ∀ first second third, R first second → R second third → R first third)
    (hload : ∀ name, Within R (Linking.load name))
    (hinit : ∀ depth name, Within R (Linking.initClass depth name)) :
    Stable fun machine later => R machine.table later.table := by
  have hlink {α : Type} {work : Linking α} (h : Within R work) :
      Within (fun machine later : Machine => R machine.table later.table) (Run.link work) := by
    intro machine
    have hwork := h machine.table
    rw [Run.run_link]
    cases hrun : work.run machine.table <;> rw [hrun] at hwork <;> exact hwork
  refine ⟨fun machine => hrefl machine.table, fun _ _ _ => htrans _ _ _, fun machine _ => hrefl _,
    fun machine _ => hrefl _, fun machine _ _ _ => hrefl _, fun name => hlink (hload name),
    fun depth name => hlink (hinit depth name), fun name => ?_⟩
  refine Within.bind (R := fun machine later : Machine => R machine.table later.table)
    (fun _ _ _ => htrans _ _ _) (hlink (hload name)) fun file machine => ?_
  simp only [Run.create, Run.structural]
  cases file.name with
  | error e => exact hrefl machine.table
  | ok className =>
    cases file.newInstance with
    | error e => exact hrefl machine.table
    | ok fields => exact hrefl machine.table

theorem advances_stable : Stable fun machine later => machine.table.Advances later.table :=
  stable_of_tables Advances.refl Advances.trans Linking.load_advances Linking.initClass_advances

variable {names : Finset Bytes} {rank : ResolvedMethod → Nat} {depth : Nat} {machine : Machine}

theorem exists_of_run_memberRef {pool : ConstantPool} {operand : Nat} {member : MemberRef}
    {after : Machine} (h : (memberRef pool operand).run machine = .ok member after) :
    ∃ place, operand = place + 1 ∧ pool.memberRef place = .ok member := by
  cases operand with
  | zero => contradiction
  | succ place =>
    refine ⟨place, rfl, ?_⟩
    simp only [memberRef, position, pure_bind] at h
    cases hmember : pool.memberRef place with
    | error e =>
      rw [hmember] at h
      contradiction
    | ok found =>
      rw [hmember] at h
      exact congrArg Except.ok (EStateM.Result.ok.inj h).1

theorem callee?_of_calling {pool : ConstantPool} {pc operand : Nat} {opcode : Opcode}
    {frame rest : Frame} {args : List Slot} {after : Machine} (hcalls : opcode.calls = true)
    (hmachine : table.Advances machine.table)
    (h : (calling pool operand frame).run machine = .ok (target, args, rest) after) :
    Placed.callee? ⟨pc, opcode, operand⟩ table pool = some target := by
  simp only [calling, run_bind_eq_ok_iff, Run.run_link_eq_ok_iff] at h
  obtain ⟨member, first, hmember, found, second, ⟨reached, hresolve, -⟩, ⟨values, frame⟩, third, -,
    hreturn⟩ := h
  obtain rfl := (Prod.mk.inj (EStateM.Result.ok.inj hreturn).1).1
  obtain rfl := (Run.Still.memberRef pool operand).unchanged.ok hmember
  obtain ⟨after, hfound⟩ := Linking.resolve_of_advances hmachine ⟨reached, hresolve⟩
  obtain ⟨place, rfl, hplace⟩ := exists_of_run_memberRef hmember
  exact Placed.callee?_eq_some_iff.2 ⟨hcalls, place, member, after, rfl, hplace, hfound⟩

/-- A run of code whose callees do not give up does not give up either. -/
theorem not_gaveUp_execute {caller : ResolvedMethod} (hpending : table.Pending names)
    (hdepth : names.card < depth)
    (hcall : ∀ callee ∈ table.callees caller, ∀ args machine, table.Advances machine.table →
      ¬ GaveUp ((runMethod depth callee args).run machine))
    {listing : Listing} (hlisting : ∀ callee,
      callee ∈ listing.instructions.filterMap (·.callee? table caller.file.pool) →
      callee ∈ table.callees caller)
    (frame : Frame) (hmachine : table.Advances machine.table) :
    ¬ GaveUp ((execute (runMethod depth) depth caller.file.pool listing frame).run machine) := by
  induction listing generalizing frame machine with
  | exhausted => simp [execute, Run.execution, Run.fail]
  | truncated pc opcode => simp [execute, Run.execution, Run.fail]
  | instruction pc opcode operand next ih =>
    rw [execute, gaveUp_bind_iff]
    rintro (hup | ⟨goesOn, after, hrun, hup⟩)
    · rcases gaveUp_run hup with ⟨name, reached, hreached, hinit⟩ |
        ⟨hcalls, callee, args, rest, after, hcalling, hup⟩
      · have hadvances := Advances.trans _ _ _ hmachine hreached
        exact Linking.not_gaveUp_initClass (hpending.advances hadvances) hdepth name hinit
      · -- The callee is found on a later table, but it is the one that the first table has for it.
        have hcallee : Placed.callee? ⟨pc, opcode, operand⟩ table caller.file.pool = some callee :=
          callee?_of_calling hcalls hmachine hcalling
        have hafter := (advances_stable.calling caller.file.pool operand frame).ok hcalling
        have hlater := Advances.trans _ _ _ hmachine hafter
        refine hcall callee (hlisting callee ?_) args after hlater hup
        exact List.mem_filterMap.2 ⟨_, List.mem_cons_self .., hcallee⟩
    · have hafter := (advances_stable.run (advances_stable.runMethod depth) depth caller.file.pool
        pc opcode operand frame).ok hrun
      cases goesOn with
      | none => simp at hup
      | some frame =>
        refine ih (fun callee hmem => hlisting callee ?_) frame
          (Advances.trans _ _ _ hmachine hafter) hup
        obtain ⟨placed, hplaced, hcallee⟩ := List.mem_filterMap.1 hmem
        exact List.mem_filterMap.2 ⟨placed, List.mem_cons_of_mem _ hplaced, hcallee⟩

/-- A method does not give up with more depth than it has rank, and there are classes to be
initialized. -/
theorem not_gaveUp_runMethod (hpending : table.Pending names) (hrank : table.Ranks rank)
    (htarget : target.Known table) (hdepth : names.card + rank target + 1 < depth)
    (args : List Slot) (hmachine : table.Advances machine.table) :
    ¬ GaveUp ((runMethod depth target args).run machine) := by
  induction depth generalizing target args machine with
  | zero => contradiction
  | succ depth ih =>
    unfold runMethod
    split
    next actions _ => exact (Run.Plain.performAll args actions).not_gaveUp machine
    next =>
      split
      next => simp [Run.fail]
      next code hcode =>
        refine not_gaveUp_execute hpending (by omega) (fun callee hcallee args machine hadv => ?_)
          (fun callee hmem => ?_) _ hmachine
        · have hless := hrank target htarget callee hcallee
          exact ih (known_of_mem_callees hcallee) (by omega) args hadv
        · rwa [callees, hcode]

theorem not_gaveUp_invoke (hpending : table.Pending names) (hrank : table.Ranks rank)
    (hdepth : names.card < depth)
    (htarget : ∀ target after, (Linking.resolve className name descriptor).run table =
      .ok target after → names.card + rank target + 1 < depth)
    (args : List Slot) (hmachine : table.Advances machine.table) :
    ¬ GaveUp ((invoke depth className name descriptor args).run machine) := by
  rw [invoke_eq_finding, gaveUp_bind_iff]
  rintro (hup | ⟨target, later, hfinding, hup⟩)
  · rw [finding, Run.gaveUp_link_iff] at hup
    simp only [gaveUp_bind_iff] at hup
    rcases hup with hup | ⟨_, loaded, hload, hup | ⟨_, entered, -, hup⟩⟩
    · exact not_gaveUp_discard (Linking.not_gaveUp_load className machine.table) hup
    · have hloaded := (Linking.load_advances className).discard.ok hload
      exact Linking.not_gaveUp_initClass
        (hpending.advances (Advances.trans _ _ _ hmachine hloaded)) hdepth className hup
    · exact not_gaveUp_resolve className name descriptor entered hup
  · have hlater := (advances_stable.finding depth className name descriptor).ok hfinding
    simp only [finding, run_bind_eq_ok_iff, Run.run_link_eq_ok_iff] at hfinding
    obtain ⟨_, ⟨_, loaded, hload, _, entered, hinit, hresolve⟩, rfl⟩ := hfinding
    have hentered := Advances.trans _ _ _ ((Linking.load_advances className).discard.ok hload)
      ((Linking.initClass_advances depth className).ok hinit)
    obtain ⟨after, hfound⟩ :=
      Linking.resolve_of_advances (Advances.trans _ _ _ hmachine hentered) ⟨_, hresolve⟩
    exact not_gaveUp_runMethod hpending hrank (Linking.known_of_resolve hfound)
      (htarget target after hfound) args (Advances.trans _ _ _ hmachine hlater) hup

end Machine

end ClassMachine
