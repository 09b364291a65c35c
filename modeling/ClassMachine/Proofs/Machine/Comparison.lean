import ClassMachine.Proofs.ClassTable.Foresight
import ClassMachine.Proofs.Machine.Stability

/-!
# Two runs side by side

The second of two runs finds some names loaded and some classes initialized that the first one has to
load and to initialize on the way. Otherwise they go alike: no instruction looks at the class table
but to load a class, to initialize it, or to read a static field after that. The two runs may be given
different depths, and then one of them may give up where the other one does not.
-/

namespace ClassMachine

open Work ClassTable

/-- Two runs from a class table, and what has been done to it beforehand for the second one. -/
structure Comparison where
  start : ClassTable
  loaded : Set Bytes
  settled : Set Bytes
  /-- Whether the first run may give up on its own. -/
  firstStops : Prop
  /-- Whether the second run may give up on its own. -/
  secondStops : Prop

theorem Machine.finding_eq_enter (depth : Nat) (className name descriptor : Bytes) :
    finding depth className name descriptor =
      Run.link (Linking.enter depth className >>= fun _ =>
        Linking.resolve className name descriptor) := by
  rw [Linking.enter, bind_assoc]
  rfl

namespace Comparison

def Tables (k : Comparison) (table ahead : ClassTable) : Prop :=
  ∃ loaded settled, k.start.Stage loaded settled table ∧
    k.start.Stage (k.loaded ∪ loaded) (k.settled ∪ settled) ahead

/-- The class tables after a class has been initialized in both runs. -/
def Entered (k : Comparison) (name : Bytes) (table ahead : ClassTable) : Prop :=
  ¬ k.start.Doomed name ∧ ∃ loaded settled, {other | k.start.Ahead name other} ⊆ settled ∧
    k.start.Stage loaded settled table ∧
    k.start.Stage (k.loaded ∪ loaded) (k.settled ∪ settled) ahead

def failed (k : Comparison) : Set Bytes :=
  {name | name ∈ k.settled ∧ k.start.Doomed name}

/-- The two runs have come to the same, and the machines differ in their class tables alone. -/
inductive Alike (k : Comparison) {α : Type} :
    EStateM.Result Stop Machine α → EStateM.Result Stop Machine α → Prop
  | first {machine result} : k.firstStops → Alike k (.error .tooDeep machine) result
  | second {machine result} : k.secondStops → Alike k result (.error .tooDeep machine)
  | ok {a : α} {machine : Machine} {table} : k.Tables machine.table table →
      Alike k (.ok a machine) (.ok a { machine with table })
  | fault {fault other : Fault} {machine : Machine} {table} : k.Tables machine.table table →
      Abridged k.failed fault other →
      Alike k (.error (.fault fault) machine) (.error (.fault other) { machine with table })

/-- Work that comes to the same in the two runs. -/
def Twin (k : Comparison) {α : Type} (work other : Run α) : Prop :=
  ∀ machine table, k.Tables machine.table table →
    k.Alike (work.run machine) (other.run { machine with table })

/-- The start has finitely many classes, and none of them is under way. -/
structure Fits (k : Comparison) (names : List Bytes) : Prop where
  covers : k.start.Covers names
  checked : k.start.Checked
  idle : k.start.Idle

/-- With these depths a run may give up on its own only if its depth does not exceed that of the
other one by more than there are classes. -/
structure Fair (k : Comparison) (names : List Bytes) (depth other : Nat) : Prop where
  first : depth ≤ names.length + other → k.firstStops
  second : other ≤ names.length + depth → k.secondStops

variable {k : Comparison} {α β : Type} {names : List Bytes} {depth other : Nat}

theorem Fair.pred (h : k.Fair names (depth + 1) (other + 1)) : k.Fair names depth other where
  first hdepth := h.first (by omega)
  second hdepth := h.second (by omega)

theorem Entered.tables {name : Bytes} {table ahead : ClassTable} (h : k.Entered name table ahead) :
    k.Tables table ahead := by
  obtain ⟨-, loaded, settled, -, htable, hahead⟩ := h
  exact ⟨loaded, settled, htable, hahead⟩

theorem Twin.bind {work twin : Run α} {next after : α → Run β} (h : k.Twin work twin)
    (hnext : ∀ a, k.Twin (next a) (after a)) : k.Twin (work >>= next) (twin >>= after) := by
  intro machine table htables
  have hresults := h machine table htables
  rw [EStateM.run_bind, EStateM.run_bind]
  generalize work.run machine = result at hresults ⊢
  generalize twin.run { machine with table } = found at hresults ⊢
  cases hresults with
  | first hstops => exact .first hstops
  | second hstops => exact .second hstops
  | ok hlater => exact hnext _ _ _ hlater
  | fault hlater hfaults => exact .fault hlater hfaults

theorem twin_pure (a : α) : k.Twin (pure a) (pure a) :=
  fun _ _ htables => .ok htables

theorem twin_fail (fault : Fault) : k.Twin (Run.fail fault : Run α) (Run.fail fault) :=
  fun _ _ htables => .fault htables (.same fault)

/-- Plain work does not look at the class table. -/
theorem twin_plain {work : Run α} (h : Run.Plain true work) : k.Twin work work := by
  induction h with
  | pure a => exact twin_pure a
  | fail fault => exact twin_fail fault
  | bind _ _ ih ihnext => exact ih.bind ihnext
  | push value => exact fun _ _ htables => .ok htables
  | pop =>
    intro machine table htables
    simp only [Run.pop, EStateM.run_bind, EStateM.run_get]
    cases machine.stack.pop? with
    | none => exact .fault htables (.same _)
    | some found => exact .ok htables
  | heap _ ih => exact fun machine table htables => ih machine.heap machine table htables
  | setField id name value => exact fun _ _ htables => .ok htables
  | print text =>
    intro machine table htables
    simp only [Run.print, EStateM.run_bind, EStateM.run_get, EStateM.run_modify]
    split
    · exact .ok htables
    · exact .fault htables (.same _)

theorem twin_create (file : ClassFile) : k.Twin (Run.create file) (Run.create file) := by
  intro machine table htables
  simp only [Run.create, Run.structural]
  cases file.name with
  | error e => exact .fault htables (.same _)
  | ok className =>
    cases file.newInstance with
    | error e => exact .fault htables (.same _)
    | ok fields => exact .ok htables

theorem twin_load (name : Bytes) :
    k.Twin (Run.link (Linking.load name)) (Run.link (Linking.load name)) := by
  intro machine table htables
  obtain ⟨loaded, settled, htable, hahead⟩ := htables
  obtain ⟨later, hlater, hrun⟩ := htable.run_load name
  obtain ⟨next, hnext, hrunnext⟩ := hahead.run_load name
  rw [Set.union_assoc] at hnext
  simp only [Run.run_link, hrun, hrunnext]
  cases k.start.find name with
  | ok c => exact .ok ⟨_, _, hlater, hnext⟩
  | error fault => exact .fault ⟨_, _, hlater, hnext⟩ (.same fault)

/-- Entering a class comes to the same in both runs, and so does work that follows on it if it does so
on the tables that are left. -/
theorem twin_entered (hfits : k.Fits names) (hfair : k.Fair names depth other) (name : Bytes)
    {work : Linking α}
    (hwork : ∀ machine table, k.Entered name machine.table table →
      k.Alike ((Run.link work).run machine) ((Run.link work).run { machine with table })) :
    k.Twin (Run.link (Linking.enter depth name >>= fun _ => work))
      (Run.link (Linking.enter other name >>= fun _ => work)) := by
  intro machine table htables
  obtain ⟨loaded, settled, htable, hahead⟩ := htables
  simp only [Run.link_bind, EStateM.run_bind, Run.run_link]
  rcases htable.run_enter hfits.covers hfits.checked hfits.idle depth name with
    ⟨⟨_, hup⟩, hdepth⟩ | ⟨later, hlater, hrun⟩
  · rw [hup]
    exact .first (hfair.first (by omega))
  rcases hahead.run_enter hfits.covers hfits.checked hfits.idle other name with
    ⟨⟨_, hup⟩, hdepth⟩ | ⟨next, hnext, hrunnext⟩
  · rw [hup]
    exact .second (hfair.second (by omega))
  rw [Set.union_assoc] at hnext
  rcases hrun with ⟨hdoomed, hrun⟩ | ⟨fault, hfails, hrun⟩
  · rcases hrunnext with ⟨-, hrunnext⟩ | ⟨cause, hfails, -⟩
    · rw [hrun, hrunnext]
      have hentered := hwork { machine with table := later } next
        ⟨hdoomed, _, _, Set.subset_union_right, hlater, hnext⟩
      simpa only [Run.run_link] using hentered
    · exact absurd ((hahead.doomed_iff name).1 ⟨cause, hfails⟩) hdoomed
  · rcases hrunnext with ⟨hdoomed, -⟩ | ⟨cause, hcause, hrunnext⟩
    · exact absurd ((htable.doomed_iff name).1 ⟨fault, hfails⟩) hdoomed
    · rw [hrun, hrunnext]
      have hfaults := htable.abridged hahead Set.subset_union_right hfails hcause
      refine .fault ⟨_, _, hlater, hnext⟩ (hfaults.mono fun failed hfailed => ?_)
      obtain ⟨hsettled, hnot, hdoomed⟩ := hfailed
      exact ⟨hsettled.resolve_right hnot, hdoomed⟩

theorem run_getStatic (name field : Bytes) (table : ClassTable) {c : LoadedClass}
    (hget : table.get? name = some c) :
    (Linking.getStatic name field).run table =
      match c.statics.get? field with
      | some value => .ok value table
      | none => .error (.fault (.resolution
          (.noSuchField c.file.displayName (Utf8.lenient field)))) table := by
  simp only [Linking.getStatic, EStateM.run_bind, Linking.run_lookup, hget]
  cases c.statics.get? field <;> rfl

theorem twin_staticField (hfits : k.Fits names) (hfair : k.Fair names depth other)
    (member : MemberRef) :
    k.Twin (Instruction.staticField depth member) (Instruction.staticField other member) := by
  have hfield (depth : Nat) : Instruction.staticField depth member =
      Run.link (Linking.enter depth member.className >>= fun _ =>
        Linking.getStatic member.className member.name) := by
    rw [Linking.enter, bind_assoc]
    rfl
  rw [hfield, hfield]
  refine twin_entered hfits hfair member.className fun machine table hentered => ?_
  have htables := hentered.tables
  obtain ⟨hdoomed, loaded, settled, hahead, htable, hnext⟩ := hentered
  obtain ⟨c, d, hget, hgetnext, hsame⟩ := htable.same_of_ahead hnext hfits.idle hahead
    (fun _ h => .inr (hahead h)) hdoomed
  simp only [Run.run_link, run_getStatic _ _ _ hget, run_getStatic _ _ _ hgetnext, hsame.statics,
    hsame.file]
  cases c.statics.get? member.name with
  | none => exact .fault htables (.same _)
  | some value => exact .ok htables

theorem twin_resolve (className name descriptor : Bytes) :
    k.Twin (Run.link (Linking.resolve className name descriptor))
      (Run.link (Linking.resolve className name descriptor)) := by
  rw [Linking.resolve, Run.link_bind]
  apply (twin_load className).bind
  intro file machine table htables
  simp only [Run.run_link, EStateM.run_bind, Linking.run_resolution]
  cases file.overload name descriptor with
  | error e => exact .fault htables (.same _)
  | ok found => exact .ok htables

theorem twin_finding (hfits : k.Fits names) (hfair : k.Fair names depth other)
    (className name descriptor : Bytes) :
    k.Twin (Machine.finding depth className name descriptor)
      (Machine.finding other className name descriptor) := by
  rw [Machine.finding_eq_enter, Machine.finding_eq_enter]
  exact twin_entered hfits hfair className fun machine table hentered =>
    twin_resolve className name descriptor machine table hentered.tables

theorem twin_calling (pool : ConstantPool) (operand : Nat) (frame : Frame) :
    k.Twin (Instruction.calling pool operand frame) (Instruction.calling pool operand frame) := by
  apply (twin_plain (.still (.memberRef pool operand))).bind
  intro member
  apply (twin_resolve _ _ _).bind
  intro target
  exact (twin_plain (.popMany _ frame [])).bind fun _ => twin_pure _

theorem twin_newObject (pool : ConstantPool) (operand : Nat) :
    k.Twin (Instruction.newObject pool operand) (Instruction.newObject pool operand) := by
  apply (twin_plain (.still (.position operand))).bind
  intro place
  apply (twin_plain (.still (.structural _))).bind
  intro name
  exact (twin_load name).bind twin_create

section calls

variable {call twin : ResolvedMethod → List Slot → Run Unit}

/-- Both methods leave stacks of the same size. -/
theorem twin_complete (hcall : ∀ target args, k.Twin (call target args) (twin target args))
    (target : ResolvedMethod) (args : List Slot) (frame : Frame) :
    k.Twin (Instruction.complete call target args frame)
      (Instruction.complete twin target args frame) := by
  intro machine table htables
  have hresults := hcall target args machine table htables
  simp only [Instruction.complete, EStateM.run_bind, EStateM.run_get]
  generalize (call target args).run machine = result at hresults ⊢
  generalize (twin target args).run { machine with table } = found at hresults ⊢
  cases hresults with
  | first hstops => exact .first hstops
  | second hstops => exact .second hstops
  | fault hlater hfaults => exact .fault hlater hfaults
  | ok hlater =>
    simp only
    split
    · exact .fault hlater (.same _)
    · exact .ok hlater

theorem twin_run (hfits : k.Fits names) (hfair : k.Fair names depth other)
    (hcall : ∀ target args, k.Twin (call target args) (twin target args)) (pool : ConstantPool)
    (pc : Nat) (opcode : Opcode) (operand : Nat) (frame : Frame) :
    k.Twin (Instruction.run call depth pool pc opcode operand frame)
      (Instruction.run twin other pool pc opcode operand frame) := by
  have hpush (value : Slot) : k.Twin (do return some (← frame.push value))
      (do return some (← frame.push value)) :=
    twin_plain (.bind (.framePush frame value) fun _ => .pure _)
  have hinvoke : k.Twin (Instruction.invoke call pool operand frame)
      (Instruction.invoke twin pool operand frame) := by
    rw [Instruction.invoke_eq, Instruction.invoke_eq]
    exact (twin_calling pool operand frame).bind fun _ => twin_complete hcall _ _ _
  cases opcode with
  | getstatic =>
    apply (twin_plain (.still (.memberRef pool operand))).bind
    intro member
    exact (twin_staticField hfits hfair member).bind hpush
  | new => exact (twin_newObject pool operand).bind hpush
  | invokevirtual => exact hinvoke.bind fun _ => twin_pure _
  | invokespecial => exact hinvoke.bind fun _ => twin_pure _
  | _ => exact twin_plain (Run.Plain.run call depth pool pc operand frame rfl).outwards

theorem twin_execute (hfits : k.Fits names) (hfair : k.Fair names depth other)
    (hcall : ∀ target args, k.Twin (call target args) (twin target args)) (pool : ConstantPool)
    (listing : Listing) (frame : Frame) :
    k.Twin (Machine.execute call depth pool listing frame)
      (Machine.execute twin other pool listing frame) := by
  induction listing generalizing frame with
  | exhausted => exact twin_fail _
  | truncated pc opcode => exact twin_fail _
  | instruction pc opcode operand next ih =>
    apply (twin_run hfits hfair hcall pool pc opcode operand frame).bind
    intro goesOn
    cases goesOn with
    | some frame => exact ih frame
    | none => exact twin_pure ()

end calls

/-- A method comes to the same in both runs. -/
theorem twin_runMethod (hfits : k.Fits names) (hfair : k.Fair names depth other)
    (target : ResolvedMethod) (args : List Slot) :
    k.Twin (Machine.runMethod depth target args) (Machine.runMethod other target args) := by
  -- Both depths go down at once. Where one of them is used up that run may give up.
  induction depth generalizing other target args with
  | zero => exact fun _ _ _ => .first (hfair.first (by omega))
  | succ depth ih =>
    cases other with
    | zero => exact fun _ _ _ => .second (hfair.second (by omega))
    | succ other =>
      unfold Machine.runMethod
      split
      next actions _ => exact twin_plain (.performAll args actions)
      next =>
        split
        · exact twin_fail _
        · exact twin_execute hfits hfair.pred (fun target args => ih hfair.pred target args) _ _ _

theorem twin_invoke (hfits : k.Fits names) (hfair : k.Fair names depth other)
    (className name descriptor : Bytes) (args : List Slot) :
    k.Twin (Machine.invoke depth className name descriptor args)
      (Machine.invoke other className name descriptor args) := by
  rw [Machine.invoke_eq_finding, Machine.invoke_eq_finding]
  exact (twin_finding hfits hfair className name descriptor).bind fun target =>
    twin_runMethod hfits hfair target args

end Comparison

end ClassMachine
