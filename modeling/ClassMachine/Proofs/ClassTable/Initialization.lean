import ClassMachine.Proofs.ClassFile.Statics
import ClassMachine.Proofs.ClassTable.Growth

/-!
# One step of an initialization

The outcome for a class follows from its state and, if it is verified, from the outcome for its
superclass on the table in which the class is in progress. Once the superclass is there nothing
can go wrong with a class that has been checked.
-/

namespace ClassMachine

open Work

namespace ClassFile

def filled (file : ClassFile) (statics : FieldMap) : FieldMap :=
  final ((file.fillStatics file.staticFields).run statics)

theorem run_fillStatics_staticFields {file : ClassFile} (h : file.check = .ok ())
    (statics : FieldMap) :
    (file.fillStatics file.staticFields).run statics = .ok () (file.filled statics) := by
  obtain ⟨found, hrun, -⟩ := run_fillStatics h mem_of_mem_staticFields statics
  rw [filled, hrun]
  rfl

theorem get?_filled {file : ClassFile} (h : file.check = .ok ()) (statics : FieldMap)
    (name : Bytes) :
    (file.filled statics).get? name = (statics.get? name).or (file.initialStatic name) := by
  obtain ⟨found, hrun, hget⟩ := run_fillStatics h mem_of_mem_staticFields statics
  rw [filled, hrun]
  exact hget name

/-- The class that is initialized before the class, if there is one. -/
def parent (file : ClassFile) : Option Bytes :=
  if file.isInterface then none else file.superName.toOption.join

end ClassFile

namespace ClassTable

/-- Every class is registered under its own name and has been checked. -/
def Checked (table : ClassTable) : Prop :=
  table.Each fun name file => file.name = .ok name ∧ file.check = .ok ()

theorem Grows.checked {table later : ClassTable} (h : table.Grows later)
    (htable : table.Checked) : later.Checked :=
  h.each (fun content file _ hfile hname =>
    ⟨hname, ((ClassFile.parseChecked_eq_ok_iff content file).1 hfile).2⟩) htable

@[simp]
theorem get?_setState (table : ClassTable) (name other : Bytes) (state : InitState) :
    (table.setState name state).get? other =
      if other = name then (table.get? name).map ({ · with state }) else table.get? other :=
  get?_update table name other _

@[simp]
theorem get?_setStatics (table : ClassTable) (name other : Bytes) (statics : FieldMap) :
    (table.setStatics name statics).get? other =
      if other = name then (table.get? name).map ({ · with statics }) else table.get? other :=
  get?_update table name other _

structure Changes (table : ClassTable) (name : Bytes) (c d : LoadedClass) (later : ClassTable) :
    Prop where
  source : later.source = table.source
  asked : later.asked = table.asked
  before : table.get? name = some c
  file : d.file = c.file
  after : ∀ other, later.get? other = if other = name then some d else table.get? other

section changes

variable {table later : ClassTable} {name : Bytes} {c d : LoadedClass}

theorem changes_setState (state : InitState) (hget : table.get? name = some c) :
    table.Changes name c { c with state } (table.setState name state) where
  source := source_update ..
  asked := asked_update ..
  before := hget
  file := rfl
  after other := by simp [hget]

theorem changes_finish (statics : FieldMap) (hget : table.get? name = some c) :
    table.Changes name c { c with state := .done, statics }
      ((table.setStatics name statics).setState name .done) where
  source := by simp [setState, setStatics]
  asked := by simp [setState, setStatics]
  before := hget
  file := rfl
  after other := by by_cases h : other = name <;> simp [h, hget]

namespace Changes

theorem get?_self (h : table.Changes name c d later) : later.get? name = some d := by
  rw [h.after, if_pos rfl]

theorem get?_of_ne (h : table.Changes name c d later) {other : Bytes} (hne : other ≠ name) :
    later.get? other = table.get? other := by
  rw [h.after, if_neg hne]

theorem cases_get? (h : table.Changes name c d later) {other : Bytes} {e : LoadedClass}
    (he : later.get? other = some e) :
    other = name ∧ e = d ∨ other ≠ name ∧ table.get? other = some e := by
  by_cases heq : other = name
  · rw [heq, h.get?_self] at he
    exact .inl ⟨heq, (Option.some.inj he).symm⟩
  · rw [h.get?_of_ne heq] at he
    exact .inr ⟨heq, he⟩

theorem get?_eq_none (h : table.Changes name c d later) {other : Bytes}
    (hnone : table.get? other = none) : later.get? other = none := by
  have hne : other ≠ name := by
    intro heq
    rw [heq, h.before] at hnone
    contradiction
  rw [h.get?_of_ne hne, hnone]

theorem grows (h : table.Changes name c d later) : table.Grows later where
  source := h.source
  kept other e he := by
    by_cases heq : other = name
    · rw [heq, h.before] at he
      exact ⟨d, heq ▸ h.get?_self, Option.some.inj he ▸ h.file⟩
    · exact ⟨e, (h.get?_of_ne heq).trans he, rfl⟩
  added other e hnone he := by
    rw [h.get?_eq_none hnone] at he
    contradiction

end Changes

end changes

end ClassTable

namespace Linking

theorem run_prepareStatics {name : Bytes} {table : ClassTable} {c : LoadedClass}
    (hget : table.get? name = some c) (hcheck : c.file.check = .ok ()) :
    (prepareStatics name).run table =
      .ok () (table.setStatics name (c.file.filled c.statics)) := by
  simp only [prepareStatics, EStateM.run_bind, run_lookup, hget,
    ClassFile.run_fillStatics_staticFields hcheck]
  rfl

theorem withSuperclass_eq {file : ClassFile} (hcheck : file.check = .ok ())
    (next : Bytes → Linking Unit) :
    withSuperclass file next =
      match file.parent with
      | none => pure ()
      | some name => discard (load name) >>= fun _ => next name := by
  obtain ⟨super, hsuper⟩ := ClassFile.superName_of_check hcheck
  unfold withSuperclass ClassFile.parent
  by_cases hinterface : file.isInterface = true
  · simp [hinterface]
  · cases super with
    | none => simp [hinterface, hsuper, structural, Except.toOption]
    | some name => simp [hinterface, hsuper, structural, Except.toOption]

theorem run_initClass_verified {depth : Nat} {name : Bytes} {table : ClassTable} {c : LoadedClass}
    (hget : table.get? name = some c) (hstate : c.state = .verified) :
    (initClass (depth + 1) name).run table =
      match (withSuperclass c.file (initClass depth)).run (table.setState name .inProgress) with
      | .ok () later =>
        match (prepareStatics name).run later with
        | .ok () last => .ok () (last.setState name .done)
        | .error (.fault fault) last => .error (.fault fault) (last.setState name .failed)
        | .error .tooDeep last => .error .tooDeep last
      | .error (.fault fault) later =>
        .error (.fault (.superclass c.file.displayName fault)) (later.setState name .failed)
      | .error .tooDeep later => .error .tooDeep later := by
  simp only [initClass, EStateM.run_bind, run_lookup, hget, hstate, EStateM.run_modify,
    run_attempt, EStateM.run_adaptExcept]
  cases (withSuperclass c.file (initClass depth)).run (table.setState name .inProgress) with
  | error stop later => cases stop <;> rfl
  | ok _ later =>
    simp only
    cases (prepareStatics name).run later with
    | error stop last => cases stop <;> rfl
    | ok _ last => rfl

theorem run_initClass_settled {depth : Nat} {name : Bytes} {table : ClassTable} {c : LoadedClass}
    (hget : table.get? name = some c) (hstate : c.state = .done ∨ c.state = .inProgress) :
    (initClass (depth + 1) name).run table = .ok () table := by
  simp only [initClass, EStateM.run_bind, run_lookup, hget]
  rcases hstate with hstate | hstate <;> rw [hstate] <;> rfl

theorem run_initClass_failed {depth : Nat} {name : Bytes} {table : ClassTable} {c : LoadedClass}
    (hget : table.get? name = some c) (hstate : c.state = .failed) :
    (initClass (depth + 1) name).run table =
      .error (.fault (.noClassDefFound c.file.displayName)) table := by
  simp only [initClass, EStateM.run_bind, run_lookup, hget, hstate]
  rfl

end Linking

end ClassMachine
