import ClassMachine.ClassTable.Basic
import ClassMachine.Proofs.Course

/-!
# Loading and defining classes

What the source has under a name depends on the source alone. Loading a registered class changes
nothing; loading another one asks the source once, and registers what it has if that is a valid
class file of the name. Defining a class does not ask.
-/

namespace ClassMachine

open Work

namespace ClassTable

@[simp]
theorem get?_insert (table : ClassTable) (name other : Bytes) (c : LoadedClass) :
    ({ table with classes := table.classes.insert name c } : ClassTable).get? other =
      if other = name then some c else table.get? other :=
  NameMap.get?_insert table.classes name other c

theorem get?_update (table : ClassTable) (name other : Bytes) (change : LoadedClass → LoadedClass) :
    (table.update name change).get? other =
      if other = name then (table.get? name).map change else table.get? other := by
  unfold update
  cases h : table.get? name with
  | none => by_cases hother : other = name <;> simp [hother, h]
  | some c => simp

theorem contains_eq (table : ClassTable) (name : Bytes) :
    table.contains name = (table.get? name).isSome :=
  rfl

@[simp]
theorem source_update (table : ClassTable) (name : Bytes) (change : LoadedClass → LoadedClass) :
    (table.update name change).source = table.source := by
  unfold update
  split <;> rfl

@[simp]
theorem asked_update (table : ClassTable) (name : Bytes) (change : LoadedClass → LoadedClass) :
    (table.update name change).asked = table.asked := by
  unfold update
  split <;> rfl

def ask (table : ClassTable) (name : Bytes) : ClassTable :=
  { table with asked := Utf8.lenient name :: table.asked }

def add (table : ClassTable) (name : Bytes) (file : ClassFile) : ClassTable :=
  { table with classes := table.classes.insert name { file } }

end ClassTable

/-- The valid class file of a name that the source has, or why there is none. -/
def ClassSource.fetch (source : ClassSource) (name : Bytes) : Except Fault ClassFile :=
  match source.read (Utf8.lenient name) with
  | .error e => .error (.io e)
  | .ok .none => .error (.resolution (.classNotFound (Utf8.lenient name)))
  | .ok (.some content) =>
    match ClassFile.parseChecked content with
    | .error e => .error (.structural e)
    | .ok file =>
      match file.name with
      | .error e => .error (.structural e)
      | .ok found =>
        if found = name then .ok file
        else .error (.resolution (.nameMismatch (Utf8.lenient name) file.displayName))

theorem ClassFile.parseChecked_eq_ok_iff (content : Bytes) (file : ClassFile) :
    ClassFile.parseChecked content = .ok file ↔
      ClassFile.parse content = .ok file ∧ file.check = .ok () := by
  simp only [parseChecked, bind_eq_ok_iff]
  constructor
  · rintro ⟨found, hparse, ⟨⟩, hcheck, hfile⟩
    obtain rfl := Except.ok.inj hfile
    exact ⟨hparse, hcheck⟩
  · rintro ⟨hparse, hcheck⟩
    exact ⟨file, hparse, (), hcheck, rfl⟩

theorem ClassSource.read_of_fetch {source : ClassSource} {name : Bytes} {file : ClassFile}
    (h : source.fetch name = .ok file) :
    ∃ content, source.read (Utf8.lenient name) = .ok (some content) ∧
      ClassFile.parseChecked content = .ok file ∧ file.name = .ok name := by
  unfold fetch at h
  split at h <;> try contradiction
  next content hread =>
    split at h <;> try contradiction
    next file hfile =>
      split at h <;> try contradiction
      next found hname =>
        split at h <;> try contradiction
        next heq =>
          obtain rfl := Except.ok.inj h
          exact ⟨content, hread, hfile, heq ▸ hname⟩

theorem ClassSource.fetch_eq_ok {source : ClassSource} {name : Bytes} {file : ClassFile}
    (h : source.fetch name = .ok file) :
    (∃ content, ClassFile.parseChecked content = .ok file) ∧ file.name = .ok name := by
  obtain ⟨content, -, hfile, hname⟩ := read_of_fetch h
  exact ⟨⟨content, hfile⟩, hname⟩

namespace Linking

variable {α : Type}

@[simp]
theorem run_fail (fault : Fault) (table : ClassTable) :
    (fail fault : Linking α).run table = .error (.fault fault) table :=
  rfl

@[simp]
theorem run_structural (answer : Except StructuralError α) (table : ClassTable) :
    (structural answer).run table =
      match answer with
      | .ok a => .ok a table
      | .error e => .error (.fault (.structural e)) table := by
  cases answer <;> rfl

@[simp]
theorem run_resolution (answer : Except ResolutionError α) (table : ClassTable) :
    (resolution answer).run table =
      match answer with
      | .ok a => .ok a table
      | .error e => .error (.fault (.resolution e)) table := by
  cases answer <;> rfl

theorem run_lookup (name : Bytes) (table : ClassTable) :
    (lookup name).run table =
      match table.get? name with
      | some c => .ok c table
      | none => .error (.fault (.resolution (.classNotFound (Utf8.lenient name)))) table := by
  simp only [lookup, EStateM.run_bind, EStateM.run_get]
  cases table.get? name <;> rfl

theorem run_getStatic (name field : Bytes) (table : ClassTable) :
    (getStatic name field).run table =
      match table.get? name with
      | some c =>
        match c.statics.get? field with
        | some value => .ok value table
        | none => .error (.fault (.resolution
            (.noSuchField c.file.displayName (Utf8.lenient field)))) table
      | none => .error (.fault (.resolution (.classNotFound (Utf8.lenient name)))) table := by
  simp only [getStatic, EStateM.run_bind, run_lookup]
  cases table.get? name with
  | none => rfl
  | some c =>
    simp only
    cases c.statics.get? field <;> rfl

theorem run_ask (name : String) (table : ClassTable) :
    (ask name).run table =
      match table.source.read name with
      | .ok (some content) => .ok content { table with asked := name :: table.asked }
      | .ok none => .error (.fault (.resolution (.classNotFound name)))
          { table with asked := name :: table.asked }
      | .error e => .error (.fault (.io e)) { table with asked := name :: table.asked } := by
  simp only [ask, EStateM.run_bind, EStateM.run_modify, EStateM.run_get]
  cases table.source.read name with
  | error e => rfl
  | ok answer => cases answer <;> rfl

theorem run_register (c : LoadedClass) (table : ClassTable) :
    (register c).run table =
      match c.file.name with
      | .ok name => .ok name (if table.contains name then table
          else { table with classes := table.classes.insert name c })
      | .error e => .error (.fault (.structural e)) table := by
  simp only [register, EStateM.run_bind, run_structural]
  cases c.file.name with
  | error e => rfl
  | ok name =>
    simp only [EStateM.run_get]
    split <;> simp_all

/-- What defining does: a class that is registered already stays as it is. -/
theorem run_define (content : Bytes) (table : ClassTable) :
    (define content).run table =
      match ClassFile.parseChecked content with
      | .ok file =>
        match file.name with
        | .ok name => .ok name (if table.contains name then table else table.add name file)
        | .error e => .error (.fault (.structural e)) table
      | .error e => .error (.fault (.structural e)) table := by
  simp only [define, EStateM.run_bind, run_structural]
  cases ClassFile.parseChecked content with
  | error e => rfl
  | ok file => exact run_register { file } table

/-- What loading does, by whether the class is registered and by what the source has. -/
theorem run_load (name : Bytes) (table : ClassTable) :
    (load name).run table =
      match table.get? name with
      | some c => .ok c.file table
      | none =>
        match table.source.fetch name with
        | .ok file => .ok file ((table.ask name).add name file)
        | .error fault => .error (.fault fault) (table.ask name) := by
  simp only [load, EStateM.run_bind, EStateM.run_get]
  cases hget : table.get? name with
  | some c => rfl
  | none =>
    simp only [EStateM.run_bind, run_ask, ClassSource.fetch]
    cases table.source.read (Utf8.lenient name) with
    | error e => rfl
    | ok answer =>
      cases answer with
      | none => rfl
      | some content =>
        simp only [run_structural]
        cases ClassFile.parseChecked content with
        | error e => rfl
        | ok file =>
          cases hname : file.name with
          | error e => simp [hname, ClassTable.ask]
          | ok found =>
            have hmissing : ({ table with asked := Utf8.lenient name :: table.asked }
                : ClassTable).contains name = false := by
              rw [ClassTable.contains_eq]
              exact congrArg Option.isSome hget
            by_cases heq : found = name
            · subst heq
              simp [hname, run_register, hmissing, ClassTable.ask, ClassTable.add]
            · simp [hname, heq, ClassTable.ask]

end Linking

end ClassMachine
