import ClassMachine.Proofs.ClassTable.Growth

/-!
# What loading and defining may do to the table

Whatever the source answers, a class that is loaded has the name that was asked for, byte for byte,
and is the one that is registered under it. A failure leaves all classes alone, and a success adds
one class at most, as it was read. The source is not asked for a class that is registered.
-/

namespace ClassMachine.ClassTable

open Work

/-- One class is new, as it was read, and the others are as before. -/
structure Adds (table : ClassTable) (name : Bytes) (file : ClassFile) (later : ClassTable) :
    Prop where
  before : table.get? name = none
  get?_self : later.get? name = some { file }
  get?_of_ne : ∀ other, other ≠ name → later.get? other = table.get? other

/-- What the table answers to whoever loads the class of a name. -/
structure LoadsRightly (table : ClassTable) (name : Bytes) : Prop where
  registered : ∀ c, table.get? name = some c →
    (Linking.load name).run table = .ok c.file table
  asked : table.get? name = none →
    (final ((Linking.load name).run table)).asked = Utf8.lenient name :: table.asked
  loaded : ∀ file later, (Linking.load name).run table = .ok file later →
    file.name = .ok name ∧ (∃ c, later.get? name = some c ∧ c.file = file) ∧
      (later = table ∨ table.Adds name file later)
  refused : ∀ stop later, (Linking.load name).run table = .error stop later →
    later.classes = table.classes

structure DefinesRightly (table : ClassTable) (content : Bytes) : Prop where
  defined : ∀ name later, (Linking.define content).run table = .ok name later →
    (∃ c, later.get? name = some c ∧ c.file.name = .ok name) ∧ later.asked = table.asked ∧
      (later = table ∨ ∃ file, ClassFile.parseChecked content = .ok file ∧
        table.Adds name file later)
  refused : ∀ stop later, (Linking.define content).run table = .error stop later → later = table

variable {table : ClassTable}

theorem adds_add {name : Bytes} (file : ClassFile) (hmissing : table.get? name = none) :
    table.Adds name file (table.add name file) where
  before := hmissing
  get?_self := (table.get?_insert name name _).trans (if_pos rfl)
  get?_of_ne other hne := (table.get?_insert name other _).trans (if_neg hne)

theorem loadsRightly (hnamed : ∀ name c, table.get? name = some c → c.file.name = .ok name)
    (name : Bytes) : table.LoadsRightly name := by
  have hrun := Linking.run_load name table
  cases hget : table.get? name with
  | some c =>
    simp only [hget] at hrun
    refine ⟨fun d hd => ?_, fun hnone => ?_, fun file later hok => ?_, fun stop later herror => ?_⟩
    · obtain rfl := Option.some.inj (hget.symm.trans hd)
      exact hrun
    · rw [hget] at hnone
      contradiction
    · obtain ⟨rfl, rfl⟩ := EStateM.Result.ok.inj (hrun.symm.trans hok)
      exact ⟨hnamed name c hget, ⟨c, hget, rfl⟩, .inl rfl⟩
    · exact nomatch hrun.symm.trans herror
  | none =>
    cases hfetch : table.source.fetch name with
    | error fault =>
      simp only [hget, hfetch] at hrun
      refine ⟨fun d hd => ?_, fun _ => ?_, fun file later hok => ?_, fun stop later herror => ?_⟩
      · rw [hget] at hd
        contradiction
      · rw [hrun]
        rfl
      · exact nomatch hrun.symm.trans hok
      · obtain ⟨-, rfl⟩ := EStateM.Result.error.inj (hrun.symm.trans herror)
        rfl
    | ok found =>
      simp only [hget, hfetch] at hrun
      have hadds : (table.ask name).Adds name found ((table.ask name).add name found) :=
        adds_add found hget
      refine ⟨fun d hd => ?_, fun _ => ?_, fun file later hok => ?_, fun stop later herror => ?_⟩
      · rw [hget] at hd
        contradiction
      · rw [hrun]
        rfl
      · obtain ⟨rfl, rfl⟩ := EStateM.Result.ok.inj (hrun.symm.trans hok)
        refine ⟨(ClassSource.fetch_eq_ok hfetch).2, ⟨_, hadds.get?_self, rfl⟩, .inr ?_⟩
        exact ⟨hget, hadds.get?_self, hadds.get?_of_ne⟩
      · exact nomatch hrun.symm.trans herror

theorem definesRightly (hnamed : ∀ name c, table.get? name = some c → c.file.name = .ok name)
    (content : Bytes) : table.DefinesRightly content := by
  have hrun := Linking.run_define content table
  cases hfile : ClassFile.parseChecked content with
  | error e =>
    simp only [hfile] at hrun
    refine ⟨fun name later hok => ?_, fun stop later herror => ?_⟩
    · rw [hrun] at hok
      contradiction
    · exact (EStateM.Result.error.inj (hrun.symm.trans herror)).2.symm
  | ok file =>
    simp only [hfile] at hrun
    cases hname : file.name with
    | error e =>
      simp only [hname] at hrun
      refine ⟨fun name later hok => ?_, fun stop later herror => ?_⟩
      · rw [hrun] at hok
        contradiction
      · exact (EStateM.Result.error.inj (hrun.symm.trans herror)).2.symm
    | ok found =>
      simp only [hname] at hrun
      refine ⟨fun name later hok => ?_, fun stop later herror => ?_⟩
      · obtain ⟨rfl, rfl⟩ := EStateM.Result.ok.inj (hrun.symm.trans hok)
        cases hget : table.get? found with
        | some c =>
          have hcontains : table.contains found = true := by rw [contains_eq, hget]; rfl
          rw [if_pos hcontains]
          exact ⟨⟨c, hget, hnamed found c hget⟩, rfl, .inl rfl⟩
        | none =>
          have hcontains : ¬ table.contains found = true := by rw [contains_eq, hget]; simp
          have hadds : table.Adds found file (table.add found file) := adds_add file hget
          rw [if_neg hcontains]
          exact ⟨⟨_, hadds.get?_self, hname⟩, rfl, .inr ⟨file, hfile, hadds⟩⟩
      · rw [hrun] at herror
        contradiction

/-- The table holds each class under the name of the class, and goes on doing so. -/
structure Orderly (table : ClassTable) : Prop where
  named : ∀ name c, table.get? name = some c → c.file.name = .ok name
  loads : ∀ name, table.LoadsRightly name
  defines : ∀ content, table.DefinesRightly content

theorem orderly_of_named (hnamed : ∀ name c, table.get? name = some c → c.file.name = .ok name) :
    table.Orderly :=
  ⟨hnamed, loadsRightly hnamed, definesRightly hnamed⟩

end ClassMachine.ClassTable
