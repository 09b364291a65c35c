import ClassMachine.Proofs.ClassFile.Slots
import ClassMachine.Proofs.ClassTable.Initialization

/-!
# What a class has after its first initialization

A class is in progress while its superclass is initialized. Whatever is initialized meanwhile, a
class that is in progress stays as it is, so the class gets its static fields just as its file says.
With this it is known of a checked class file what becomes of all of its fields.
-/

namespace ClassMachine

open Work

namespace ClassTable

def KeepsBusy (table later : ClassTable) : Prop :=
  ∀ name c, table.get? name = some c → c.state = .inProgress → later.get? name = some c

theorem KeepsBusy.refl (table : ClassTable) : table.KeepsBusy table :=
  fun _ _ h _ => h

theorem KeepsBusy.trans (first second third : ClassTable) (h : first.KeepsBusy second)
    (hthird : second.KeepsBusy third) : first.KeepsBusy third :=
  fun name c hget hstate => hthird name c (h name c hget hstate) hstate

theorem keepsBusy_of_ne {table later : ClassTable} {name : Bytes} {c : LoadedClass}
    (hget : table.get? name = some c) (hstate : c.state ≠ .inProgress)
    (hother : ∀ other d, other ≠ name → table.get? other = some d → d.state = .inProgress →
      later.get? other = some d) : table.KeepsBusy later := by
  intro other d hd hbusy
  by_cases heq : other = name
  · subst heq
    obtain rfl := Option.some.inj (hget.symm.trans hd)
    contradiction
  · exact hother other d heq hd hbusy

end ClassTable

namespace Linking

open ClassTable

theorem load_keepsBusy (name : Bytes) : Within KeepsBusy (load name) :=
  (load_extends name).mono fun _ _ h other c hget _ => h.kept other c hget

theorem get?_prepareStatics {name other : Bytes} (hne : other ≠ name) (table : ClassTable) :
    (final ((prepareStatics name).run table)).get? other = table.get? other := by
  simp only [prepareStatics, EStateM.run_bind, run_lookup]
  cases table.get? name with
  | none => rfl
  | some c =>
    simp only
    cases (c.file.fillStatics c.file.staticFields).run c.statics <;>
      exact (get?_setStatics ..).trans (if_neg hne)

theorem get?_of_run_verified {depth : Nat} {name other : Bytes} (hne : other ≠ name)
    {table : ClassTable} {c : LoadedClass} (hget : table.get? name = some c)
    (hstate : c.state = .verified) :
    (final ((initClass (depth + 1) name).run table)).get? other =
      (final ((withSuperclass c.file (initClass depth)).run
        (table.setState name .inProgress))).get? other := by
  have hset (later : ClassTable) (state : InitState) :
      (later.setState name state).get? other = later.get? other := by
    rw [get?_setState, if_neg hne]
  rw [run_initClass_verified hget hstate]
  cases (withSuperclass c.file (initClass depth)).run (table.setState name .inProgress) with
  | error stop later =>
    cases stop with
    | fault fault => exact hset later .failed
    | tooDeep => rfl
  | ok done later =>
    have hprepared := get?_prepareStatics hne later
    simp only
    cases hstatics : (prepareStatics name).run later with
    | ok done last =>
      rw [hstatics] at hprepared
      exact (hset last .done).trans hprepared
    | error stop last =>
      rw [hstatics] at hprepared
      cases stop with
      | fault fault => exact (hset last .failed).trans hprepared
      | tooDeep => exact hprepared

/-- An initialization leaves the classes in progress alone. -/
theorem initClass_keepsBusy (depth : Nat) (name : Bytes) :
    Within KeepsBusy (initClass depth name) := by
  induction depth generalizing name with
  | zero => exact within_throw KeepsBusy.refl _
  | succ depth ih =>
    intro table
    cases hget : table.get? name with
    | none =>
      have hmissing : (initClass (depth + 1) name).run table =
          .error (.fault (.resolution (.classNotFound (Utf8.lenient name)))) table := by
        simp only [initClass, EStateM.run_bind, run_lookup, hget]
      rw [hmissing]
      exact KeepsBusy.refl table
    | some c =>
      cases hstate : c.state with
      | done =>
        rw [run_initClass_settled hget (.inl hstate)]
        exact KeepsBusy.refl table
      | inProgress =>
        rw [run_initClass_settled hget (.inr hstate)]
        exact KeepsBusy.refl table
      | failed =>
        rw [run_initClass_failed hget hstate]
        exact KeepsBusy.refl table
      | verified =>
        -- It was verified, so it is none of the classes that have been in progress.
        refine keepsBusy_of_ne hget (by simp [hstate]) fun other d hne hd hbusy => ?_
        have hentered : (table.setState name .inProgress).get? other = some d := by
          rw [get?_setState, if_neg hne, hd]
        rw [get?_of_run_verified hne hget hstate]
        exact withSuperclass_within KeepsBusy.refl KeepsBusy.trans load_keepsBusy c.file ih
          (table.setState name .inProgress) other d hentered hbusy

/-- A class that had no static fields yet has them as its file says, once it has been initialized.
-/
theorem get?_of_run_initClass {file : ClassFile} (hcheck : file.check = .ok ()) {depth : Nat}
    {name : Bytes} {table later : ClassTable} (hget : table.get? name = some { file })
    (hrun : (initClass depth name).run table = .ok () later) :
    later.get? name = some { file, state := .done, statics := file.filled .empty } := by
  cases depth with
  | zero => contradiction
  | succ depth =>
    rw [run_initClass_verified hget rfl] at hrun
    have hentered := (changes_setState .inProgress hget).get?_self
    have hsuper := withSuperclass_within KeepsBusy.refl KeepsBusy.trans load_keepsBusy file
      (initClass_keepsBusy depth) (table.setState name .inProgress) name _ hentered rfl
    cases hparent : (withSuperclass file (initClass depth)).run
        (table.setState name .inProgress) with
    | error stop middle =>
      rw [hparent] at hrun
      cases stop <;> contradiction
    | ok done middle =>
      rw [hparent] at hsuper hrun
      have hmiddle : middle.get? name = some { file, state := .inProgress } := hsuper
      have hprepare := run_prepareStatics hmiddle hcheck
      simp only [hprepare] at hrun
      obtain ⟨-, rfl⟩ := EStateM.Result.ok.inj hrun
      exact (changes_finish (file.filled .empty) hmiddle).get?_self

end Linking

namespace ClassFile

/-- In a class file that has been read and checked, a new object has one slot for all of its fields
of one name, with the value of the last one, and the static fields of one name get one slot, with
the value of the first one. Exactly if no two of them have one name there is a slot for each field;
then what is found under a name in a new object is what the first field of that name starts with. -/
theorem slots_of_parseChecked {content : Bytes} {file : ClassFile}
    (h : parseChecked content = .ok file) :
    (∃ slots, file.newInstance = .ok slots ∧
      file.Allotted file.instanceFields (file.lastValue file.instanceFields) slots ∧
      ((file.fieldNames file.instanceFields).Nodup → ∀ name place field value,
        file.fieldIndex? name = some place → file.fields[place]? = some field →
          field.flags.isStatic = false → file.initialValue field = .ok value →
            slots.get? name = some value)) ∧
    ∀ table depth name later, table.get? name = some { file } →
      (Linking.initClass depth name).run table = .ok () later →
        ∃ statics, later.get? name = some { file, state := .done, statics } ∧
          file.Allotted file.staticFields file.initialStatic statics := by
  have hcheck := ((parseChecked_eq_ok_iff content file).1 h).2
  constructor
  · obtain ⟨slots, hslots, hallotted⟩ := exists_newInstance hcheck
    refine ⟨slots, hslots, hallotted, fun hnodup name place field value hplace hfield hstatic => ?_⟩
    exact (hallotted.oneEach.2 hnodup).get?_of_fieldIndex? hplace hfield hstatic
  · intro table depth name later hget hrun
    obtain ⟨statics, hfill, hallotted⟩ := exists_fillStatics hcheck
    have hfilled : file.filled .empty = statics := by
      rw [filled, hfill]
      rfl
    exact ⟨statics, hfilled ▸ Linking.get?_of_run_initClass hcheck hget hrun, hallotted⟩

/-- The class Pair with fields x and y, which start with an int 1 and a long 2, and a static field
z, which starts with 3. -/
def pairBytes : Bytes :=
  [0xca, 0xfe, 0xba, 0xbe, 0x00, 0x00, 0x00, 0x34, 0x00, 0x0d, 0x01, 0x00, 0x04, 0x50, 0x61, 0x69,
    0x72, 0x07, 0x00, 0x01, 0x03, 0x00, 0x00, 0x00, 0x01, 0x01, 0x00, 0x0d, 0x43, 0x6f, 0x6e, 0x73,
    0x74, 0x61, 0x6e, 0x74, 0x56, 0x61, 0x6c, 0x75, 0x65, 0x01, 0x00, 0x01, 0x78, 0x01, 0x00, 0x01,
    0x49, 0x05, 0x00, 0x00, 0x00, 0x00, 0x00, 0x00, 0x00, 0x02, 0x01, 0x00, 0x01, 0x79, 0x01, 0x00,
    0x01, 0x4a, 0x03, 0x00, 0x00, 0x00, 0x03, 0x01, 0x00, 0x01, 0x7a, 0x00, 0x21, 0x00, 0x02, 0x00,
    0x00, 0x00, 0x00, 0x00, 0x03, 0x00, 0x01, 0x00, 0x05, 0x00, 0x06, 0x00, 0x01, 0x00, 0x04, 0x00,
    0x00, 0x00, 0x02, 0x00, 0x03, 0x00, 0x01, 0x00, 0x09, 0x00, 0x0a, 0x00, 0x01, 0x00, 0x04, 0x00,
    0x00, 0x00, 0x02, 0x00, 0x07, 0x00, 0x09, 0x00, 0x0c, 0x00, 0x06, 0x00, 0x01, 0x00, 0x04, 0x00,
    0x00, 0x00, 0x02, 0x00, 0x0b, 0x00, 0x00, 0x00, 0x00]

def pairFile : ClassFile where
  majorVersion := 52
  pool := ⟨#[.utf8 (Utf8.encode "Pair"), .classEntry 0, .integer 1,
    .utf8 (Utf8.encode "ConstantValue"), .utf8 [120], .utf8 [73], .long 2, .empty,
    .utf8 [121], .utf8 [74], .integer 3, .utf8 [122]]⟩
  flags := ⟨0x21⟩
  thisClass := 1
  fields := [
    { flags := ⟨1⟩, name := 4, descriptor := 5, attributes := [.plain (.constantValue 2)] },
    { flags := ⟨1⟩, name := 8, descriptor := 9, attributes := [.plain (.constantValue 6)] },
    { flags := ⟨9⟩, name := 11, descriptor := 5, attributes := [.plain (.constantValue 10)] }]

theorem parseChecked_pair : parseChecked pairBytes = .ok pairFile := by
  decide +kernel

def pairTable : ClassTable where
  classes := NameMap.empty.insert (Utf8.encode "Pair") { file := pairFile }

theorem run_initClass_pairTable : ∃ later,
    (Linking.initClass 1 (Utf8.encode "Pair")).run pairTable = .ok () later :=
  ⟨_, rfl⟩

theorem slots_of_parseChecked_pair :
    (∃ slots, pairFile.newInstance = .ok slots ∧
      pairFile.OneSlotEach pairFile.instanceFields slots ∧
      slots.get? [120] = some (.int 1)) ∧
    ∃ later statics, (Linking.initClass 1 (Utf8.encode "Pair")).run pairTable = .ok () later ∧
      later.get? (Utf8.encode "Pair") = some { file := pairFile, state := .done, statics } ∧
      pairFile.OneSlotEach pairFile.staticFields statics := by
  obtain ⟨⟨slots, hslots, hallotted, hfirst⟩, hinit⟩ := slots_of_parseChecked parseChecked_pair
  obtain ⟨later, hrun⟩ := run_initClass_pairTable
  obtain ⟨statics, hstatics, hfilled⟩ :=
    hinit pairTable 1 (Utf8.encode "Pair") later (by decide +kernel) hrun
  have hinstances : (pairFile.fieldNames pairFile.instanceFields).Nodup := by decide +kernel
  have hstatic : (pairFile.fieldNames pairFile.staticFields).Nodup := by decide +kernel
  refine ⟨⟨slots, hslots, hallotted.oneEach.2 hinstances, ?_⟩, later, statics, hrun, hstatics,
    hfilled.oneEach.2 hstatic⟩
  exact hfirst hinstances [120] 0 _ _ (by decide +kernel) rfl rfl rfl

/-- The class Twice with two fields x, which start with an int 1 and a long 2, and two static fields
y, which start with an int 3 and a long 4. -/
def twiceBytes : Bytes :=
  [0xca, 0xfe, 0xba, 0xbe, 0x00, 0x00, 0x00, 0x34, 0x00, 0x0e, 0x01, 0x00, 0x05, 0x54, 0x77, 0x69,
    0x63, 0x65, 0x07, 0x00, 0x01, 0x03, 0x00, 0x00, 0x00, 0x01, 0x01, 0x00, 0x0d, 0x43, 0x6f, 0x6e,
    0x73, 0x74, 0x61, 0x6e, 0x74, 0x56, 0x61, 0x6c, 0x75, 0x65, 0x01, 0x00, 0x01, 0x78, 0x01, 0x00,
    0x01, 0x49, 0x05, 0x00, 0x00, 0x00, 0x00, 0x00, 0x00, 0x00, 0x02, 0x01, 0x00, 0x01, 0x4a, 0x03,
    0x00, 0x00, 0x00, 0x03, 0x01, 0x00, 0x01, 0x79, 0x05, 0x00, 0x00, 0x00, 0x00, 0x00, 0x00, 0x00,
    0x04, 0x00, 0x21, 0x00, 0x02, 0x00, 0x00, 0x00, 0x00, 0x00, 0x04, 0x00, 0x01, 0x00, 0x05, 0x00,
    0x06, 0x00, 0x01, 0x00, 0x04, 0x00, 0x00, 0x00, 0x02, 0x00, 0x03, 0x00, 0x01, 0x00, 0x05, 0x00,
    0x09, 0x00, 0x01, 0x00, 0x04, 0x00, 0x00, 0x00, 0x02, 0x00, 0x07, 0x00, 0x09, 0x00, 0x0b, 0x00,
    0x06, 0x00, 0x01, 0x00, 0x04, 0x00, 0x00, 0x00, 0x02, 0x00, 0x0a, 0x00, 0x09, 0x00, 0x0b, 0x00,
    0x09, 0x00, 0x01, 0x00, 0x04, 0x00, 0x00, 0x00, 0x02, 0x00, 0x0c, 0x00, 0x00, 0x00, 0x00]

def twiceFile : ClassFile where
  majorVersion := 52
  pool := ⟨#[.utf8 (Utf8.encode "Twice"), .classEntry 0, .integer 1,
    .utf8 (Utf8.encode "ConstantValue"), .utf8 [120], .utf8 [73], .long 2, .empty,
    .utf8 [74], .integer 3, .utf8 [121], .long 4, .empty]⟩
  flags := ⟨0x21⟩
  thisClass := 1
  fields := [
    { flags := ⟨1⟩, name := 4, descriptor := 5, attributes := [.plain (.constantValue 2)] },
    { flags := ⟨1⟩, name := 4, descriptor := 8, attributes := [.plain (.constantValue 6)] },
    { flags := ⟨9⟩, name := 10, descriptor := 5, attributes := [.plain (.constantValue 9)] },
    { flags := ⟨9⟩, name := 10, descriptor := 8, attributes := [.plain (.constantValue 11)] }]

/-- Two fields of one name are accepted. A new object has one slot for both, in which the first of
them, which is the one to be found under the name, does not start with its value; and the second of
the static fields does not start with its own. -/
theorem exists_shared_slot : parseChecked twiceBytes = .ok twiceFile ∧
    twiceFile.instanceFields.length = 2 ∧
    (∃ slots field, twiceFile.newInstance = .ok slots ∧ slots.size = 1 ∧
      (twiceFile.fieldIndex? [120]).bind (twiceFile.fields[·]?) = some field ∧
      field.flags.isStatic = false ∧
      twiceFile.initialValue field = .ok (.int 1) ∧ slots.get? [120] = some (.of (.long 2))) ∧
    ∃ slots, (twiceFile.fillStatics twiceFile.staticFields).run .empty = .ok () slots ∧
      ¬ twiceFile.OneSlotEach twiceFile.staticFields slots := by
  have hparse : parseChecked twiceBytes = .ok twiceFile := by decide +kernel
  have hcheck := ((parseChecked_eq_ok_iff _ _).1 hparse).2
  obtain ⟨slots, hslots, hallotted⟩ := exists_fillStatics hcheck
  have htwice : ¬ (twiceFile.fieldNames twiceFile.staticFields).Nodup := by decide +kernel
  refine ⟨hparse, rfl, ⟨_, _, rfl, rfl, rfl, rfl, rfl, rfl⟩, slots, hslots, ?_⟩
  rwa [hallotted.oneEach]

end ClassFile

end ClassMachine
