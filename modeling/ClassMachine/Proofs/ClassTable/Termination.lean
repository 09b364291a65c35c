import Mathlib.Data.Finset.Option
import ClassMachine.Proofs.ClassTable.Stages
import ClassMachine.Proofs.NameMap

/-!
# Initializations come to an end

An initialization that calls for another one has taken its class out of the verified ones before. A
class that is loaded for it comes in as verified, but it was to be found as such already, since what
the source has does not change. So there are no more calls than classes to be found as verified, and
one: if the class files are in memory these are the ones that are registered, and one at most for
each entry of the source, which can be loaded under no other name than its own.
-/

namespace ClassMachine

open Work

namespace ClassTable

variable {table later last : ClassTable} {name : Bytes} {names : Finset Bytes}

/-- The classes that are registered and have not begun to be initialized. -/
def verified (table : ClassTable) : Finset Bytes :=
  table.classes.names.toFinset.filter fun name =>
    (table.get? name).any fun c => decide (c.state = .verified)

theorem mem_verified_of_get? {c : LoadedClass} (hget : table.get? name = some c)
    (hstate : c.state = .verified) : name ∈ table.verified := by
  have hname : name ∈ table.classes.names := by
    rw [NameMap.mem_names_iff]
    exact congrArg Option.isSome hget
  simp [verified, hname, hget, hstate]

/-- Names are found with the class files that they were found with before, and as verified only if
they were so before. -/
structure Advances (table later : ClassTable) : Prop where
  file : ∀ name, (later.find name).map (·.file) = (table.find name).map (·.file)
  verified : ∀ name d, later.find name = .ok d → d.state = .verified →
    ∃ c, table.find name = .ok c ∧ c.state = .verified

namespace Advances

theorem of_find_eq (h : ∀ name, later.find name = table.find name) : table.Advances later where
  file name := by rw [h]
  verified name d hfind hstate := ⟨d, (h name).symm.trans hfind, hstate⟩

theorem refl (table : ClassTable) : table.Advances table :=
  of_find_eq fun _ => rfl

theorem trans (table later last : ClassTable) (h : table.Advances later)
    (hlast : later.Advances last) : table.Advances last where
  file name := (hlast.file name).trans (h.file name)
  verified name d hfind hstate := by
    obtain ⟨c, hfound, hverified⟩ := hlast.verified name d hfind hstate
    exact h.verified name c hfound hverified

end Advances

/-- A change of one class is seen in what is found under its name, if the class is registered. -/
theorem find_update (table : ClassTable) (name other : Bytes) (change : LoadedClass → LoadedClass) :
    (table.update name change).find other = table.find other ∨
      ∃ c, table.find other = .ok c ∧ (table.update name change).find other = .ok (change c) := by
  have hsame (h : (table.update name change).get? other = table.get? other) :
      (table.update name change).find other = table.find other := by
    simp only [find, h, source_update]
  by_cases hother : other = name
  · cases hget : table.get? name with
    | none => exact .inl (hsame (by simp [get?_update, hother, hget]))
    | some c =>
      refine .inr ⟨c, find_of_get? (hother ▸ hget), find_of_get? ?_⟩
      simp [get?_update, hother, hget]
  · exact .inl (hsame (by simp [get?_update, hother]))

theorem advances_update (table : ClassTable) (name : Bytes) {change : LoadedClass → LoadedClass}
    (hfile : ∀ c, (change c).file = c.file)
    (hstate : ∀ c, (change c).state = .verified → c.state = .verified) :
    table.Advances (table.update name change) where
  file other := by
    rcases table.find_update name other change with hfind | ⟨c, hfound, hfind⟩
    · rw [hfind]
    · rw [hfind, hfound]
      exact congrArg Except.ok (hfile c)
  verified other d hfind hverified := by
    rcases table.find_update name other change with hsame | ⟨c, hfound, hchanged⟩
    · exact ⟨d, hsame.symm.trans hfind, hverified⟩
    · obtain rfl := Except.ok.inj (hchanged.symm.trans hfind)
      exact ⟨c, hfound, hstate c hverified⟩

theorem advances_setState (table : ClassTable) (name : Bytes) (state : InitState)
    (h : state ≠ .verified) : table.Advances (table.setState name state) :=
  table.advances_update name (fun _ => rfl) fun _ hstate => absurd hstate h

theorem advances_setStatics (table : ClassTable) (name : Bytes) (statics : FieldMap) :
    table.Advances (table.setStatics name statics) :=
  table.advances_update name (fun _ => rfl) fun _ => id

def Pending (names : Finset Bytes) (table : ClassTable) : Prop :=
  ∀ name c, table.find name = .ok c → c.state = .verified → name ∈ names

theorem Pending.advances (h : table.Pending names) (hlater : table.Advances later) :
    later.Pending names := by
  intro name d hfind hstate
  obtain ⟨c, hfound, hverified⟩ := hlater.verified name d hfind hstate
  exact h name c hfound hverified

theorem Pending.enter (h : table.Pending names) {c : LoadedClass}
    (hget : table.get? name = some c) :
    (table.setState name .inProgress).Pending (names.erase name) := by
  intro other d hfind hstate
  have hne : other ≠ name := by
    rintro rfl
    have hentered := find_of_get? (changes_setState .inProgress hget).get?_self
    obtain rfl := Except.ok.inj (hentered.symm.trans hfind)
    contradiction
  exact Finset.mem_erase.2
    ⟨hne, h.advances (advances_setState table name .inProgress (by decide)) other d hfind hstate⟩

end ClassTable

namespace MemoryClasses

def keys (memory : MemoryClasses) : Finset String :=
  (memory.files.map Prod.fst).toFinset

/-- The name of the class that an entry has the file of, if it has one. -/
def nameAt? (memory : MemoryClasses) (key : String) : Option Bytes := do
  let content ← memory.files.lookup key
  let file ← (ClassFile.parseChecked content).toOption
  file.name.toOption

def names (memory : MemoryClasses) : Finset Bytes :=
  (memory.keys.image memory.nameAt?).eraseNone

theorem card_names_le (memory : MemoryClasses) : memory.names.card ≤ memory.keys.card :=
  (Finset.card_eraseNone_le _).trans Finset.card_image_le

theorem mem_names_of_fetch {memory : MemoryClasses} {name : Bytes} {file : ClassFile}
    (h : memory.source.fetch name = .ok file) : name ∈ memory.names := by
  obtain ⟨content, hread, hfile, hname⟩ := ClassSource.read_of_fetch h
  have hlookup : memory.files.lookup (ClassSource.slashed (Utf8.lenient name)) = some content :=
    Except.ok.inj hread
  have hkey : ClassSource.slashed (Utf8.lenient name) ∈ memory.keys :=
    List.mem_toFinset.2 (List.mem_map_of_mem (f := Prod.fst) (ClassTable.mem_of_lookup hlookup))
  refine Finset.mem_eraseNone.2 (Finset.mem_image.2 ⟨_, hkey, ?_⟩)
  simp [nameAt?, hlookup, hfile, hname, Except.toOption]

end MemoryClasses

theorem ClassTable.pending_union {table : ClassTable} {memory : MemoryClasses}
    (hsource : table.source = memory.source) : table.Pending (table.verified ∪ memory.names) := by
  intro name c hfind hstate
  rcases cases_of_find hfind with hget | ⟨-, hfetch, -⟩
  · exact Finset.mem_union_left _ (mem_verified_of_get? hget hstate)
  · exact Finset.mem_union_right _ (MemoryClasses.mem_names_of_fetch (hsource ▸ hfetch))

namespace Linking

open ClassTable

variable {table entered : ClassTable} {depth : Nat} {name super : Bytes} {names : Finset Bytes}

theorem load_advances (name : Bytes) : Within Advances (load name) := by
  intro table
  obtain ⟨later, hstage, hrun⟩ := run_load_find name table
  have hlater : table.Advances later := .of_find_eq fun other => hstage.find_eq (Set.notMem_empty _)
  rw [hrun]
  cases table.find name <;> exact hlater

theorem prepareStatics_advances (name : Bytes) : Within Advances (prepareStatics name) := by
  apply (lookup_within Advances.refl name).bind Advances.trans
  intro c
  split
  · exact fun table => advances_setStatics table name _
  · refine Within.bind Advances.trans (fun table => ?_) fun _ => within_throw Advances.refl _
    exact advances_setStatics table name _

theorem initClass_advances (depth : Nat) (name : Bytes) : Within Advances (initClass depth name) :=
  initClass_within Advances.refl Advances.trans load_advances advances_setState
    prepareStatics_advances depth name

/-- The superclass for which the initialization of a class calls itself, and the table by then. -/
def nextCall (name : Bytes) (table : ClassTable) : Option (Bytes × ClassTable) :=
  match table.get? name with
  | none => none
  | some c =>
    match c.state, c.file.parent with
    | .verified, some super =>
      match (load super).run (table.setState name .inProgress) with
      | .ok _ entered => some (super, entered)
      | .error _ _ => none
    | _, _ => none

/-- The classes for which an initialization is called, from the first call on. -/
def initCalls : (depth : Nat) → (name : Bytes) → ClassTable → List Bytes
  | 0, _, _ => []
  | depth + 1, name, table =>
    name ::
      match nextCall name table with
      | some (super, entered) => initCalls depth super entered
      | none => []

theorem not_gaveUp_load (name : Bytes) (table : ClassTable) : ¬ GaveUp ((load name).run table) := by
  obtain ⟨later, -, hrun⟩ := run_load_find name table
  rw [hrun]
  cases table.find name <;> simp

theorem not_gaveUp_prepareStatics (name : Bytes) (table : ClassTable) :
    ¬ GaveUp ((prepareStatics name).run table) := by
  simp only [prepareStatics, EStateM.run_bind, run_lookup]
  cases table.get? name with
  | none => simp
  | some c =>
    simp only
    cases (c.file.fillStatics c.file.staticFields).run c.statics <;> simp [EStateM.run_bind]

theorem gaveUp_withSuperclass_iff {file : ClassFile} {next : Bytes → Linking Unit} :
    GaveUp ((withSuperclass file next).run table) ↔
      ∃ super found entered, file.parent = some super ∧
        (load super).run table = .ok found entered ∧ GaveUp ((next super).run entered) := by
  rw [run_withSuperclass]
  simp only [ClassFile.parent_eq_some_iff]
  cases hinterface : file.isInterface with
  | true => simp
  | false =>
    cases hsuper : file.superName with
    | error e => simp
    | ok super =>
      cases super with
      | none => simp
      | some super =>
        have hload := not_gaveUp_load super table
        cases hrun : (load super).run table with
        | error stop later =>
          rw [hrun, gaveUp_error_iff] at hload
          simp [hrun, hload]
        | ok found later => simp [hrun]

theorem nextCall_eq_some_iff :
    nextCall name table = some (super, entered) ↔
      ∃ c found, table.get? name = some c ∧ c.state = .verified ∧ c.file.parent = some super ∧
        (load super).run (table.setState name .inProgress) = .ok found entered := by
  unfold nextCall
  cases hget : table.get? name with
  | none => simp
  | some c =>
    cases hstate : c.state with
    | done | inProgress | failed => simp [hstate]
    | verified =>
      cases hparent : c.file.parent with
      | none => simp [hparent]
      | some above =>
        by_cases hsuper : above = super
        · cases hload : (load super).run (table.setState name .inProgress) <;>
            simp [hstate, hparent, hsuper, hload]
        · cases hload : (load above).run (table.setState name .inProgress) <;>
            simp [hstate, hparent, hsuper, hload]

theorem gaveUp_initClass_iff :
    GaveUp ((initClass (depth + 1) name).run table) ↔
      ∃ super entered, nextCall name table = some (super, entered) ∧
        GaveUp ((initClass depth super).run entered) := by
  simp only [nextCall_eq_some_iff]
  cases hget : table.get? name with
  | none => simp [initClass, EStateM.run_bind, run_lookup, hget]
  | some c =>
    cases hstate : c.state with
    | done => simp [run_initClass_settled hget (.inl hstate), hstate]
    | inProgress => simp [run_initClass_settled hget (.inr hstate), hstate]
    | failed => simp [run_initClass_failed hget hstate, hstate]
    | verified =>
      have hup : GaveUp ((initClass (depth + 1) name).run table) ↔
          GaveUp ((withSuperclass c.file (initClass depth)).run
            (table.setState name .inProgress)) := by
        rw [run_initClass_verified hget hstate]
        cases (withSuperclass c.file (initClass depth)).run (table.setState name .inProgress) with
        | error stop later => cases stop <;> simp
        | ok _ later =>
          have hprepare := not_gaveUp_prepareStatics name later
          cases hrun : (prepareStatics name).run later with
          | error stop last =>
            rw [hrun, gaveUp_error_iff] at hprepare
            cases stop <;> simp_all
          | ok _ last => simp [hrun]
      rw [hup, gaveUp_withSuperclass_iff]
      constructor
      · rintro ⟨super, found, entered, hparent, hload, hdeep⟩
        exact ⟨super, entered, ⟨c, found, rfl, hstate, hparent, hload⟩, hdeep⟩
      · rintro ⟨super, entered, ⟨d, found, hd, -, hparent, hload⟩, hdeep⟩
        obtain rfl := Option.some.inj hd
        exact ⟨super, found, entered, hparent, hload, hdeep⟩

theorem initCalls_of_none (hnext : nextCall name table = none) :
    initCalls (depth + 1) name table = [name] := by
  rw [initCalls, hnext]

theorem initCalls_of_some (hnext : nextCall name table = some (super, entered)) :
    initCalls (depth + 1) name table = name :: initCalls depth super entered := by
  rw [initCalls, hnext]

/-- An initialization gives up if there are more calls than it may nest. -/
theorem gaveUp_initClass_iff_length :
    GaveUp ((initClass depth name).run table) ↔
      (initCalls (depth + 1) name table).length = depth + 1 := by
  induction depth generalizing name table with
  | zero =>
    have hlength : (initCalls 1 name table).length = 1 := by
      cases hnext : nextCall name table with
      | none => rw [initCalls_of_none hnext, List.length_singleton]
      | some next => rw [initCalls_of_some hnext, initCalls, List.length_singleton]
    exact iff_of_true ⟨table, rfl⟩ hlength
  | succ depth ih =>
    rw [gaveUp_initClass_iff]
    cases hnext : nextCall name table with
    | none => simp [initCalls_of_none hnext]
    | some next =>
      obtain ⟨super, entered⟩ := next
      simp [initCalls_of_some hnext, ih]

/-- A call is for a class that is pending, and leaves one class less. -/
theorem pending_of_nextCall (h : table.Pending names)
    (hnext : nextCall name table = some (super, entered)) :
    name ∈ names ∧ entered.Pending (names.erase name) := by
  obtain ⟨c, found, hget, hstate, -, hload⟩ := nextCall_eq_some_iff.1 hnext
  exact ⟨h name c (find_of_get? hget) hstate,
    (h.enter hget).advances ((load_advances super).ok hload)⟩

theorem length_initCalls_le (h : table.Pending names) (depth : Nat) (name : Bytes) :
    (initCalls depth name table).length ≤ names.card + 1 := by
  induction depth generalizing table name names with
  | zero => exact Nat.zero_le _
  | succ depth ih =>
    cases hnext : nextCall name table with
    | none => simp [initCalls_of_none hnext]
    | some next =>
      obtain ⟨super, entered⟩ := next
      obtain ⟨hname, hentered⟩ := pending_of_nextCall h hnext
      have hless := Finset.card_erase_add_one hname
      rw [initCalls_of_some hnext, List.length_cons, ← hless]
      exact Nat.succ_le_succ (ih hentered super)

/-- With enough depth for the pending classes an initialization does not give up. -/
theorem not_gaveUp_initClass (h : table.Pending names) (hdepth : names.card < depth)
    (name : Bytes) : ¬ GaveUp ((initClass depth name).run table) := by
  rw [gaveUp_initClass_iff_length]
  have hlength := length_initCalls_le h (depth + 1) name
  omega

theorem take_initCalls (depth more : Nat) (name : Bytes) (table : ClassTable) :
    (initCalls (depth + more) name table).take depth = initCalls depth name table := by
  induction depth generalizing name table with
  | zero => rfl
  | succ depth ih =>
    rw [Nat.add_right_comm]
    cases hnext : nextCall name table with
    | none =>
      rw [initCalls_of_none hnext, initCalls_of_none hnext, List.take_succ_cons, List.take_nil]
    | some next =>
      rw [initCalls_of_some hnext, initCalls_of_some hnext, List.take_succ_cons, ih]

/-- With class files in memory there is a list of the calls that an initialization comes to, no
longer than there are registered classes that are verified and entries of the source, and one. It
gives up if that is more than it may nest, and otherwise comes to one and the same result. -/
theorem initClass_calls {memory : MemoryClasses} (hsource : table.source = memory.source)
    (name : Bytes) :
    ∃ (calls : List Bytes) (result : EStateM.Result Stop ClassTable Unit),
      calls.length ≤ table.verified.card + memory.keys.card + 1 ∧
      ¬ GaveUp result ∧ ∀ depth, initCalls depth name table = calls.take depth ∧
        (GaveUp ((initClass depth name).run table) ↔ depth < calls.length) ∧
        (calls.length ≤ depth → (initClass depth name).run table = result) := by
  have hpending := pending_union hsource
  generalize hnames : table.verified ∪ memory.names = names at hpending
  have hcard : names.card ≤ table.verified.card + memory.keys.card := by
    rw [← hnames]
    exact (Finset.card_union_le _ _).trans (Nat.add_le_add_left memory.card_names_le _)
  have hlength (depth : Nat) := length_initCalls_le hpending depth name
  -- With depth for one call more than there are pending classes, all calls are seen.
  have hcalls (depth : Nat) :
      initCalls depth name table = (initCalls (names.card + 1) name table).take depth := by
    rcases Nat.le_total depth (names.card + 1) with hle | hle
    · obtain ⟨more, hmore⟩ := Nat.exists_eq_add_of_le hle
      rw [hmore, take_initCalls]
    · obtain ⟨more, rfl⟩ := Nat.exists_eq_add_of_le hle
      rw [← take_initCalls (names.card + 1) more, List.take_of_length_le (hlength _),
        List.take_of_length_le ((hlength _).trans hle)]
  have hup (depth : Nat) : GaveUp ((initClass depth name).run table) ↔
      depth < (initCalls (names.card + 1) name table).length := by
    rw [gaveUp_initClass_iff_length, hcalls, List.length_take]
    omega
  have hend := not_gaveUp_initClass hpending (Nat.lt_succ_self _) name
  refine ⟨initCalls (names.card + 1) name table, (initClass (names.card + 1) name).run table,
    (hlength _).trans (Nat.succ_le_succ hcard), hend, fun depth => ⟨hcalls depth, hup depth, ?_⟩⟩
  intro hdepth
  have hnot : ¬ GaveUp ((initClass depth name).run table) := by
    rw [hup]
    omega
  rw [← initClass_add hnot (names.card + 1), Nat.add_comm, initClass_add hend]

def heirs : MemoryClasses := ⟨[("B",
  [0xca, 0xfe, 0xba, 0xbe, 0x00, 0x00, 0x00, 0x34, 0x00, 0x05, 0x01, 0x00, 0x01, 0x42, 0x07, 0x00,
    0x01, 0x01, 0x00, 0x01, 0x41, 0x07, 0x00, 0x03, 0x00, 0x21, 0x00, 0x02, 0x00, 0x04, 0x00, 0x00,
    0x00, 0x00, 0x00, 0x00, 0x00, 0x00])]⟩

/-- A class A, whose superclass is the class B in memory. -/
def halfRing : ClassTable where
  classes := NameMap.empty.insert [65] { file := plainFile [65] [66] }
  source := heirs.source

/-- The cycle is come to for A, B and A again, which is as often as can be. -/
theorem initClass_calls_halfRing :
    halfRing.source = heirs.source ∧ halfRing.verified.card + heirs.keys.card + 1 = 3 ∧
      initCalls 3 [65] halfRing = [[65], [66], [65]] ∧
      ¬ GaveUp ((initClass 3 [65]).run halfRing) := by
  have hcount : halfRing.verified.card + heirs.keys.card + 1 = 3 := by decide +kernel
  have hsource : halfRing.source = heirs.source := rfl
  obtain ⟨calls, result, hlength, -, hdepth⟩ := initClass_calls hsource [65]
  rw [hcount] at hlength
  obtain ⟨-, hup, -⟩ := hdepth 3
  refine ⟨hsource, hcount, by decide +kernel, fun hgaveUp => ?_⟩
  have hmore := hup.1 hgaveUp
  omega

end Linking

end ClassMachine
