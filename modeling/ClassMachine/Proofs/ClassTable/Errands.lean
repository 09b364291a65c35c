import ClassMachine.Proofs.ClassTable.Stages

/-!
# Classes in any order

An errand has a class loaded, or loaded and initialized, and those that fail do not keep others from
being run. The names that are asked for say what the table becomes, so neither their order nor
repetitions matter.
-/

namespace ClassMachine

open Work ClassTable

/-- The class is the same, and its static fields have the same values. -/
structure LoadedClass.Same (c d : LoadedClass) : Prop where
  file : d.file = c.file
  state : d.state = c.state
  statics : ∀ field, d.statics.get? field = c.statics.get? field

theorem LoadedClass.Same.refl (c : LoadedClass) : c.Same c :=
  ⟨rfl, rfl, fun _ => rfl⟩

namespace ClassTable

variable {table later last : ClassTable} {loaded settled : Set Bytes} {name : Bytes}
  {c d e : LoadedClass}

theorem Finished.same (h : table.Finished name c d) (hother : table.Finished name c e) :
    d.Same e := by
  rcases h with ⟨hdoomed, rfl⟩ | ⟨hnot, hfile, hdone, hstatics⟩
  · rcases hother with ⟨-, rfl⟩ | ⟨hnot, -⟩
    · exact LoadedClass.Same.refl _
    · exact absurd hdoomed hnot
  · rcases hother with ⟨hdoomed, -⟩ | ⟨-, hfile', hdone', hstatics'⟩
    · exact absurd hdoomed hnot
    · exact ⟨hfile'.trans hfile.symm, hdone'.trans hdone.symm, fun field =>
        (hstatics' field).trans (hstatics field).symm⟩

theorem Stage.same_of_mem {others more : Set Bytes} (h : table.Stage loaded settled later)
    (hlast : table.Stage others more last) (hname : name ∈ settled) (hmore : name ∈ more) :
    ∃ d e, later.get? name = some d ∧ last.get? name = some e ∧ d.Same e := by
  obtain ⟨c, d, hfind, -, hget, hfinished⟩ := h.settles name hname
  obtain ⟨c', e, hfind', -, hget', hfinished'⟩ := hlast.settles name hmore
  obtain rfl := Except.ok.inj (hfind.symm.trans hfind')
  exact ⟨d, e, hget, hget', hfinished.same hfinished'⟩

def Agree (table later : ClassTable) : Prop :=
  ∀ name, Option.Rel LoadedClass.Same (table.get? name) (later.get? name)

theorem rel_refl (found : Option LoadedClass) : Option.Rel LoadedClass.Same found found := by
  cases found with
  | none => exact .none
  | some c => exact .some (LoadedClass.Same.refl c)

/-- The names that have been loaded and settled determine the classes. -/
theorem Stage.agree (h : table.Stage loaded settled later) (hlast : table.Stage loaded settled last) :
    later.Agree last := by
  intro name
  by_cases hname : name ∈ settled
  · obtain ⟨d, e, hget, hget', hsame⟩ := h.same_of_mem hlast hname hname
    rw [hget, hget']
    exact .some hsame
  · have hget : last.get? name = later.get? name := by
      by_cases hloaded : name ∈ loaded
      · rw [h.loads name hname hloaded, hlast.loads name hname hloaded]
      · rw [h.outside name hname hloaded, hlast.outside name hname hloaded]
    rw [hget]
    exact rel_refl _

end ClassTable

/-- What may be asked for beforehand. -/
inductive Errand where
  | load (name : Bytes)
  | init (name : Bytes)

namespace Errand

def work (depth : Nat) : Errand → Linking Unit
  | load name => discard (Linking.load name)
  | init name => Linking.enter depth name

def runAll (depth : Nat) : List Errand → Linking Unit
  | [] => return
  | errand :: errands => do
    match ← attempt (errand.work depth) with
    | .error .tooDeep => throw .tooDeep
    | _ => runAll depth errands

def loading (errands : List Errand) : Set Bytes :=
  {name | load name ∈ errands}

/-- The classes that are initialized along with those that are asked for. -/
def settling (table : ClassTable) (errands : List Errand) : Set Bytes :=
  {name | ∃ start, init start ∈ errands ∧ table.Ahead start name}

def loads : Errand → Set Bytes
  | load name => {name}
  | init _ => ∅

def settles (table : ClassTable) : Errand → Set Bytes
  | load _ => ∅
  | init name => {other | table.Ahead name other}

variable {table later : ClassTable} {names : List Bytes} {loaded settled : Set Bytes} {depth : Nat}

@[simp]
theorem loading_nil : loading [] = ∅ := by
  simp [loading]

@[simp]
theorem loading_cons (errand : Errand) (errands : List Errand) :
    loading (errand :: errands) = errand.loads ∪ loading errands := by
  ext name
  cases errand <;> simp [loading, loads]

@[simp]
theorem settling_nil (table : ClassTable) : settling table [] = ∅ := by
  simp [settling]

@[simp]
theorem settling_cons (table : ClassTable) (errand : Errand) (errands : List Errand) :
    settling table (errand :: errands) = errand.settles table ∪ settling table errands := by
  ext name
  cases errand <;> simp [settling, settles, or_and_right, exists_or]

theorem run_runAll_cons (errand : Errand) (errands : List Errand) {last : ClassTable}
    (h : (errand.work depth).run later = .ok () last ∨
      ∃ fault, (errand.work depth).run later = .error (.fault fault) last) :
    (runAll depth (errand :: errands)).run later = (runAll depth errands).run last := by
  rcases h with h | ⟨fault, h⟩ <;>
    simp only [runAll, EStateM.run_bind, run_attempt, h]

/-- One errand adds its own names to the stage, whether it succeeds or fails. -/
theorem run_work (hcovers : table.Covers names) (htable : table.Checked) (hidle : table.Idle)
    (hdepth : names.length < depth) (errand : Errand) (h : table.Stage loaded settled later) :
    ∃ last, table.Stage (loaded ∪ errand.loads) (settled ∪ errand.settles table) last ∧
      ((errand.work depth).run later = .ok () last ∨
        ∃ fault, (errand.work depth).run later = .error (.fault fault) last) := by
  cases errand with
  | load name =>
    obtain ⟨last, hlast, hrun⟩ := h.run_load name
    rw [loads, settles, Set.union_empty]
    refine ⟨last, hlast, ?_⟩
    rw [work, run_discard, hrun]
    cases table.find name with
    | ok c => exact .inl rfl
    | error fault => exact .inr ⟨fault, rfl⟩
  | init name =>
    rw [loads, settles, Set.union_empty]
    rcases h.run_enter hcovers htable hidle depth name with ⟨-, hfew⟩ | ⟨last, hlast, hrun⟩
    · omega
    · refine ⟨last, hlast, ?_⟩
      rcases hrun with ⟨-, hrun⟩ | ⟨fault, -, hrun⟩
      · exact .inl hrun
      · exact .inr ⟨fault, hrun⟩

/-- With enough depth the errands come to an end, and the table is at the stage of their names. -/
theorem run_runAll (hcovers : table.Covers names) (htable : table.Checked) (hidle : table.Idle)
    (hdepth : names.length < depth) (errands : List Errand)
    (h : table.Stage loaded settled later) :
    ∃ last, (runAll depth errands).run later = .ok () last ∧
      table.Stage (loaded ∪ loading errands) (settled ∪ settling table errands) last := by
  induction errands generalizing loaded settled later with
  | nil =>
    rw [loading_nil, settling_nil, Set.union_empty, Set.union_empty]
    exact ⟨later, rfl, h⟩
  | cons errand errands ih =>
    obtain ⟨middle, hmiddle, hwork⟩ := run_work hcovers htable hidle hdepth errand h
    obtain ⟨last, hlast, hstage⟩ := ih hmiddle
    rw [Set.union_assoc, ← loading_cons, Set.union_assoc, ← settling_cons] at hstage
    exact ⟨last, (run_runAll_cons errand errands hwork).trans hlast, hstage⟩

/-- Loading and initializing classes in any two orders, whatever fails on the way, leaves the same
classes with the same states and static fields. -/
theorem runAll_order {memory : MemoryClasses} (htable : table.Checked) (hidle : table.Idle)
    (hsource : table.source = memory.source) :
    ∃ bound, ∀ depth other, bound < depth → bound < other →
      ∀ errands others : List Errand, (∀ errand, errand ∈ errands ↔ errand ∈ others) →
        ∃ later last, (runAll depth errands).run table = .ok () later ∧
          (runAll other others).run table = .ok () last ∧ later.Agree last := by
  obtain ⟨names, hcovers⟩ := exists_covers hsource
  refine ⟨names.length, fun depth other hdepth hother errands others hsame => ?_⟩
  obtain ⟨later, hlater, hstage⟩ :=
    run_runAll hcovers htable hidle hdepth errands (Stage.refl table)
  obtain ⟨last, hlast, hstage'⟩ :=
    run_runAll hcovers htable hidle hother others (Stage.refl table)
  have hloading : loading errands = loading others := Set.ext fun name => hsame (load name)
  have hsettling : settling table errands = settling table others := by
    ext name
    simp only [settling, hsame]
  rw [hloading, hsettling] at hstage
  exact ⟨later, last, hlater, hlast, hstage.agree hstage'⟩

/-- A class whose superclass is missing. -/
def orphan : ClassTable where
  classes := NameMap.empty.insert [65] { file := plainFile [65] [66] }

theorem orphan_checked : orphan.Checked := by
  intro name c hget
  simp only [orphan, get?, NameMap.get?_insert, NameMap.get?_empty] at hget
  split at hget
  · next hname =>
    obtain rfl := Option.some.inj hget
    exact hname ▸ ⟨rfl, rfl⟩
  · contradiction

theorem orphan_idle : orphan.Idle := by
  intro name c hget
  simp only [orphan, get?, NameMap.get?_insert, NameMap.get?_empty] at hget
  split at hget
  · obtain rfl := Option.some.inj hget
    intro hstate
    contradiction
  · contradiction

theorem runAll_order_orphan :
    ∃ depth later last, (runAll depth [init [65], load [66]]).run orphan = .ok () later ∧
      (runAll depth [load [66], init [65], init [65]]).run orphan = .ok () last ∧
      later.Agree last := by
  have hsource : orphan.source = (⟨[]⟩ : MemoryClasses).source := rfl
  obtain ⟨bound, horder⟩ := runAll_order orphan_checked orphan_idle hsource
  refine ⟨bound + 1, horder _ _ (Nat.lt_succ_self bound) (Nat.lt_succ_self bound) _ _ ?_⟩
  intro errand
  simp only [List.mem_cons, List.not_mem_nil, or_false]
  tauto

end Errand

end ClassMachine
