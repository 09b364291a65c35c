import ClassMachine.ClassTable.Initialization
import ClassMachine.Proofs.ClassTable.Loading

/-!
# How the class table grows

Whatever is done with the class table, registered classes keep their files, and classes that are
added have been read, checked and registered under their own name. What holds of all such files
therefore goes on to hold of all classes.
-/

namespace ClassMachine

open Work

namespace ClassTable

/-- Classes keep their files, and new ones come from valid class files of their names. -/
structure Grows (table later : ClassTable) : Prop where
  source : later.source = table.source
  kept : ∀ name c, table.get? name = some c → ∃ d, later.get? name = some d ∧ d.file = c.file
  added : ∀ name d, table.get? name = none → later.get? name = some d →
    (∃ content, ClassFile.parseChecked content = .ok d.file) ∧ d.file.name = .ok name

theorem Grows.refl (table : ClassTable) : table.Grows table where
  source := rfl
  kept _ c h := ⟨c, h, rfl⟩
  added name d hnone hsome := by rw [hnone] at hsome; contradiction

theorem Grows.trans (table middle later : ClassTable) (h : table.Grows middle)
    (hlater : middle.Grows later) : table.Grows later where
  source := hlater.source.trans h.source
  kept name c hc := by
    obtain ⟨d, hd, hfile⟩ := h.kept name c hc
    obtain ⟨e, he, hsame⟩ := hlater.kept name d hd
    exact ⟨e, he, hsame.trans hfile⟩
  added name d hnone hsome := by
    cases hmiddle : middle.get? name with
    | none => exact hlater.added name d hmiddle hsome
    | some c =>
      obtain ⟨e, he, hfile⟩ := hlater.kept name c hmiddle
      obtain rfl : e = d := Option.some.inj (he.symm.trans hsome)
      rw [hfile]
      exact h.added name c hnone hmiddle

/-- The source is asked at most once, for a class that is not registered, and then no other class
changes or is added. -/
def AsksOnce (table later : ClassTable) : Prop :=
  later.asked = table.asked ∨ ∃ name, table.get? name = none ∧
    later.asked = Utf8.lenient name :: table.asked ∧
    ∀ other, other ≠ name → later.get? other = table.get? other

/-- Classes stay as they are, and new ones come from valid class files of their names. -/
structure Extends (table later : ClassTable) : Prop where
  source : later.source = table.source
  kept : ∀ name c, table.get? name = some c → later.get? name = some c
  added : ∀ name d, table.get? name = none → later.get? name = some d →
    d = { file := d.file } ∧ (∃ content, ClassFile.parseChecked content = .ok d.file) ∧
      d.file.name = .ok name
  asks : table.AsksOnce later

namespace Extends

theorem refl (table : ClassTable) : table.Extends table where
  source := rfl
  kept _ _ h := h
  added name d hnone hsome := by
    rw [hnone] at hsome
    contradiction
  asks := .inl rfl

theorem ask {table : ClassTable} {name : Bytes} (hnone : table.get? name = none) :
    table.Extends (table.ask name) :=
  ⟨rfl, (refl table).kept, (refl table).added, .inr ⟨name, hnone, rfl, fun _ _ => rfl⟩⟩

theorem add {table : ClassTable} {name content : Bytes} {file : ClassFile}
    (hnone : table.get? name = none) (hfile : ClassFile.parseChecked content = .ok file)
    (hname : file.name = .ok name) : table.Extends (table.add name file) where
  source := rfl
  asks := .inl rfl
  kept other c hget := by
    have hne : other ≠ name := by
      rintro rfl
      rw [hnone] at hget
      contradiction
    rw [← hget]
    exact (table.get?_insert name other _).trans (if_neg hne)
  added other d hother hget := by
    have hadd : (table.add name file).get? other =
        if other = name then some { file } else table.get? other :=
      table.get?_insert name other _
    rw [hadd] at hget
    split at hget
    next heq =>
      obtain rfl := Option.some.inj hget
      exact ⟨rfl, ⟨content, hfile⟩, heq ▸ hname⟩
    next =>
      rw [hother] at hget
      contradiction

variable {table later : ClassTable}

theorem cases_get? (h : table.Extends later) {name : Bytes} {d : LoadedClass}
    (hd : later.get? name = some d) :
    table.get? name = some d ∨
      d = { file := d.file } ∧ (∃ content, ClassFile.parseChecked content = .ok d.file) ∧
        d.file.name = .ok name := by
  cases hbefore : table.get? name with
  | none => exact .inr (h.added name d hbefore hd)
  | some c => exact .inl ((h.kept name c hbefore).symm.trans hd)

theorem read {name content : Bytes} {file : ClassFile} (hnone : table.get? name = none)
    (hfile : ClassFile.parseChecked content = .ok file) (hname : file.name = .ok name) :
    table.Extends ((table.ask name).add name file) := by
  have hmissing : (table.ask name).get? name = none := hnone
  have hadd := Extends.add hmissing hfile hname
  refine ⟨rfl, hadd.kept, hadd.added, .inr ⟨name, hnone, rfl, fun other hne => ?_⟩⟩
  exact (get?_insert (table.ask name) name other _).trans (if_neg hne)

theorem grows (h : table.Extends later) : table.Grows later where
  source := h.source
  kept name c hget := ⟨c, h.kept name c hget, rfl⟩
  added name d hnone hsome := (h.added name d hnone hsome).2

end Extends

theorem grows_update (table : ClassTable) (name : Bytes) {change : LoadedClass → LoadedClass}
    (hchange : ∀ c, (change c).file = c.file) : table.Grows (table.update name change) where
  source := source_update table name change
  kept other c hc := by
    rw [get?_update]
    by_cases h : other = name
    · subst h
      exact ⟨change c, by simp [hc], hchange c⟩
    · exact ⟨c, by simp [h, hc], rfl⟩
  added other d hnone hsome := by
    rw [get?_update] at hsome
    by_cases h : other = name
    · subst h
      simp [hnone] at hsome
    · simp [h, hnone] at hsome

theorem grows_setState (table : ClassTable) (name : Bytes) (state : InitState) :
    table.Grows (table.setState name state) :=
  table.grows_update name fun _ => rfl

theorem grows_setStatics (table : ClassTable) (name : Bytes) (statics : FieldMap) :
    table.Grows (table.setStatics name statics) :=
  table.grows_update name fun _ => rfl

def Each (P : Bytes → ClassFile → Prop) (table : ClassTable) : Prop :=
  ∀ name c, table.get? name = some c → P name c.file

theorem Grows.each {P : Bytes → ClassFile → Prop} {table later : ClassTable}
    (hP : ∀ content file name, ClassFile.parseChecked content = .ok file → file.name = .ok name →
      P name file)
    (h : table.Grows later) (hall : table.Each P) : later.Each P := by
  intro name d hd
  cases hbefore : table.get? name with
  | none =>
    obtain ⟨⟨content, hfile⟩, hname⟩ := h.added name d hbefore hd
    exact hP content d.file name hfile hname
  | some c =>
    obtain ⟨e, he, hfile⟩ := h.kept name c hbefore
    obtain rfl : e = d := Option.some.inj (he.symm.trans hd)
    rw [hfile]
    exact hall name c hbefore

end ClassTable

namespace Linking

open ClassTable

theorem load_extends (name : Bytes) : Within Extends (load name) := by
  intro table
  rw [run_load]
  cases hget : table.get? name with
  | some c => exact Extends.refl table
  | none =>
    cases hfetch : table.source.fetch name with
    | error fault => exact Extends.ask hget
    | ok file =>
      obtain ⟨⟨content, hfile⟩, hname⟩ := ClassSource.fetch_eq_ok hfetch
      exact Extends.read hget hfile hname

theorem load_grows (name : Bytes) : Within Grows (load name) :=
  (load_extends name).mono fun _ _ => Extends.grows

theorem define_extends (content : Bytes) : Within Extends (define content) := by
  intro table
  simp only [define, EStateM.run_bind, run_structural]
  cases hfile : ClassFile.parseChecked content with
  | error e => exact Extends.refl table
  | ok file =>
    simp only [run_register]
    cases hname : file.name with
    | error e => exact Extends.refl table
    | ok name =>
      simp only [final]
      split
      next => exact Extends.refl table
      next hmissing =>
        rw [contains_eq, Option.not_isSome_iff_eq_none] at hmissing
        exact .add hmissing hfile hname

theorem define_grows (content : Bytes) : Within Grows (define content) :=
  (define_extends content).mono fun _ _ => Extends.grows

section within

variable {α : Type} {R : ClassTable → ClassTable → Prop}

theorem lookup_within (hrefl : ∀ table, R table table) (name : Bytes) : Within R (lookup name) := by
  intro table
  rw [run_lookup]
  cases table.get? name <;> exact hrefl table

theorem structural_within (hrefl : ∀ table, R table table) (answer : Except StructuralError α) :
    Within R (structural answer) := by
  cases answer <;> exact hrefl

theorem resolution_within (hrefl : ∀ table, R table table) (answer : Except ResolutionError α) :
    Within R (resolution answer) := by
  cases answer <;> exact hrefl

theorem getStatic_within (hrefl : ∀ table, R table table) (name field : Bytes) :
    Within R (getStatic name field) := by
  intro table
  rw [run_getStatic]
  cases table.get? name with
  | none => exact hrefl table
  | some c =>
    simp only
    cases c.statics.get? field <;> exact hrefl table

variable (hrefl : ∀ table, R table table)
  (htrans : ∀ first second third, R first second → R second third → R first third)
  (hload : ∀ name, Within R (load name))

include hrefl htrans hload

theorem resolve_within (className name descriptor : Bytes) :
    Within R (resolve className name descriptor) :=
  (hload className).bind htrans fun _ =>
    (resolution_within hrefl _).bind htrans fun _ => within_pure hrefl _

theorem withSuperclass_within (file : ClassFile) {next : Bytes → Linking Unit}
    (hnext : ∀ name, Within R (next name)) : Within R (withSuperclass file next) := by
  unfold withSuperclass
  split
  · exact within_pure hrefl _
  · apply (structural_within hrefl _).bind htrans
    intro superName
    cases superName with
    | none => exact within_pure hrefl _
    | some superName => exact (hload superName).discard.bind htrans fun _ => hnext superName

/-- Besides loading classes an initialization only changes the states of classes, none of which becomes
verified, and gives static fields their slots. -/
theorem initClass_within
    (hstate : ∀ table name state, state ≠ .verified → R table (table.setState name state))
    (hprepare : ∀ name, Within R (prepareStatics name)) (depth : Nat) (name : Bytes) :
    Within R (initClass depth name) := by
  induction depth generalizing name with
  | zero => exact within_throw hrefl _
  | succ depth ih =>
    apply (lookup_within hrefl name).bind htrans
    intro c
    cases c.state with
    | done => exact within_pure hrefl _
    | inProgress => exact within_pure hrefl _
    | failed => exact within_throw hrefl _
    | verified =>
      refine Within.bind htrans (fun table => hstate table name .inProgress (by decide)) fun _ => ?_
      refine Within.bind htrans (Within.attempt ?_) fun outcome => ?_
      · have hsuper := withSuperclass_within hrefl htrans hload c.file ih
        exact (hsuper.adaptExcept _).bind htrans fun _ => hprepare name
      · cases outcome with
        | ok => exact fun table => hstate table name .done (by decide)
        | error stop =>
          cases stop with
          | tooDeep => exact within_throw hrefl _
          | fault fault =>
            refine Within.bind htrans (fun table => ?_) fun _ => within_throw hrefl _
            exact hstate table name .failed (by decide)

end within

theorem resolve_grows (className name descriptor : Bytes) :
    Within Grows (resolve className name descriptor) :=
  resolve_within Grows.refl Grows.trans load_grows className name descriptor

theorem getStatic_grows (name field : Bytes) : Within Grows (getStatic name field) :=
  getStatic_within Grows.refl name field

theorem prepareStatics_grows (name : Bytes) : Within Grows (prepareStatics name) := by
  apply (lookup_within Grows.refl name).bind Grows.trans
  intro c
  split
  · exact fun table => grows_setStatics table name _
  · refine Within.bind Grows.trans (fun table => ?_) fun _ => within_throw Grows.refl _
    exact grows_setStatics table name _

theorem initClass_grows (depth : Nat) (name : Bytes) : Within Grows (initClass depth name) :=
  initClass_within Grows.refl Grows.trans load_grows (fun table name state _ =>
    grows_setState table name state) prepareStatics_grows depth name

theorem withSuperclass_grows (depth : Nat) (file : ClassFile) :
    Within Grows (withSuperclass file (initClass depth)) :=
  withSuperclass_within Grows.refl Grows.trans load_grows file (initClass_grows depth)

end Linking

end ClassMachine
