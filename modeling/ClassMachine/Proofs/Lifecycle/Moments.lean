import Mathlib.Data.List.Chain
import ClassMachine.Proofs.ClassTable.Initialization

/-!
# Moments of a run

A moment is the class table together with the classes whose initialization is under way. From one
moment to the next classes are added, or one class begins to be initialized, is done, or fails. It
can only be done if its superclass counts as initialized, and only fail if that has failed or is
missing.

A class may be done before its superclass if they form a cycle. Then the innermost class that is
under way has a superclass that counts as initialized, so that it cannot fail and no other class can
begin; hence all of the cycle are going to be done.
-/

namespace ClassMachine.Lifecycle

structure Moment where
  /-- The classes whose initialization is under way, the innermost first. -/
  active : List Bytes
  table : ClassTable

def Ready (table : ClassTable) (name : Bytes) : Prop :=
  ∃ c, table.get? name = some c ∧ (c.state = .done ∨ c.state = .inProgress)

def Lost (table : ClassTable) (name : Bytes) : Prop :=
  ∀ c, table.get? name = some c → c.state = .failed

/-- The class is registered and the other one is initialized before it. -/
def Below (table : ClassTable) (name super : Bytes) : Prop :=
  ∃ c, table.get? name = some c ∧ c.file.parent = some super

inductive Step : Moment → Moment → Prop
  | load {active table later} : table.Extends later → Step ⟨active, table⟩ ⟨active, later⟩
  | enter {active table later name c} :
      table.Changes name c { c with state := .inProgress } later → c.state = .verified →
      (∀ outer ∈ active.head?, Below table outer name) →
      Step ⟨active, table⟩ ⟨name :: active, later⟩
  | finish {active table later name c} :
      table.Changes name c { c with state := .done, statics := c.file.filled c.statics } later →
      (∀ super, c.file.parent = some super → Ready table super) →
      Step ⟨name :: active, table⟩ ⟨active, later⟩
  | abort {active table later name c super} :
      table.Changes name c { c with state := .failed } later → c.file.parent = some super →
      Lost table super → Step ⟨name :: active, table⟩ ⟨active, later⟩

/-- A class that is done has a superclass that is done, if it has one that counts. -/
def SupersDone (table : ClassTable) : Prop :=
  ∀ name c super, table.get? name = some c → c.state = .done → c.file.parent = some super →
    ∃ d, table.get? super = some d ∧ d.state = .done

/-- The innermost class under way has a superclass that counts as initialized. -/
def Ascending (m : Moment) : Prop :=
  ∃ name ∈ m.active.head?, ∃ super, Below m.table name super ∧ Ready m.table super

/-- What holds at every moment, given the table at the start. -/
structure Sound (start : ClassTable) (m : Moment) : Prop where
  checked : m.table.Checked
  progress : ∀ name, name ∈ m.active ↔ ∃ c, m.table.get? name = some c ∧ c.state = .inProgress
  nodup : m.active.Nodup
  linked : m.active.IsChain fun inner outer => Below m.table outer inner
  ready : ∀ name c super, m.table.get? name = some c → c.state = .done →
    c.file.parent = some super → Ready m.table super
  supers : SupersDone m.table ∨ Ascending m
  empty : ∀ name c, start.get? name = none → m.table.get? name = some c → c.state ≠ .done →
    c.statics = .empty
  filled : ∀ name c, start.get? name = none → m.table.get? name = some c → c.state = .done →
    ∀ field, c.statics.get? field = c.file.initialStatic field

variable {start table later : ClassTable} {active : List Bytes} {name super : Bytes}
  {c d : LoadedClass}

theorem Below.of_grows (hbelow : Below table name super) (h : table.Grows later) :
    Below later name super := by
  obtain ⟨c, hget, hparent⟩ := hbelow
  obtain ⟨d, hd, hfile⟩ := h.kept name c hget
  exact ⟨d, hd, by rw [hfile, hparent]⟩

theorem Ready.of_extends (hready : Ready table name) (h : table.Extends later) :
    Ready later name := by
  obtain ⟨c, hget, hstate⟩ := hready
  exact ⟨c, h.kept name c hget, hstate⟩

theorem Ready.of_changes {other : Bytes} (hready : Ready table other)
    (h : table.Changes name c d later) (hstate : d.state = .done ∨ d.state = .inProgress) :
    Ready later other := by
  by_cases heq : other = name
  · exact ⟨d, heq ▸ h.get?_self, hstate⟩
  · obtain ⟨e, he, he_state⟩ := hready
    exact ⟨e, (h.get?_of_ne heq).trans he, he_state⟩

theorem progress_of_changes (h : table.Changes name c d later) {other : Bytes}
    (hne : other ≠ name) :
    (∃ e, later.get? other = some e ∧ e.state = .inProgress) ↔
      ∃ e, table.get? other = some e ∧ e.state = .inProgress := by
  rw [h.get?_of_ne hne]

theorem Sound.load (h : Sound start ⟨active, table⟩) (hlater : table.Extends later) :
    Sound start ⟨active, later⟩ where
  checked := hlater.grows.checked h.checked
  progress other := by
    rw [h.progress]
    constructor
    · rintro ⟨e, he, hstate⟩
      exact ⟨e, hlater.kept other e he, hstate⟩
    · rintro ⟨e, he, hstate⟩
      rcases hlater.cases_get? he with hget | ⟨hfresh, -⟩
      · exact ⟨e, hget, hstate⟩
      · rw [hfresh] at hstate
        contradiction
  nodup := h.nodup
  linked := h.linked.imp fun _ _ hbelow => hbelow.of_grows hlater.grows
  ready other e above he hdone habove := by
    rcases hlater.cases_get? he with hget | ⟨hfresh, -⟩
    · exact (h.ready other e above hget hdone habove).of_extends hlater
    · rw [hfresh] at hdone
      contradiction
  supers := by
    rcases h.supers with hsupers | ⟨other, hother, above, hbelow, hready⟩
    · left
      intro other e above he hdone habove
      rcases hlater.cases_get? he with hget | ⟨hfresh, -⟩
      · obtain ⟨f, hf, hstate⟩ := hsupers other e above hget hdone habove
        exact ⟨f, hlater.kept above f hf, hstate⟩
      · rw [hfresh] at hdone
        contradiction
    · exact .inr ⟨other, hother, above, hbelow.of_grows hlater.grows, hready.of_extends hlater⟩
  empty other e hstart he hstate := by
    rcases hlater.cases_get? he with hget | ⟨hfresh, -⟩
    · exact h.empty other e hstart hget hstate
    · rw [hfresh]
  filled other e hstart he hdone := by
    rcases hlater.cases_get? he with hget | ⟨hfresh, -⟩
    · exact h.filled other e hstart hget hdone
    · rw [hfresh] at hdone
      contradiction

/-- Only a class that is verified can begin, so it is not the superclass of a class that is done;
and the class that it begins for has no superclass that counts as initialized. -/
theorem Sound.enter (h : Sound start ⟨active, table⟩)
    (hlater : table.Changes name c { c with state := .inProgress } later)
    (hstate : c.state = .verified) (houter : ∀ outer ∈ active.head?, Below table outer name) :
    Sound start ⟨name :: active, later⟩ where
  checked := hlater.grows.checked h.checked
  progress other := by
    by_cases heq : other = name
    · subst heq
      exact iff_of_true (List.mem_cons_self ..) ⟨_, hlater.get?_self, rfl⟩
    · rw [progress_of_changes hlater heq, ← h.progress, List.mem_cons, or_iff_right heq]
  nodup := by
    refine List.nodup_cons.2 ⟨fun hactive => ?_, h.nodup⟩
    obtain ⟨e, he, hprogress⟩ := (h.progress name).1 hactive
    obtain rfl := Option.some.inj (hlater.before.symm.trans he)
    rw [hstate] at hprogress
    contradiction
  linked := by
    refine List.isChain_cons.2 ⟨fun outer hhead => (houter outer hhead).of_grows hlater.grows, ?_⟩
    exact h.linked.imp fun _ _ hbelow => hbelow.of_grows hlater.grows
  ready other e above he hdone habove := by
    rcases hlater.cases_get? he with ⟨-, rfl⟩ | ⟨-, hget⟩
    · contradiction
    · exact (h.ready other e above hget hdone habove).of_changes hlater (.inr rfl)
  supers := by
    have hnotReady : ¬ Ready table name := by
      rintro ⟨e, he, hready⟩
      obtain rfl := Option.some.inj (hlater.before.symm.trans he)
      simp [hstate] at hready
    left
    rcases h.supers with hsupers | ⟨outer, hhead, above, ⟨e, he, habove⟩, hready⟩
    · intro other e above he hdone habove
      rcases hlater.cases_get? he with ⟨-, rfl⟩ | ⟨hne, hget⟩
      · contradiction
      · obtain ⟨f, hf, hf_done⟩ := hsupers other e above hget hdone habove
        have hne : above ≠ name := by
          rintro rfl
          exact hnotReady ⟨f, hf, .inl hf_done⟩
        exact ⟨f, (hlater.get?_of_ne hne).trans hf, hf_done⟩
    · -- The superclass of the innermost class under way is the one that begins, which is not ready.
      obtain ⟨f, hf, hname⟩ := houter outer hhead
      obtain rfl := Option.some.inj (he.symm.trans hf)
      obtain rfl := Option.some.inj (habove.symm.trans hname)
      exact absurd hready hnotReady
  empty other e hstart he hnot := by
    rcases hlater.cases_get? he with ⟨rfl, rfl⟩ | ⟨-, hget⟩
    · exact h.empty other c hstart hlater.before (by simp [hstate])
    · exact h.empty other e hstart hget hnot
  filled other e hstart he hdone := by
    rcases hlater.cases_get? he with ⟨-, rfl⟩ | ⟨-, hget⟩
    · contradiction
    · exact h.filled other e hstart hget hdone

theorem Sound.inProgress (h : Sound start ⟨name :: active, table⟩)
    (hget : table.get? name = some c) : c.state = .inProgress := by
  obtain ⟨e, he, hstate⟩ := (h.progress name).1 (List.mem_cons_self ..)
  obtain rfl := Option.some.inj (hget.symm.trans he)
  exact hstate

theorem Sound.progress_tail (h : Sound start ⟨name :: active, table⟩)
    (hlater : table.Changes name c d later) (hstate : d.state ≠ .inProgress) (other : Bytes) :
    other ∈ active ↔ ∃ e, later.get? other = some e ∧ e.state = .inProgress := by
  by_cases heq : other = name
  · subst heq
    refine iff_of_false (List.nodup_cons.1 h.nodup).1 ?_
    rintro ⟨e, he, hprogress⟩
    obtain rfl := Option.some.inj (hlater.get?_self.symm.trans he)
    exact hstate hprogress
  · rw [progress_of_changes hlater heq, ← h.progress, List.mem_cons, or_iff_right heq]

/-- A class that is done is the superclass of the next one under way; if there is none, no class
is in progress any more, and superclasses that count as initialized are done. -/
theorem Sound.finish (h : Sound start ⟨name :: active, table⟩)
    (hlater : table.Changes name c
      { c with state := .done, statics := c.file.filled c.statics } later)
    (hsuper : ∀ super, c.file.parent = some super → Ready table super) :
    Sound start ⟨active, later⟩ := by
  have hprogress := h.progress_tail hlater (by simp)
  have hready (other : Bytes) (e : LoadedClass) (above : Bytes) (he : later.get? other = some e)
      (hdone : e.state = .done) (habove : e.file.parent = some above) : Ready later above := by
    rcases hlater.cases_get? he with ⟨rfl, rfl⟩ | ⟨-, hget⟩
    · exact (hsuper above habove).of_changes hlater (.inl rfl)
    · exact (h.ready other e above hget hdone habove).of_changes hlater (.inl rfl)
  have hlinked := List.isChain_cons.1 h.linked
  refine ⟨hlater.grows.checked h.checked, hprogress, (List.nodup_cons.1 h.nodup).2, ?_, hready, ?_,
    ?_, ?_⟩
  · exact hlinked.2.imp fun _ _ hbelow => hbelow.of_grows hlater.grows
  · cases active with
    | nil =>
      left
      intro other e above he hdone habove
      obtain ⟨f, hf, hstate⟩ := hready other e above he hdone habove
      rcases hstate with hstate | hstate
      · exact ⟨f, hf, hstate⟩
      · exact absurd ((hprogress above).2 ⟨f, hf, hstate⟩) List.not_mem_nil
    | cons outer rest =>
      exact .inr ⟨outer, rfl, name, (hlinked.1 outer rfl).of_grows hlater.grows, _,
        hlater.get?_self, .inl rfl⟩
  · intro other e hstart he hnot
    rcases hlater.cases_get? he with ⟨-, rfl⟩ | ⟨-, hget⟩
    · contradiction
    · exact h.empty other e hstart hget hnot
  · intro other e hstart he hdone field
    rcases hlater.cases_get? he with ⟨rfl, rfl⟩ | ⟨-, hget⟩
    · have hempty := h.empty other c hstart hlater.before (by simp [h.inProgress hlater.before])
      have hcheck := (h.checked other c hlater.before).2
      simp only [ClassFile.get?_filled hcheck, hempty]
      simp
    · exact h.filled other e hstart hget hdone field

/-- A class that fails has a superclass that does not count as initialized. Hence no superclass of
a class that is done is under way, and the class is none. -/
theorem Sound.abort (h : Sound start ⟨name :: active, table⟩)
    (hlater : table.Changes name c { c with state := .failed } later)
    (hsuper : c.file.parent = some super) (hlost : Lost table super) :
    Sound start ⟨active, later⟩ := by
  have hsupers : SupersDone table := by
    refine h.supers.resolve_right ?_
    rintro ⟨inner, hinner, above, ⟨e, he, habove⟩, f, hf, hstate⟩
    obtain rfl := Option.some.inj hinner
    obtain rfl := Option.some.inj (hlater.before.symm.trans he)
    obtain rfl := Option.some.inj (hsuper.symm.trans habove)
    simp [hlost f hf] at hstate
  have hdone (other : Bytes) (e : LoadedClass) (above : Bytes) (he : later.get? other = some e)
      (hdone : e.state = .done) (habove : e.file.parent = some above) :
      ∃ f, later.get? above = some f ∧ f.state = .done := by
    rcases hlater.cases_get? he with ⟨-, rfl⟩ | ⟨-, hget⟩
    · contradiction
    · obtain ⟨f, hf, hstate⟩ := hsupers other e above hget hdone habove
      have hne : above ≠ name := by
        rintro rfl
        rw [h.inProgress hf] at hstate
        contradiction
      exact ⟨f, (hlater.get?_of_ne hne).trans hf, hstate⟩
  refine ⟨hlater.grows.checked h.checked, h.progress_tail hlater (by simp),
    (List.nodup_cons.1 h.nodup).2, ?_, ?_, .inl hdone, ?_, ?_⟩
  · exact (List.isChain_cons.1 h.linked).2.imp fun _ _ hbelow => hbelow.of_grows hlater.grows
  · intro other e above he hstate habove
    obtain ⟨f, hf, hf_done⟩ := hdone other e above he hstate habove
    exact ⟨f, hf, .inl hf_done⟩
  · intro other e hstart he hnot
    rcases hlater.cases_get? he with ⟨rfl, rfl⟩ | ⟨-, hget⟩
    · exact h.empty other c hstart hlater.before (by simp [h.inProgress hlater.before])
    · exact h.empty other e hstart hget hnot
  · intro other e hstart he hdone
    rcases hlater.cases_get? he with ⟨-, rfl⟩ | ⟨-, hget⟩
    · contradiction
    · exact h.filled other e hstart hget hdone

theorem Step.grows {m next : Moment} (hstep : Step m next) : m.table.Grows next.table := by
  cases hstep with
  | load hlater => exact hlater.grows
  | enter hlater _ _ => exact hlater.grows
  | finish hlater _ => exact hlater.grows
  | abort hlater _ _ => exact hlater.grows

theorem Step.asksOnce {m next : Moment} (hstep : Step m next) :
    m.table.AsksOnce next.table := by
  cases hstep with
  | load hlater => exact hlater.asks
  | enter hlater _ _ => exact .inl hlater.asked
  | finish hlater _ => exact .inl hlater.asked
  | abort hlater _ _ => exact .inl hlater.asked

theorem Step.sound {m next : Moment} (hstep : Step m next) (h : Sound start m) :
    Sound start next := by
  cases hstep with
  | load hlater => exact h.load hlater
  | enter hlater hstate houter => exact h.enter hlater hstate houter
  | finish hlater hsuper => exact h.finish hlater hsuper
  | abort hlater hsuper hlost => exact h.abort hlater hsuper hlost

/-- What may become of a class from one moment to the next. -/
inductive Move (c : LoadedClass) : LoadedClass → Prop
  | stay : Move c c
  | begin : c.state = .verified → Move c { c with state := .inProgress }
  | complete (statics : FieldMap) : c.state = .inProgress →
      Move c { c with state := .done, statics }
  | fail : c.state = .inProgress → Move c { c with state := .failed }

/-- Registered classes move, and others are registered as they have been read. -/
structure Moves (table later : ClassTable) : Prop where
  moved : ∀ name c, table.get? name = some c → ∃ d, later.get? name = some d ∧ Move c d
  fresh : ∀ name d, table.get? name = none → later.get? name = some d → d = { file := d.file }

theorem moves_of_changes (h : table.Changes name c d later) (hmove : Move c d) :
    Moves table later where
  moved other e he := by
    by_cases heq : other = name
    · subst heq
      obtain rfl := Option.some.inj (h.before.symm.trans he)
      exact ⟨d, h.get?_self, hmove⟩
    · exact ⟨e, (h.get?_of_ne heq).trans he, .stay⟩
  fresh other e hnone he := by
    rw [h.get?_eq_none hnone] at he
    contradiction

theorem Step.moves {m next : Moment} (hstep : Step m next) (h : Sound start m) :
    Moves m.table next.table := by
  cases hstep with
  | load hlater =>
    exact ⟨fun name c hget => ⟨c, hlater.kept name c hget, .stay⟩,
      fun name d hnone hget => (hlater.added name d hnone hget).1⟩
  | enter hlater hstate _ => exact moves_of_changes hlater (.begin hstate)
  | finish hlater _ => exact moves_of_changes hlater (.complete _ (h.inProgress hlater.before))
  | abort hlater _ _ => exact moves_of_changes hlater (.fail (h.inProgress hlater.before))

/-- The moments that follow on one moment, up to the last. -/
inductive Trail : Moment → List Moment → Moment → Prop
  | nil (m) : Trail m [] m
  | cons {m next rest last} : Step m next → Trail next rest last → Trail m (next :: rest) last

namespace Trail

variable {m middle last : Moment} {moments others : List Moment}

theorem single {next : Moment} (hstep : Step m next) : Trail m [next] next :=
  .cons hstep (.nil next)

theorem grows (h : Trail m moments last) : m.table.Grows last.table := by
  induction h with
  | nil m => exact .refl m.table
  | cons hstep _ ih => exact hstep.grows.trans _ _ _ ih

theorem append (h : Trail m moments middle) (hothers : Trail middle others last) :
    Trail m (moments ++ others) last := by
  induction h with
  | nil m => exact hothers
  | cons hstep _ ih => exact .cons hstep (ih hothers)

theorem sound (h : Trail m moments last) (hm : Sound start m) :
    (∀ moment ∈ m :: moments, Sound start moment) ∧ Sound start last := by
  induction h with
  | nil m => exact ⟨fun moment h => List.mem_singleton.1 h ▸ hm, hm⟩
  | cons hstep _ ih =>
    obtain ⟨hrest, hlast⟩ := ih (hstep.sound hm)
    exact ⟨List.forall_mem_cons.2 ⟨hm, hrest⟩, hlast⟩

theorem isChain {R : Moment → Moment → Prop}
    (hR : ∀ moment next, Step moment next → Sound start moment → R moment next)
    (h : Trail m moments last) (hm : Sound start m) : (m :: moments).IsChain R := by
  induction h with
  | nil m => exact .singleton m
  | cons hstep _ ih => exact .cons_cons (hR _ _ hstep hm) (ih (hstep.sound hm))

theorem moves (h : Trail m moments last) (hm : Sound start m) :
    (m :: moments).IsChain fun moment next => Moves moment.table next.table :=
  h.isChain (fun _ _ => Step.moves) hm

theorem getLast_eq (h : Trail m moments last) :
    (m :: moments).getLast (List.cons_ne_nil _ _) = last := by
  induction h with
  | nil m => rfl
  | cons _ _ ih => rw [List.getLast_cons (List.cons_ne_nil _ _), ih]

end Trail

end ClassMachine.Lifecycle
