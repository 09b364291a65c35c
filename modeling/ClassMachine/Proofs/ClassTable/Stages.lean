import Mathlib.Data.Set.Insert
import ClassMachine.Proofs.ClassTable.Outlook

/-!
# Stages on the way of a class table

Which names have been loaded and which classes have been settled by initializations says what a
table has become, but for what the source was asked for. No load and no initialization changes what
is going to become of a class, so each takes a stage to the stage with its own names added to it.
-/

namespace ClassMachine

open Work

/-- Work that stops because the depth is used up. -/
def GaveUp {σ α : Type} (result : EStateM.Result Stop σ α) : Prop :=
  ∃ s, result = .error .tooDeep s

section gaveUp

variable {σ α β : Type} {s : σ}

@[simp]
theorem gaveUp_ok_iff {a : α} : GaveUp (.ok a s) ↔ False := by
  refine iff_false_intro ?_
  rintro ⟨t, h⟩
  contradiction

@[simp]
theorem gaveUp_error_iff {stop : Stop} :
    GaveUp (.error stop s : EStateM.Result Stop σ α) ↔ stop = .tooDeep := by
  constructor
  · rintro ⟨t, h⟩
    exact (EStateM.Result.error.inj h).1
  · rintro rfl
    exact ⟨s, rfl⟩

theorem gaveUp_bind_iff {work : EStateM Stop σ α} {next : α → EStateM Stop σ β} :
    GaveUp ((work >>= next).run s) ↔
      GaveUp (work.run s) ∨ ∃ a t, work.run s = .ok a t ∧ GaveUp ((next a).run t) := by
  rw [EStateM.run_bind]
  cases work.run s with
  | error stop t => simp
  | ok a t => simp

end gaveUp

namespace ClassTable

/-- What a verified class comes to by its initialization. -/
def Finished (table : ClassTable) (name : Bytes) (c d : LoadedClass) : Prop :=
  table.Doomed name ∧ d = { c with state := .failed } ∨
    ¬ table.Doomed name ∧ d.file = c.file ∧ d.state = .done ∧
      ∀ field, d.statics.get? field = (c.statics.get? field).or (c.file.initialStatic field)

/-- The table has become the later one by loading some names and settling some classes. -/
structure Stage (table : ClassTable) (loaded settled : Set Bytes) (later : ClassTable) : Prop where
  source : later.source = table.source
  outside : ∀ name, name ∉ settled → name ∉ loaded → later.get? name = table.get? name
  loads : ∀ name, name ∉ settled → name ∈ loaded →
    later.get? name = (table.find name).toOption
  settles : ∀ name ∈ settled, ∃ c d, table.find name = .ok c ∧ c.state = .verified ∧
    later.get? name = some d ∧ table.Finished name c d
  closed : ∀ name ∈ settled, ∀ c super d, table.find name = .ok c → c.file.parent = some super →
    table.find super = .ok d → d.state = .verified → super ∈ settled

variable {table later last : ClassTable} {loaded settled others more : Set Bytes}
  {name : Bytes} {c d : LoadedClass}

theorem Finished.file (h : table.Finished name c d) : d.file = c.file := by
  rcases h with ⟨-, rfl⟩ | ⟨-, hfile, -⟩
  · rfl
  · exact hfile

theorem Finished.state (h : table.Finished name c d) :
    table.Doomed name ∧ d.state = .failed ∨ ¬ table.Doomed name ∧ d.state = .done := by
  rcases h with ⟨hdoomed, rfl⟩ | ⟨hdoomed, -, hdone, -⟩
  · exact .inl ⟨hdoomed, rfl⟩
  · exact .inr ⟨hdoomed, hdone⟩

theorem find_of_get? (h : table.get? name = some c) : table.find name = .ok c := by
  rw [find, h]

namespace Stage

theorem refl (table : ClassTable) : table.Stage ∅ ∅ table where
  source := rfl
  outside _ _ _ := rfl
  loads _ _ h := h.elim
  settles _ h := h.elim
  closed _ h := h.elim

theorem find_eq (h : table.Stage loaded settled later) (hname : name ∉ settled) :
    later.find name = table.find name := by
  by_cases hloaded : name ∈ loaded
  · have hget := h.loads name hname hloaded
    cases hfind : table.find name with
    | ok c =>
      rw [hfind] at hget
      exact find_of_get? hget
    | error fault =>
      rw [hfind] at hget
      obtain ⟨-, hfetch⟩ := cases_of_find_error hfind
      have hnone : later.get? name = none := hget
      simp only [find, hnone, h.source, hfetch]
      rfl
  · have hget := h.outside name hname hloaded
    simp only [find, hget, h.source]

theorem find_of_mem (h : table.Stage loaded settled later) (hname : name ∈ settled) :
    ∃ c d, table.find name = .ok c ∧ c.state = .verified ∧ later.find name = .ok d ∧
      table.Finished name c d := by
  obtain ⟨c, d, hfind, hstate, hget, hfinished⟩ := h.settles name hname
  exact ⟨c, d, hfind, hstate, find_of_get? hget, hfinished⟩

theorem find_failed (h : table.Stage loaded settled later) (hname : name ∈ settled)
    (hdoomed : table.Doomed name) : ∃ d, later.find name = .ok d ∧ d.state = .failed := by
  obtain ⟨c, d, -, -, hfind, hfinished⟩ := h.find_of_mem hname
  rcases hfinished.state with ⟨-, hfailed⟩ | ⟨hnot, -⟩
  · exact ⟨d, hfind, hfailed⟩
  · exact absurd hdoomed hnot

theorem doomed_of_mem (h : table.Stage loaded settled later) (hname : name ∈ settled)
    (hdoomed : table.Doomed name) : later.Doomed name := by
  obtain ⟨d, hfind, hfailed⟩ := h.find_failed hname hdoomed
  exact ⟨_, .failed hfind hfailed⟩

theorem not_mem_of_verified (h : table.Stage loaded settled later) (hfind : later.find name = .ok d)
    (hstate : d.state = .verified) : name ∉ settled := by
  intro hname
  obtain ⟨c, e, -, -, hfound, hfinished⟩ := h.find_of_mem hname
  obtain rfl := Except.ok.inj (hfound.symm.trans hfind)
  rcases hfinished.state with ⟨-, hsettled⟩ | ⟨-, hsettled⟩ <;> simp [hstate] at hsettled

theorem found (h : table.Stage loaded settled later) (hfind : later.find name = .ok d) :
    ∃ c, table.find name = .ok c ∧ d.file = c.file := by
  by_cases hname : name ∈ settled
  · obtain ⟨c, e, hbefore, -, hfound, hfinished⟩ := h.find_of_mem hname
    obtain rfl := Except.ok.inj (hfound.symm.trans hfind)
    exact ⟨c, hbefore, hfinished.file⟩
  · exact ⟨d, (h.find_eq hname).symm.trans hfind, rfl⟩

theorem checked (h : table.Stage loaded settled later) (htable : table.Checked) :
    later.Checked := by
  intro name d hget
  obtain ⟨c, hfind, hfile⟩ := h.found (find_of_get? hget)
  exact hfile ▸ find_of_check htable hfind

theorem idle (h : table.Stage loaded settled later) (htable : table.Idle) : later.Idle := by
  intro name d hget hstate
  by_cases hname : name ∈ settled
  · obtain ⟨c, e, -, -, hfound, hfinished⟩ := h.settles name hname
    obtain rfl := Option.some.inj (hfound.symm.trans hget)
    rcases hfinished.state with ⟨-, hsettled⟩ | ⟨-, hsettled⟩ <;> simp [hstate] at hsettled
  · have hfind := (h.find_eq hname).symm.trans (find_of_get? hget)
    exact htable name d (get?_of_find hfind (by simp [hstate])) hstate

theorem covers (h : table.Stage loaded settled later) {names : List Bytes}
    (hcovers : table.Covers names) : later.Covers names := by
  intro name d hfind
  obtain ⟨c, hfound, -⟩ := h.found hfind
  exact hcovers name c hfound

theorem doomed_before (h : table.Stage loaded settled later) (hdoomed : later.Doomed name) :
    table.Doomed name := by
  obtain ⟨fault, hfails⟩ := hdoomed
  induction hfails with
  | @unloadable name fault hfind =>
    have hname : name ∉ settled := by
      intro hname
      obtain ⟨c, d, -, -, hfound, -⟩ := h.find_of_mem hname
      rw [hfind] at hfound
      contradiction
    exact ⟨_, .unloadable ((h.find_eq hname).symm.trans hfind)⟩
  | @failed name d hfind hstate =>
    by_cases hname : name ∈ settled
    · obtain ⟨c, e, -, -, hfound, hfinished⟩ := h.find_of_mem hname
      obtain rfl := Except.ok.inj (hfound.symm.trans hfind)
      rcases hfinished.state with ⟨hdoomed, -⟩ | ⟨-, hdone⟩
      · exact hdoomed
      · simp [hstate] at hdone
    · exact ⟨_, .failed ((h.find_eq hname).symm.trans hfind) hstate⟩
  | super hfind hstate hparent _ ih =>
    obtain ⟨fault, hfails⟩ := ih
    have hname := h.not_mem_of_verified hfind hstate
    exact ⟨_, .super ((h.find_eq hname).symm.trans hfind) hstate hparent hfails⟩

theorem doomed_after (h : table.Stage loaded settled later) (hdoomed : table.Doomed name) :
    later.Doomed name := by
  obtain ⟨fault, hfails⟩ := hdoomed
  induction hfails with
  | @unloadable name fault hfind =>
    by_cases hname : name ∈ settled
    · exact h.doomed_of_mem hname ⟨_, .unloadable hfind⟩
    · exact ⟨_, .unloadable ((h.find_eq hname).trans hfind)⟩
  | @failed name c hfind hstate =>
    by_cases hname : name ∈ settled
    · exact h.doomed_of_mem hname ⟨_, .failed hfind hstate⟩
    · exact ⟨_, .failed ((h.find_eq hname).trans hfind) hstate⟩
  | @super name c super fault hfind hstate hparent hfails ih =>
    by_cases hname : name ∈ settled
    · exact h.doomed_of_mem hname ⟨_, .super hfind hstate hparent hfails⟩
    · obtain ⟨fault, hlater⟩ := ih
      exact ⟨_, .super ((h.find_eq hname).trans hfind) hstate hparent hlater⟩

/-- What is going to fail stays the same, though not the fault: a class that has failed meanwhile
gives another one. -/
theorem doomed_iff (h : table.Stage loaded settled later) (name : Bytes) :
    later.Doomed name ↔ table.Doomed name :=
  ⟨h.doomed_before, h.doomed_after⟩

/-- But for what has been settled already, the same classes are initialized along with a class. -/
theorem union_ahead (h : table.Stage loaded settled later) (name : Bytes) :
    settled ∪ {other | later.Ahead name other} = settled ∪ {other | table.Ahead name other} := by
  ext other
  simp only [Set.mem_union, Set.mem_ofPred_eq]
  constructor
  · rintro (hother | hahead)
    · exact .inl hother
    · right
      induction hahead with
      | self hfind hstate =>
        have hname := h.not_mem_of_verified hfind hstate
        exact .self ((h.find_eq hname).symm.trans hfind) hstate
      | super hahead hfind hparent hsuper hstate ih =>
        obtain ⟨d, hfound, hverified⟩ := hahead.verified
        have hname := h.not_mem_of_verified hfound hverified
        have habove := h.not_mem_of_verified hsuper hstate
        exact .super ih ((h.find_eq hname).symm.trans hfind) hparent
          ((h.find_eq habove).symm.trans hsuper) hstate
  · rintro (hother | hahead)
    · exact .inl hother
    · induction hahead with
      | self hfind hstate =>
        by_cases hname : name ∈ settled
        · exact .inl hname
        · exact .inr (.self ((h.find_eq hname).trans hfind) hstate)
      | @super other c super d hahead hfind hparent hsuper hstate ih =>
        by_cases habove : super ∈ settled
        · exact .inl habove
        · rcases ih with hother | hlater
          · exact .inl (h.closed other hother c super d hfind hparent hsuper hstate)
          · obtain ⟨e, hfound, hverified⟩ := hlater.verified
            have hother := h.not_mem_of_verified hfound hverified
            exact .inr (.super hlater ((h.find_eq hother).trans hfind) hparent
              ((h.find_eq habove).trans hsuper) hstate)

theorem trans (h : table.Stage loaded settled later) (hlast : later.Stage others more last) :
    table.Stage (loaded ∪ others) (settled ∪ more) last where
  source := hlast.source.trans h.source
  outside name hsettled hloaded := by
    simp only [Set.mem_union, not_or] at hsettled hloaded
    rw [hlast.outside name hsettled.2 hloaded.2, h.outside name hsettled.1 hloaded.1]
  loads name hsettled hloaded := by
    simp only [Set.mem_union, not_or] at hsettled
    by_cases hname : name ∈ others
    · rw [hlast.loads name hsettled.2 hname, h.find_eq hsettled.1]
    · rw [hlast.outside name hsettled.2 hname]
      exact h.loads name hsettled.1 ((Set.mem_union ..).1 hloaded |>.resolve_right hname)
  settles name hname := by
    by_cases hmore : name ∈ more
    · obtain ⟨c, d, hfind, hstate, hget, hfinished⟩ := hlast.settles name hmore
      have hbefore := h.not_mem_of_verified hfind hstate
      refine ⟨c, d, (h.find_eq hbefore).symm.trans hfind, hstate, hget, ?_⟩
      unfold Finished at hfinished ⊢
      rwa [h.doomed_iff name] at hfinished
    · have hbefore : name ∈ settled := ((Set.mem_union ..).1 hname).resolve_right hmore
      obtain ⟨c, d, hfind, hstate, hget, hfinished⟩ := h.settles name hbefore
      refine ⟨c, d, hfind, hstate, ?_, hfinished⟩
      by_cases hother : name ∈ others
      · rw [hlast.loads name hmore hother, find_of_get? hget]
        rfl
      · rw [hlast.outside name hmore hother, hget]
  closed name hname c super d hfind hparent hsuper hstate := by
    by_cases hbefore : name ∈ settled
    · exact .inl (h.closed name hbefore c super d hfind hparent hsuper hstate)
    · by_cases habove : super ∈ settled
      · exact .inl habove
      · have hmore : name ∈ more := ((Set.mem_union ..).1 hname).resolve_left hbefore
        exact .inr (hlast.closed name hmore c super d ((h.find_eq hbefore).trans hfind) hparent
          ((h.find_eq habove).trans hsuper) hstate)

end Stage

/-- A walk that has been made settles the classes that are initialized along with the first one. -/
theorem Walked.stage {classes : List Bytes} {ending : Ending}
    (h : table.Walked table classes ending later) (hwalk : table.Walk [] name classes ending) :
    table.Stage ∅ {other | table.Ahead name other} later where
  source := h.source
  outside other hother _ := h.off other fun hon => hother ((hwalk.ahead_iff other).2 hon)
  loads _ _ hloaded := hloaded.elim
  settles other hother := by
    have hon := (hwalk.ahead_iff other).1 hother
    obtain ⟨c, d, hfind, hstate, hget, hsettled⟩ := h.on other hon
    refine ⟨c, d, hfind, hstate, hget, ?_⟩
    unfold Settled at hsettled
    cases hfault : ending.fault? with
    | none =>
      rw [hfault] at hsettled
      exact .inr ⟨hwalk.not_doomed hfault (.inl hon), hsettled⟩
    | some fault =>
      rw [hfault] at hsettled
      exact .inl ⟨(hwalk.fails hfault).2 other hon, hsettled⟩
  closed other hother c super d hfind hparent hsuper hstate :=
    .super hother hfind hparent hsuper hstate

end ClassTable

namespace Linking

open ClassTable

def enter (depth : Nat) (name : Bytes) : Linking Unit := do
  discard (load name)
  initClass depth name

variable {table : ClassTable} {depth : Nat} {name : Bytes}

theorem stage_of_loaded {later : ClassTable} (hsource : later.source = table.source)
    (hoff : ∀ other, other ≠ name → later.get? other = table.get? other)
    (hon : later.get? name = (table.find name).toOption) : table.Stage {name} ∅ later where
  source := hsource
  outside other _ hother := hoff other hother
  loads other _ hother := by
    obtain rfl : other = name := hother
    exact hon
  settles _ h := h.elim
  closed _ h := h.elim

theorem run_load_find (name : Bytes) (table : ClassTable) :
    ∃ later, table.Stage {name} ∅ later ∧
      (load name).run table =
        match table.find name with
        | .ok c => .ok c.file later
        | .error fault => .error (.fault fault) later := by
  rw [run_load]
  cases hget : table.get? name with
  | some c =>
    have hfind := find_of_get? hget
    refine ⟨table, stage_of_loaded rfl (fun _ _ => rfl) ?_, by rw [hfind]⟩
    rw [hget, hfind]
    rfl
  | none =>
    cases hfetch : table.source.fetch name with
    | error fault =>
      have hfind : table.find name = .error fault := by simp [find, hget, hfetch, Except.map]
      refine ⟨table.ask name, stage_of_loaded rfl (fun _ _ => rfl) ?_, by rw [hfind]⟩
      rw [hfind]
      exact hget
    | ok file =>
      have hfind : table.find name = .ok { file } := by simp [find, hget, hfetch, Except.map]
      have hadd (other : Bytes) : ((table.ask name).add name file).get? other =
          if other = name then some { file } else (table.ask name).get? other :=
        get?_insert (table.ask name) name other _
      refine ⟨(table.ask name).add name file, stage_of_loaded rfl (fun other hother => ?_) ?_, ?_⟩
      · exact (hadd other).trans (if_neg hother)
      · rw [hfind]
        exact (hadd name).trans (if_pos rfl)
      · rw [hfind]

theorem run_withSuperclass (file : ClassFile) (next : Bytes → Linking Unit) (table : ClassTable) :
    (withSuperclass file next).run table =
      match file.isInterface, file.superName with
      | true, _ => .ok () table
      | false, .error e => .error (.fault (.structural e)) table
      | false, .ok none => .ok () table
      | false, .ok (some super) =>
        match (load super).run table with
        | .ok _ later => (next super).run later
        | .error stop later => .error stop later := by
  unfold withSuperclass
  cases file.isInterface with
  | true => rfl
  | false =>
    cases file.superName with
    | error e => rfl
    | ok super =>
      cases super with
      | none => rfl
      | some super =>
        show (discard (load super) >>= fun _ => next super).run table = _
        simp only [EStateM.run_bind, run_discard]
        cases (load super).run table <;> rfl

/-- Work on a superclass may be exchanged for work that does the same whenever the first one does not
give up. -/
theorem run_withSuperclass_congr {next other : Bytes → Linking Unit}
    (hnext : ∀ super entered, ¬ GaveUp ((next super).run entered) →
      (other super).run entered = (next super).run entered)
    {file : ClassFile} (h : ¬ GaveUp ((withSuperclass file next).run table)) :
    (withSuperclass file other).run table = (withSuperclass file next).run table := by
  rw [run_withSuperclass] at h
  rw [run_withSuperclass, run_withSuperclass]
  cases hinterface : file.isInterface with
  | true => rfl
  | false =>
    cases hname : file.superName with
    | error e => rfl
    | ok super =>
      cases super with
      | none => rfl
      | some super =>
        simp only [hinterface, hname] at h ⊢
        cases hload : (load super).run table with
        | error stop later => rfl
        | ok found later =>
          rw [hload] at h
          exact hnext super later h

/-- More depth makes no difference to an initialization that has not used it up. -/
theorem initClass_deeper (h : ¬ GaveUp ((initClass depth name).run table)) :
    (initClass (depth + 1) name).run table = (initClass depth name).run table := by
  induction depth generalizing name table with
  | zero => exact absurd ⟨table, rfl⟩ h
  | succ depth ih =>
    cases hget : table.get? name with
    | none => simp only [initClass, EStateM.run_bind, run_lookup, hget]
    | some c =>
      cases hstate : c.state with
      | done => rw [run_initClass_settled hget (.inl hstate), run_initClass_settled hget (.inl hstate)]
      | inProgress =>
        rw [run_initClass_settled hget (.inr hstate), run_initClass_settled hget (.inr hstate)]
      | failed => rw [run_initClass_failed hget hstate, run_initClass_failed hget hstate]
      | verified =>
        rw [run_initClass_verified hget hstate] at h
        rw [run_initClass_verified hget hstate, run_initClass_verified hget hstate,
          run_withSuperclass_congr fun super entered => ih]
        rintro ⟨later, hup⟩
        exact h ⟨later, by rw [hup]⟩

theorem initClass_add (h : ¬ GaveUp ((initClass depth name).run table)) (more : Nat) :
    (initClass (depth + more) name).run table = (initClass depth name).run table := by
  induction more with
  | zero => rfl
  | succ more ih =>
    rw [← ih] at h ⊢
    exact initClass_deeper h

theorem enter_deeper (h : ¬ GaveUp ((enter depth name).run table)) (more : Nat) :
    (enter (depth + more) name).run table = (enter depth name).run table := by
  simp only [enter, EStateM.run_bind, run_discard] at h ⊢
  cases hload : (load name).run table with
  | error stop later => rfl
  | ok file later =>
    simp only [hload] at h ⊢
    exact initClass_add h more

/-- Entering a class gives up only if the depth is less than the number of classes. -/
theorem run_enter {names : List Bytes} (hcovers : table.Covers names) (htable : table.Checked)
    (hidle : table.Idle) (depth : Nat) (name : Bytes) :
    GaveUp ((enter depth name).run table) ∧ depth ≤ names.length ∨
      ∃ later, table.Stage ∅ {other | table.Ahead name other} later ∧
        (¬ table.Doomed name ∧ (enter depth name).run table = .ok () later ∨
          ∃ fault, table.Fails name fault ∧
            (enter depth name).run table = .error (.fault fault) later) := by
  obtain ⟨classes, ending, hwalk, hlength⟩ := hcovers.exists_walk htable hidle name
  have hdeep (depth : Nat) (hdepth : names.length < depth) :
      ∃ later, table.Stage ∅ {other | table.Ahead name other} later ∧
        (¬ table.Doomed name ∧ (enter depth name).run table = .ok () later ∨
          ∃ fault, table.Fails name fault ∧
            (enter depth name).run table = .error (.fault fault) later) := by
    obtain ⟨later, hrun, hwalked⟩ :=
      hwalk.run_initClass htable (midway_nil table) (Nat.lt_of_le_of_lt hlength hdepth)
    refine ⟨later, hwalked.stage hwalk, ?_⟩
    unfold Ending.result at hrun
    cases hfault : ending.fault? with
    | none =>
      rw [hfault] at hrun
      have hname := hwalk.comes.imp_right fun h => h.resolve_left List.not_mem_nil
      exact .inl ⟨hwalk.not_doomed hfault hname, hrun⟩
    | some fault =>
      rw [hfault] at hrun
      exact .inr ⟨_, (hwalk.fails hfault).1, hrun⟩
  by_cases hdepth : names.length < depth
  · exact .inr (hdeep depth hdepth)
  · by_cases hup : GaveUp ((enter depth name).run table)
    · exact .inl ⟨hup, Nat.le_of_not_lt hdepth⟩
    · have hmore := enter_deeper hup (names.length + 1)
      rw [← hmore]
      exact .inr (hdeep _ (by omega))

theorem run_enter_of_fails {names : List Bytes} (hcovers : table.Covers names)
    (htable : table.Checked) (hidle : table.Idle) (hdepth : names.length < depth) {fault : Fault}
    (hfails : table.Fails name fault) :
    ∃ later, (enter depth name).run table = .error (.fault fault) later := by
  rcases run_enter hcovers htable hidle depth name with ⟨-, hfew⟩ | ⟨later, -, hrun⟩
  · omega
  · rcases hrun with ⟨hnot, -⟩ | ⟨cause, hcause, hrun⟩
    · exact absurd ⟨fault, hfails⟩ hnot
    · exact ⟨later, hfails.unique hcause ▸ hrun⟩

end Linking

namespace ClassTable.Stage

open Linking

variable {table later : ClassTable} {loaded settled : Set Bytes}

theorem run_load (h : table.Stage loaded settled later) (name : Bytes) :
    ∃ last, table.Stage (loaded ∪ {name}) settled last ∧
      (load name).run later =
        match table.find name with
        | .ok c => .ok c.file last
        | .error fault => .error (.fault fault) last := by
  obtain ⟨last, hlast, hrun⟩ := run_load_find name later
  have hstage := h.trans hlast
  rw [Set.union_empty] at hstage
  refine ⟨last, hstage, hrun.trans ?_⟩
  by_cases hname : name ∈ settled
  · obtain ⟨c, d, hfind, -, hfound, hfinished⟩ := h.find_of_mem hname
    simp only [hfind, hfound, hfinished.file]
  · rw [h.find_eq hname]

theorem run_enter (h : table.Stage loaded settled later) {names : List Bytes}
    (hcovers : table.Covers names) (htable : table.Checked) (hidle : table.Idle) (depth : Nat)
    (name : Bytes) :
    GaveUp ((enter depth name).run later) ∧ depth ≤ names.length ∨
      ∃ last, table.Stage loaded (settled ∪ {other | table.Ahead name other}) last ∧
        (¬ table.Doomed name ∧ (enter depth name).run later = .ok () last ∨
          ∃ fault, later.Fails name fault ∧
            (enter depth name).run later = .error (.fault fault) last) := by
  rcases Linking.run_enter (h.covers hcovers) (h.checked htable) (h.idle hidle) depth name with
    hup | ⟨last, hlast, hrun⟩
  · exact .inl hup
  · have hstage := h.trans hlast
    rw [Set.union_empty, h.union_ahead name] at hstage
    rw [h.doomed_iff name] at hrun
    exact .inr ⟨last, hstage, hrun⟩

end ClassTable.Stage

end ClassMachine
