import ClassMachine.Proofs.ClassTable.Errands

/-!
# Tables of which one is ahead

A table on which some classes have been loaded or initialized beforehand gives the same answers as the
one on which they have not. Only a fault may tell the two apart: a class that has failed before does
not repeat its cause.
-/

namespace ClassMachine

/-- A fault as it is given if some of the classes that it names have failed before. -/
inductive Abridged (failed : Set Bytes) : Fault → Fault → Prop
  | same (fault : Fault) : Abridged failed fault fault
  | cut {name : Bytes} (cause : Fault) : name ∈ failed →
      Abridged failed (.superclass (Utf8.lenient name) cause) (.noClassDefFound (Utf8.lenient name))
  | inside (className : String) {cause other : Fault} : Abridged failed cause other →
      Abridged failed (.superclass className cause) (.superclass className other)

theorem Abridged.eq {fault other : Fault} (h : Abridged ∅ fault other) : other = fault := by
  induction h with
  | same fault => rfl
  | cut cause hname => exact hname.elim
  | inside className _ ih => rw [ih]

theorem Abridged.mono {failed more : Set Bytes} (hsub : failed ⊆ more) {fault other : Fault}
    (h : Abridged failed fault other) : Abridged more fault other := by
  induction h with
  | same fault => exact .same fault
  | cut cause hname => exact .cut cause (hsub hname)
  | inside className _ ih => exact .inside className ih

namespace ClassTable

def failedSince (table later : ClassTable) : Set Bytes :=
  {name | (∀ c, table.get? name = some c → c.state ≠ .failed) ∧
    ∃ d, later.get? name = some d ∧ d.state = .failed}

/-- The classes of a table that is ahead of another one: what has been settled there is the same, and
only what has been prepared can be further on. -/
structure Anticipates (start prepared table ahead : ClassTable) : Prop where
  kept : ∀ name c, table.get? name = some c →
    ∃ d, ahead.get? name = some d ∧ d.file = c.file ∧ (c.state ≠ .verified → c.Same d)
  alone : ∀ name, prepared.get? name = start.get? name →
    Option.Rel LoadedClass.Same (table.get? name) (ahead.get? name)

variable {start table ahead prepared : ClassTable}
  {loaded settled others more : Set Bytes} {name : Bytes} {c : LoadedClass}

theorem Stage.find_eq_find (h : start.Stage loaded settled table)
    (hahead : start.Stage others more ahead) (hname : name ∉ settled) (hmore : name ∉ more) :
    ahead.find name = table.find name :=
  (hahead.find_eq hmore).trans (h.find_eq hname).symm

theorem Stage.get?_of_subset (h : start.Stage loaded settled table)
    (hahead : start.Stage others more ahead) (hsub : loaded ⊆ others) (hname : name ∉ settled)
    (hmore : name ∉ more) (hget : table.get? name = some c) : ahead.get? name = some c := by
  by_cases hothers : name ∈ others
  · rw [hahead.loads name hmore hothers, ← h.find_eq hname, find_of_get? hget]
    rfl
  · rw [hahead.outside name hmore hothers, ← h.outside name hname fun hin => hothers (hsub hin), hget]

/-- A name that a preparation has neither settled nor registered makes no difference later. -/
theorem Stage.get?_of_unprepared (hprepared : start.Stage others more prepared)
    (h : start.Stage loaded settled table)
    (hahead : start.Stage (others ∪ loaded) (more ∪ settled) ahead) (hmore : name ∉ more)
    (hname : name ∉ settled) (hsame : prepared.get? name = start.get? name) :
    ahead.get? name = table.get? name := by
  have hnot : name ∉ more ∪ settled := not_or.2 ⟨hmore, hname⟩
  by_cases hloaded : name ∈ loaded
  · rw [hahead.loads name hnot (.inr hloaded), h.loads name hname hloaded]
  · rw [h.outside name hname hloaded, ← hsame]
    by_cases hothers : name ∈ others
    · rw [hahead.loads name hnot (.inl hothers), hprepared.loads name hmore hothers]
    · rw [hahead.outside name hnot (not_or.2 ⟨hothers, hloaded⟩),
        hprepared.outside name hmore hothers]

/-- The fault of an initialization that fails, if more classes have been settled. -/
theorem Stage.abridged (h : start.Stage loaded settled table)
    (hahead : start.Stage others more ahead) (hsub : settled ⊆ more) {fault other : Fault}
    (hfails : table.Fails name fault) (hother : ahead.Fails name other) :
    Abridged {name | name ∈ more ∧ name ∉ settled ∧ start.Doomed name} fault other := by
  induction hfails generalizing other with
  | @unloadable name fault hfind =>
    have hname : name ∉ settled := by
      intro hname
      obtain ⟨c, d, -, -, hfound, -⟩ := h.find_of_mem hname
      rw [hfind] at hfound
      contradiction
    have hstart := (h.find_eq hname).symm.trans hfind
    have hmore : name ∉ more := by
      intro hmore
      obtain ⟨c, d, hfound, -⟩ := hahead.find_of_mem hmore
      rw [hstart] at hfound
      contradiction
    rw [Fails.unique (.unloadable ((hahead.find_eq hmore).trans hstart)) hother]
    exact .same fault
  | @failed name c hfind hstate =>
    have hfound : ∃ d, ahead.find name = .ok d ∧ d.state = .failed := by
      by_cases hmore : name ∈ more
      · exact hahead.find_failed hmore ((h.doomed_iff name).1 ⟨_, .failed hfind hstate⟩)
      · have hname : name ∉ settled := fun hname => hmore (hsub hname)
        exact ⟨c, (h.find_eq_find hahead hname hmore).trans hfind, hstate⟩
    obtain ⟨d, hd, hfailed⟩ := hfound
    rw [Fails.unique (.failed hd hfailed) hother]
    exact .same _
  | @super name c super fault hfind hverified hparent hfails ih =>
    have hdoomed := (h.doomed_iff name).1 ⟨_, .super hfind hverified hparent hfails⟩
    have hname := h.not_mem_of_verified hfind hverified
    by_cases hmore : name ∈ more
    · obtain ⟨d, hd, hfailed⟩ := hahead.find_failed hmore hdoomed
      rw [Fails.unique (.failed hd hfailed) hother]
      exact .cut fault ⟨hmore, hname, hdoomed⟩
    · have hfound := (h.find_eq_find hahead hname hmore).trans hfind
      obtain ⟨cause, rfl, hcause⟩ := hother.of_verified hfound hverified hparent
      exact .inside _ (ih hcause)

theorem Stage.same_of_ahead (h : start.Stage loaded settled table)
    (hahead : start.Stage others more ahead) (hidle : start.Idle)
    (hname : {other | start.Ahead name other} ⊆ settled)
    (hmore : {other | start.Ahead name other} ⊆ more) (hdoomed : ¬ start.Doomed name) :
    ∃ c d, table.get? name = some c ∧ ahead.get? name = some d ∧ c.Same d := by
  cases hfind : start.find name with
  | error fault => exact absurd ⟨fault, .unloadable hfind⟩ hdoomed
  | ok c =>
    cases hstate : c.state with
    | verified =>
      exact h.same_of_mem hahead (hname (.self hfind hstate)) (hmore (.self hfind hstate))
    | done =>
      have hverified : ¬ c.state = .verified := by simp [hstate]
      have hon {loaded settled : Set Bytes} {later : ClassTable}
          (hlater : start.Stage loaded settled later) : later.get? name = some c := by
        have hout : name ∉ settled := by
          intro hin
          obtain ⟨e, d, hfound, hnew, -⟩ := hlater.find_of_mem hin
          obtain rfl := Except.ok.inj (hfound.symm.trans hfind)
          exact hverified hnew
        exact get?_of_find ((hlater.find_eq hout).trans hfind) hverified
      exact ⟨c, c, hon h, hon hahead, LoadedClass.Same.refl c⟩
    | failed => exact absurd ⟨_, .failed hfind hstate⟩ hdoomed
    | inProgress =>
      exact absurd hstate (hidle name c (get?_of_find hfind (by simp [hstate])))

/-- What has failed since the start has been settled, and was doomed. -/
theorem Stage.failedSince_eq (h : start.Stage loaded settled prepared) :
    start.failedSince prepared = {name | name ∈ settled ∧ start.Doomed name} := by
  ext name
  constructor
  · rintro ⟨hbefore, d, hget, hfailed⟩
    have hfind := find_of_get? hget
    have hname : name ∈ settled := by
      by_contra hname
      have hstart := (h.find_eq hname).symm.trans hfind
      exact hbefore d (get?_of_find hstart (by simp [hfailed])) hfailed
    exact ⟨hname, (h.doomed_iff name).1 ⟨_, .failed hfind hfailed⟩⟩
  · rintro ⟨hname, hdoomed⟩
    obtain ⟨c, d, hfind, hstate, hget, hfinished⟩ := h.settles name hname
    refine ⟨fun e he hfailed => ?_, d, hget, ?_⟩
    · obtain rfl := Except.ok.inj ((find_of_get? he).symm.trans hfind)
      rw [hstate] at hfailed
      contradiction
    · rcases hfinished.state with ⟨-, hfailed⟩ | ⟨hnot, -⟩
      · exact hfailed
      · exact absurd hdoomed hnot

theorem Stage.anticipates (hprepared : start.Stage others more prepared)
    (h : start.Stage loaded settled table)
    (hahead : start.Stage (others ∪ loaded) (more ∪ settled) ahead) :
    start.Anticipates prepared table ahead where
  kept name c hget := by
    by_cases hname : name ∈ settled
    · obtain ⟨e, d, he, hd, hsame⟩ := h.same_of_mem hahead hname (.inr hname)
      obtain rfl := Option.some.inj (he.symm.trans hget)
      exact ⟨d, hd, hsame.file, fun _ => hsame⟩
    · by_cases hmore : name ∈ more
      · have hfind := (h.find_eq hname).symm.trans (find_of_get? hget)
        obtain ⟨e, d, hfound, hstate, hd, hfinished⟩ := hahead.settles name (.inl hmore)
        obtain rfl := Except.ok.inj (hfound.symm.trans hfind)
        exact ⟨d, hd, hfinished.file, fun hsettled => absurd hstate hsettled⟩
      · have hsame := h.get?_of_subset hahead Set.subset_union_right hname
          (not_or.2 ⟨hmore, hname⟩) hget
        exact ⟨c, hsame, rfl, fun _ => LoadedClass.Same.refl c⟩
  alone name hsame := by
    have hmore : name ∉ more := by
      intro hmore
      obtain ⟨c, d, hfind, hstate, hget, hfinished⟩ := hprepared.settles name hmore
      obtain rfl := Except.ok.inj ((find_of_get? (hsame.symm.trans hget)).symm.trans hfind)
      rcases hfinished.state with ⟨-, h⟩ | ⟨-, h⟩ <;> simp [hstate] at h
    by_cases hname : name ∈ settled
    · obtain ⟨e, d, he, hd, hsame⟩ := h.same_of_mem hahead hname (.inr hname)
      rw [he, hd]
      exact .some hsame
    · rw [hprepared.get?_of_unprepared h hahead hmore hname hsame]
      exact rel_refl _

end ClassTable

end ClassMachine
