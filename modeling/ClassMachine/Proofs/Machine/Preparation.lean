import ClassMachine.Proofs.Machine.Comparison
import ClassMachine.Proofs.Native.Installed

/-!
# Preparing classes

Classes may be loaded and initialized before a method is run, whether that succeeds or fails. The
method then comes to the same as without: the same stack, objects and output, and the same classes but
for those that have been prepared. If it fails it does so for the same reason, but of a class whose
initialization has failed in the preparation it reports this and not why.
-/

namespace ClassMachine

open Work ClassTable

namespace Machine

/-- The outcome of a run after a preparation, beside that of the run without it. -/
inductive Transparent (start prepared : ClassTable) :
    EStateM.Result Stop Machine Unit → EStateM.Result Stop Machine Unit → Prop
  | ok {machine : Machine} {table} : start.Anticipates prepared machine.table table →
      Transparent start prepared (.ok () machine) (.ok () { machine with table })
  | fault {fault other : Fault} {machine : Machine} {table} :
      start.Anticipates prepared machine.table table →
      Abridged (start.failedSince prepared) fault other →
      Transparent start prepared (.error (.fault fault) machine)
        (.error (.fault other) { machine with table })

theorem alike_invoke {k : Comparison} {names : List Bytes} {depth other : Nat} {machine : Machine}
    {prepared : ClassTable} (hfits : k.Fits names) (hfair : k.Fair names depth other)
    (hstart : k.start = machine.table) (hprepared : k.start.Stage k.loaded k.settled prepared)
    (className name descriptor : Bytes) (args : List Slot) :
    k.Alike ((invoke depth className name descriptor args).run machine)
      ((invoke other className name descriptor args).run { machine with table := prepared }) := by
  have htables : k.Tables machine.table prepared := by
    refine ⟨∅, ∅, ?_, ?_⟩
    · rw [hstart]
      exact Stage.refl machine.table
    · simpa only [Set.union_empty] using hprepared
  exact Comparison.twin_invoke hfits hfair className name descriptor args machine prepared htables

theorem transparent_of_alike {k : Comparison} {prepared : ClassTable}
    {result other : EStateM.Result Stop Machine Unit}
    (hprepared : k.start.Stage k.loaded k.settled prepared) (h : k.Alike result other)
    (hresult : ¬ GaveUp result) (hother : ¬ GaveUp other) :
    Transparent k.start prepared result other := by
  cases h with
  | first _ => exact absurd ⟨_, rfl⟩ hresult
  | second _ => exact absurd ⟨_, rfl⟩ hother
  | ok htables =>
    obtain ⟨loaded, settled, htable, hahead⟩ := htables
    exact .ok (hprepared.anticipates htable hahead)
  | fault htables hfaults =>
    obtain ⟨loaded, settled, htable, hahead⟩ := htables
    refine .fault (hprepared.anticipates htable hahead) ?_
    rw [hprepared.failedSince_eq]
    exact hfaults

theorem not_gaveUp_fault (fault : Fault) (machine : Machine) :
    ¬ GaveUp (.error (.fault fault) machine : EStateM.Result Stop Machine Unit) := by
  simp

/-- A run that may not give up on its own gives up only if the other one does. -/
theorem gaveUp_of_alike {k : Comparison} {result other : EStateM.Result Stop Machine Unit}
    (h : k.Alike result other) :
    (¬ k.firstStops → GaveUp result → GaveUp other) ∧
      (¬ k.secondStops → GaveUp other → GaveUp result) := by
  cases h with
  | first hstops => exact ⟨fun hnot => absurd hstops hnot, fun _ _ => ⟨_, rfl⟩⟩
  | second hstops => exact ⟨fun _ _ => ⟨_, rfl⟩, fun hnot => absurd hstops hnot⟩
  | ok _ => simp
  | fault _ _ => simp

/-- If no class has failed in the preparation both runs fail with the same fault. -/
theorem fault_eq_of_transparent {start prepared : ClassTable}
    {result other : EStateM.Result Stop Machine Unit} {fault cause : Fault}
    {stopped halted : Machine} (h : Transparent start prepared result other)
    (hnone : start.failedSince prepared = ∅) (hresult : result = .error (.fault fault) stopped)
    (hother : other = .error (.fault cause) halted) : cause = fault := by
  cases h with
  | ok _ => contradiction
  | fault _ hfaults =>
    cases hresult
    cases hother
    rw [hnone] at hfaults
    exact hfaults.eq

/-- Whatever classes are loaded and initialized beforehand, and whether or not that succeeds, a method
that is invoked then comes to the same as it would have without. Only the cause of a fault is left out
for classes that have failed in the preparation; if there are none the fault is the same. -/
theorem invoke_prepared {machine : Machine} {memory : MemoryClasses}
    (hchecked : machine.table.Checked) (hidle : machine.table.Idle)
    (hsource : machine.table.source = memory.source) (errands : List Errand) :
    ∃ bound, ∀ enough, bound < enough → ∃ prepared,
      (Run.link (Errand.runAll enough errands)).run machine =
        .ok () { machine with table := prepared } ∧
      ∀ className name descriptor args,
        let lazy depth := (invoke depth className name descriptor args).run machine
        let eager depth :=
          (invoke depth className name descriptor args).run { machine with table := prepared }
        (∀ depth other, ¬ GaveUp (lazy depth) → ¬ GaveUp (eager other) →
          Transparent machine.table prepared (lazy depth) (eager other)) ∧
        (machine.table.failedSince prepared = ∅ →
          ∀ depth other fault cause stopped halted,
            lazy depth = .error (.fault fault) stopped →
            eager other = .error (.fault cause) halted → cause = fault) ∧
        ((∃ depth, ¬ GaveUp (lazy depth)) ↔ ∃ depth, ¬ GaveUp (eager depth)) := by
  obtain ⟨names, hcovers⟩ := exists_covers hsource
  refine ⟨names.length, fun enough henough => ?_⟩
  obtain ⟨prepared, hrun, hprepared⟩ :=
    Errand.run_runAll hcovers hchecked hidle henough errands (Stage.refl machine.table)
  refine ⟨prepared, by simp only [Run.run_link, hrun], fun className name descriptor args => ?_⟩
  intro lazy eager
  -- The two runs compared at any depths, with what is known of when they may give up.
  have halike (firstStops secondStops : Prop) (depth other : Nat)
      (hfirst : depth ≤ names.length + other → firstStops)
      (hsecond : other ≤ names.length + depth → secondStops) :
      (Comparison.mk machine.table (∅ ∪ Errand.loading errands)
        (∅ ∪ Errand.settling machine.table errands) firstStops secondStops).Alike
        (lazy depth) (eager other) :=
    alike_invoke ⟨hcovers, hchecked, hidle⟩ ⟨hfirst, hsecond⟩ rfl hprepared className name
      descriptor args
  have htransparent : ∀ depth other, ¬ GaveUp (lazy depth) → ¬ GaveUp (eager other) →
      Transparent machine.table prepared (lazy depth) (eager other) := fun depth other =>
    transparent_of_alike hprepared (halike True True depth other (fun _ => trivial) fun _ => trivial)
  refine ⟨htransparent, ?_, ?_⟩
  · intro hnone depth other fault cause stopped halted hlazy heager
    refine fault_eq_of_transparent (htransparent depth other ?_ ?_) hnone hlazy heager
    · rw [hlazy]
      exact not_gaveUp_fault fault stopped
    · rw [heager]
      exact not_gaveUp_fault cause halted
  · constructor
    · rintro ⟨depth, hdepth⟩
      have hresults := halike True False depth (names.length + depth + 1) (fun _ => trivial)
        (fun h => by omega)
      exact ⟨_, fun hup => hdepth ((gaveUp_of_alike hresults).2 not_false hup)⟩
    · rintro ⟨depth, hdepth⟩
      have hresults := halike False True (names.length + depth + 1) depth (fun h => by omega)
        (fun _ => trivial)
      exact ⟨_, fun hup => hdepth ((gaveUp_of_alike hresults).1 not_false hup)⟩

/-- The class file of a class A whose superclass is to be B. -/
def orphanBytes : Bytes :=
  [0xca, 0xfe, 0xba, 0xbe, 0x00, 0x00, 0x00, 0x34, 0x00, 0x05, 0x01, 0x00, 0x01, 0x41, 0x07, 0x00,
    0x01, 0x01, 0x00, 0x01, 0x42, 0x07, 0x00, 0x03, 0x00, 0x21, 0x00, 0x02, 0x00, 0x04, 0x00, 0x00,
    0x00, 0x00, 0x00, 0x00, 0x00, 0x00]

def orphanage : MemoryClasses := ⟨[("A", orphanBytes)]⟩

def orphanFile : ClassFile :=
  { plainFile [65] [66] with majorVersion := 52, flags := ⟨0x21⟩ }

theorem fetch_orphan : orphanage.source.fetch [65] = .ok orphanFile :=
  Bootstrap.eq_ok_of_answers (by decide +kernel)

theorem fetch_missing :
    orphanage.source.fetch [66] = .error (.resolution (.classNotFound "B")) := by
  have hname : Utf8.lenient [66] = "B" := by decide +kernel
  have hread : orphanage.source.read "B" = .ok none := by decide +kernel
  unfold ClassSource.fetch
  rw [hname, hread]

theorem find_orphan {table : ClassTable} (hsource : table.source = orphanage.source)
    (horphan : table.get? [65] = none) : table.find [65] = .ok { file := orphanFile } := by
  simp only [find, horphan, hsource, fetch_orphan]
  rfl

theorem orphan_fails {table : ClassTable} (hsource : table.source = orphanage.source)
    (horphan : table.get? [65] = none) (hmissing : table.get? [66] = none) :
    table.Fails [65] (.superclass "A" (.resolution (.classNotFound "B"))) := by
  have hfind := find_orphan hsource horphan
  have hnone : table.find [66] = .error (.resolution (.classNotFound "B")) := by
    simp only [find, hmissing, hsource, fetch_missing]
    rfl
  have hparent : orphanFile.parent = some [66] := by decide +kernel
  have hname : Utf8.lenient [65] = "A" := by decide +kernel
  exact hname ▸ .super hfind rfl hparent (.unloadable hnone)

theorem idle_installed (source : ClassSource) (console : Console)
    (address : ObjectId → Nat) :
    (Bootstrap.machine source console address).table.Idle := by
  intro name c hget hstate
  have hdone := (Bootstrap.installed_of_get? hget).done
  exact nomatch hdone.symm.trans hstate

theorem invoke_prepared_orphan :
    ∃ enough prepared,
      (Run.link (Errand.runAll enough [.init [65], .load [66]])).run
          (Bootstrap.machine orphanage.source {}) =
        .ok () { Bootstrap.machine orphanage.source {} with table := prepared } ∧
      ∀ args depth other,
        ¬ GaveUp ((invoke depth [65] [103, 111] [40, 41, 86] args).run
          (Bootstrap.machine orphanage.source {})) →
        ¬ GaveUp ((invoke other [65] [103, 111] [40, 41, 86] args).run
          { Bootstrap.machine orphanage.source {} with table := prepared }) →
        Transparent (Bootstrap.machine orphanage.source {}).table prepared
          ((invoke depth [65] [103, 111] [40, 41, 86] args).run
            (Bootstrap.machine orphanage.source {}))
          ((invoke other [65] [103, 111] [40, 41, 86] args).run
            { Bootstrap.machine orphanage.source {} with table := prepared }) := by
  have hchecked := Bootstrap.machine_checked orphanage.source {} Heap.spaced
  have hidle := idle_installed orphanage.source {} Heap.spaced
  have hsource := Bootstrap.machine_source orphanage.source {} Heap.spaced
  generalize Bootstrap.machine orphanage.source {} = machine at *
  obtain ⟨bound, hbound⟩ := invoke_prepared hchecked hidle hsource [.init [65], .load [66]]
  obtain ⟨prepared, hrun, houtcome⟩ := hbound (bound + 1) (Nat.lt_succ_self bound)
  exact ⟨bound + 1, prepared, hrun, fun args => (houtcome [65] [103, 111] [40, 41, 86] args).1⟩

theorem run_invoke_of_enter {depth : Nat} {className name descriptor : Bytes} {args : List Slot}
    {machine : Machine} {later : ClassTable} {fault : Fault}
    (h : (Linking.enter depth className).run machine.table = .error (.fault fault) later) :
    (invoke depth className name descriptor args).run machine =
      .error (.fault fault) { machine with table := later } := by
  simp only [invoke_eq_finding, finding_eq_enter, EStateM.run_bind, Run.run_link, h]

/-- A preparation that fails changes the fault that a method fails with: a class that could not be
initialized reports why only the first time. -/
theorem exists_fault_changed :
    ∃ depth prepared lazy eager,
      (Run.link (Errand.runAll depth [.init [65]])).run (Bootstrap.machine orphanage.source {}) =
        .ok () { Bootstrap.machine orphanage.source {} with table := prepared } ∧
      (invoke depth [65] [103, 111] [40, 41, 86] []).run (Bootstrap.machine orphanage.source {}) =
        .error (.fault (.superclass "A" (.resolution (.classNotFound "B")))) lazy ∧
      (invoke depth [65] [103, 111] [40, 41, 86] []).run
          { Bootstrap.machine orphanage.source {} with table := prepared } =
        .error (.fault (.noClassDefFound "A")) eager := by
  have hchecked := Bootstrap.machine_checked orphanage.source {} Heap.spaced
  have hidle := idle_installed orphanage.source {} Heap.spaced
  have hsource := Bootstrap.machine_source orphanage.source {} Heap.spaced
  have horphan : (Bootstrap.machine orphanage.source {}).table.get? [65] = none :=
    Bootstrap.get?_eq_none orphanage.source {} Heap.spaced (by decide +kernel)
  have hmissing : (Bootstrap.machine orphanage.source {}).table.get? [66] = none :=
    Bootstrap.get?_eq_none orphanage.source {} Heap.spaced (by decide +kernel)
  generalize Bootstrap.machine orphanage.source {} = machine at *
  obtain ⟨names, hcovers⟩ := exists_covers hsource
  have hdepth : names.length < names.length + 1 := Nat.lt_succ_self _
  have hfails := orphan_fails hsource horphan hmissing
  obtain ⟨lazy, hlazy⟩ := Linking.run_enter_of_fails hcovers hchecked hidle hdepth hfails
  obtain ⟨prepared, hrun, hprepared⟩ :=
    Errand.run_runAll hcovers hchecked hidle hdepth [.init [65]] (Stage.refl machine.table)
  -- In the preparation the class has failed, so that it does not ask for its superclass again.
  have hfailed : prepared.Fails [65] (.noClassDefFound "A") := by
    have hsettled : [65] ∈ ∅ ∪ Errand.settling machine.table [.init [65]] :=
      .inr ⟨[65], List.mem_singleton_self _, .self (find_orphan hsource horphan) rfl⟩
    obtain ⟨d, hfind, hstate⟩ := hprepared.find_failed hsettled ⟨_, hfails⟩
    have hname : Utf8.lenient [65] = "A" := by decide +kernel
    exact hname ▸ .failed hfind hstate
  obtain ⟨eager, heager⟩ := Linking.run_enter_of_fails (hprepared.covers hcovers)
    (hprepared.checked hchecked) (hprepared.idle hidle) hdepth hfailed
  have heagerly : (invoke (names.length + 1) [65] [103, 111] [40, 41, 86] []).run
      { machine with table := prepared } =
      .error (.fault (.noClassDefFound "A")) { machine with table := eager } :=
    run_invoke_of_enter heager
  exact ⟨names.length + 1, prepared, _, _, by simp only [Run.run_link, hrun],
    run_invoke_of_enter hlazy, heagerly⟩

end Machine

end ClassMachine
