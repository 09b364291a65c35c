import ClassMachine.Proofs.ClassTable.Initialization

/-!
# The walk that an initialization makes

From a verified class that is no interface the walk goes on to its superclass. It stops above an
interface or a class without superclass, and before a class that is not verified, that it has
already come to, or that cannot be loaded. If it is finite, it says all that an initialization
does: whether it fails and how, what becomes of each class, and what the source is asked for.
-/

namespace ClassMachine

open Work

namespace ClassTable

/-- The class of a name as it is registered, or as the source has it. -/
def find (table : ClassTable) (name : Bytes) : Except Fault LoadedClass :=
  match table.get? name with
  | some c => .ok c
  | none => (table.source.fetch name).map ({ file := · })

inductive Ending where
  | interface
  | root
  | done
  | again
  | failed (name : Bytes)
  | unloadable (name : Bytes) (fault : Fault)

/-- The verified classes on the walk from a name, in order, and why it stops, if the classes in
the first list have been come to before. -/
inductive Walk (table : ClassTable) : List Bytes → Bytes → List Bytes → Ending → Prop
  | again {seen name} : name ∈ seen → Walk table seen name [] .again
  | unloadable {seen name fault} : name ∉ seen → table.find name = .error fault →
      Walk table seen name [] (.unloadable name fault)
  | done {seen name c} : name ∉ seen → table.find name = .ok c → c.state = .done →
      Walk table seen name [] .done
  | failed {seen name c} : name ∉ seen → table.find name = .ok c → c.state = .failed →
      Walk table seen name [] (.failed name)
  | interface {seen name c} : name ∉ seen → table.find name = .ok c → c.state = .verified →
      c.file.isInterface = true → Walk table seen name [name] .interface
  | root {seen name c} : name ∉ seen → table.find name = .ok c → c.state = .verified →
      c.file.isInterface = false → c.file.superName = .ok none → Walk table seen name [name] .root
  | step {seen name c super classes ending} : name ∉ seen → table.find name = .ok c →
      c.state = .verified → c.file.isInterface = false → c.file.superName = .ok (some super) →
      Walk table (name :: seen) super classes ending →
      Walk table seen name (name :: classes) ending

namespace Ending

/-- The fault that the last class on the walk is given, if it is given one. -/
def fault? : Ending → Option Fault
  | failed name => some (.noClassDefFound (Utf8.lenient name))
  | unloadable _ fault => some fault
  | _ => none

def missing : Ending → List Bytes
  | unloadable name _ => [name]
  | _ => []

end Ending

/-- The fault of the last class as the first one gives it: each class wraps it. -/
def nested (classes : List Bytes) (fault : Fault) : Fault :=
  classes.foldr (fun name cause => .superclass (Utf8.lenient name) cause) fault

/-- What the source is asked for to load the classes, the first one first. -/
def asks (table : ClassTable) (names : List Bytes) : List String :=
  (names.filter fun name => !table.contains name).map Utf8.lenient

/-- What becomes of a class on a walk with that ending. -/
def Settled (ending : Ending) (c d : LoadedClass) : Prop :=
  match ending.fault? with
  | none => d.file = c.file ∧ d.state = .done ∧
      ∀ field, d.statics.get? field = (c.statics.get? field).or (c.file.initialStatic field)
  | some _ => d = { c with state := .failed }

/-- The walk found in the table has been made from the current table to the later one. -/
structure Walked (table current : ClassTable) (classes : List Bytes) (ending : Ending)
    (later : ClassTable) : Prop where
  source : later.source = current.source
  asked : later.asked = (table.asks (classes ++ ending.missing)).reverse ++ current.asked
  off : ∀ name, name ∉ classes → later.get? name = current.get? name
  on : ∀ name, name ∈ classes → ∃ c d, table.find name = .ok c ∧ c.state = .verified ∧
    later.get? name = some d ∧ Settled ending c d

def Ending.result (ending : Ending) (classes : List Bytes) (later : ClassTable) :
    EStateM.Result Stop ClassTable Unit :=
  match ending.fault? with
  | none => .ok () later
  | some fault => .error (.fault (nested classes fault)) later

/-- The table while the classes seen are in progress. -/
structure Midway (table : ClassTable) (seen : List Bytes) (current : ClassTable) : Prop where
  source : current.source = table.source
  ahead : ∀ name, name ∉ seen → current.get? name = table.get? name
  behind : ∀ name, name ∈ seen → ∃ c, current.get? name = some c ∧ c.state = .inProgress

variable {table current : ClassTable} {seen classes : List Bytes} {name : Bytes} {ending : Ending}

theorem Walk.not_mem_seen (h : table.Walk seen name classes ending) :
    ∀ other ∈ classes ++ ending.missing, other ∉ seen := by
  induction h with
  | again _ | done _ _ _ | failed _ _ _ => simp [Ending.missing]
  | unloadable hname _ => simpa [Ending.missing] using hname
  | interface hname _ _ _ | root hname _ _ _ _ => simpa [Ending.missing] using hname
  | step hname _ _ _ _ _ ih =>
    intro other hother
    rcases List.mem_cons.1 hother with rfl | hother
    · exact hname
    · exact fun h => ih other hother (List.mem_cons_of_mem _ h)

theorem Walk.nodup (h : table.Walk seen name classes ending) :
    (classes ++ ending.missing).Nodup := by
  induction h with
  | again _ | done _ _ _ | failed _ _ _ => exact List.nodup_nil
  | unloadable _ _ | interface _ _ _ _ | root _ _ _ _ _ => simp [Ending.missing]
  | step _ _ _ _ _ hwalk ih =>
    refine List.nodup_cons.2 ⟨fun h => ?_, ih⟩
    exact hwalk.not_mem_seen _ h (List.mem_cons_self ..)

theorem asks_cons (table : ClassTable) (name : Bytes) (names : List Bytes) :
    table.asks (name :: names) = table.asks [name] ++ table.asks names := by
  simp only [asks, List.filter_cons, List.filter_nil]
  split <;> rfl

theorem cases_of_find {c : LoadedClass} (hfind : table.find name = .ok c) :
    table.get? name = some c ∨
      table.get? name = none ∧ table.source.fetch name = .ok c.file ∧ c = { file := c.file } := by
  unfold find at hfind
  cases hget : table.get? name with
  | some d =>
    left
    rw [hget] at hfind
    exact congrArg some (Except.ok.inj hfind)
  | none =>
    right
    simp only [hget] at hfind
    cases hfetch : table.source.fetch name with
    | error fault => simp [hfetch, Except.map] at hfind
    | ok file =>
      simp only [hfetch, Except.map, Except.ok.injEq] at hfind
      subst hfind
      exact ⟨rfl, rfl, rfl⟩

theorem cases_of_find_error {fault : Fault} (hfind : table.find name = .error fault) :
    table.get? name = none ∧ table.source.fetch name = .error fault := by
  unfold find at hfind
  cases hget : table.get? name with
  | some d => simp [hget] at hfind
  | none =>
    simp only [hget] at hfind
    cases hfetch : table.source.fetch name with
    | ok file => simp [hfetch, Except.map] at hfind
    | error found =>
      simp only [hfetch, Except.map, Except.error.injEq] at hfind
      rw [hfind]
      exact ⟨rfl, rfl⟩

theorem get?_of_find {c : LoadedClass} (hfind : table.find name = .ok c)
    (hstate : c.state ≠ .verified) : table.get? name = some c := by
  rcases cases_of_find hfind with hget | ⟨-, -, hfresh⟩
  · exact hget
  · rw [hfresh] at hstate
    contradiction

theorem find_of_check {c : LoadedClass} (htable : table.Checked) (hfind : table.find name = .ok c) :
    c.file.name = .ok name ∧ c.file.check = .ok () := by
  rcases cases_of_find hfind with hget | ⟨-, hfetch, -⟩
  · exact htable name c hget
  · obtain ⟨⟨content, hfile⟩, hname⟩ := ClassSource.fetch_eq_ok hfetch
    exact ⟨hname, ((ClassFile.parseChecked_eq_ok_iff content c.file).1 hfile).2⟩

structure Loaded (table current : ClassTable) (name : Bytes) (c : LoadedClass)
    (next : ClassTable) : Prop where
  source : next.source = current.source
  asked : next.asked = (table.asks [name]).reverse ++ current.asked
  get?_self : next.get? name = some c
  get?_of_ne : ∀ other, other ≠ name → next.get? other = current.get? other

theorem midway_nil (table : ClassTable) : table.Midway [] table :=
  ⟨rfl, fun _ _ => rfl, fun _ h => nomatch h⟩

theorem Midway.run_load (h : table.Midway seen current) (hname : name ∉ seen) {c : LoadedClass}
    (hfind : table.find name = .ok c) :
    ∃ next, (Linking.load name).run current = .ok c.file next ∧
      table.Loaded current name c next := by
  have hsame := h.ahead name hname
  rw [Linking.run_load, hsame, h.source]
  rcases cases_of_find hfind with hget | ⟨hget, hfetch, hfresh⟩
  · simp only [hget]
    refine ⟨current, rfl, rfl, ?_, hsame.trans hget, fun _ _ => rfl⟩
    simp [asks, contains_eq, hget]
  · simp only [hget, hfetch]
    refine ⟨_, rfl, rfl, ?_, ?_, ?_⟩
    · simp [asks, contains_eq, hget, add, ask]
    · rw [hfresh]
      exact (get?_insert (current.ask name) name name _).trans (if_pos rfl)
    · intro other hother
      exact (get?_insert (current.ask name) name other _).trans (if_neg hother)

theorem Midway.run_load_error (h : table.Midway seen current) (hname : name ∉ seen) {fault : Fault}
    (hfind : table.find name = .error fault) :
    (Linking.load name).run current = .error (.fault fault) (current.ask name) ∧
      table.asks [name] = [Utf8.lenient name] := by
  obtain ⟨hget, hfetch⟩ := cases_of_find_error hfind
  rw [Linking.run_load, h.ahead name hname, h.source]
  simp only [hget, hfetch]
  exact ⟨trivial, by simp [asks, contains_eq, hget]⟩

theorem Midway.enter (h : table.Midway seen current) {next : ClassTable} {c : LoadedClass}
    (hnext : table.Loaded current name c next) :
    table.Midway (name :: seen) (next.setState name .inProgress) where
  source := (source_update ..).trans (hnext.source.trans h.source)
  ahead other hother := by
    obtain ⟨hne, hother⟩ := not_or.1 (mt List.mem_cons.2 hother)
    rw [get?_setState, if_neg hne, hnext.get?_of_ne other hne, h.ahead other hother]
  behind other hother := by
    have hentered := changes_setState .inProgress hnext.get?_self
    by_cases heq : other = name
    · rw [heq, hentered.get?_self]
      exact ⟨_, rfl, rfl⟩
    · rw [hentered.get?_of_ne heq, hnext.get?_of_ne other heq]
      exact h.behind other ((List.mem_cons.1 hother).resolve_left heq)

theorem walked_nil (table current : ClassTable) (hmissing : ending.missing = []) :
    table.Walked current [] ending current where
  source := rfl
  asked := by rw [hmissing]; rfl
  off _ _ := rfl
  on _ h := nomatch h

/-- A walk that has been made from the superclass of a class, and the class settled after it. -/
theorem Walked.cons {next later last : ClassTable} {c d e : LoadedClass}
    (h : table.Walked (next.setState name .inProgress) classes ending later)
    (hnext : table.Loaded current name c next) (hfind : table.find name = .ok c)
    (hstate : c.state = .verified) (hlast : later.Changes name e d last)
    (hsettled : Settled ending c d) : table.Walked current (name :: classes) ending last where
  source := by rw [hlast.source, h.source, setState, source_update, hnext.source]
  asked := by
    rw [hlast.asked, h.asked, setState, asked_update, hnext.asked, List.cons_append,
      asks_cons table name (classes ++ _), List.reverse_append, List.append_assoc]
  off other hother := by
    obtain ⟨hne, hother⟩ := not_or.1 (mt List.mem_cons.2 hother)
    rw [hlast.get?_of_ne hne, h.off other hother, get?_setState, if_neg hne,
      hnext.get?_of_ne other hne]
  on other hother := by
    by_cases heq : other = name
    · exact ⟨c, d, heq ▸ hfind, hstate, heq ▸ hlast.get?_self, hsettled⟩
    · have hrest := (List.mem_cons.1 hother).resolve_left heq
      obtain ⟨f, g, hfound, hverified, hg, hdone⟩ := h.on other hrest
      exact ⟨f, g, hfound, hverified, (hlast.get?_of_ne heq).trans hg, hdone⟩

/-- A class is done or has failed as the walk from its superclass says. -/
theorem Midway.run_initClass (h : table.Midway seen current) (hname : name ∉ seen)
    {c : LoadedClass} (htable : table.Checked) (hfind : table.find name = .ok c)
    (hstate : c.state = .verified) (hnew : name ∉ classes) {depth : Nat}
    (hparent : ∀ entered, table.Midway (name :: seen) entered → ∃ later,
      (Linking.withSuperclass c.file (Linking.initClass depth)).run entered =
        ending.result classes later ∧ table.Walked entered classes ending later) :
    ∃ later, (discard (Linking.load name) >>= fun _ => Linking.initClass (depth + 1) name).run
        current = ending.result (name :: classes) later ∧
      table.Walked current (name :: classes) ending later := by
  obtain ⟨hnamed, hcheck⟩ := find_of_check htable hfind
  obtain ⟨next, hload, hnext⟩ := h.run_load hname hfind
  obtain ⟨later, hrun, hwalked⟩ := hparent _ (h.enter hnext)
  have hentered := changes_setState .inProgress hnext.get?_self
  have hlater : later.get? name = some { c with state := .inProgress } :=
    (hwalked.off name hnew).trans hentered.get?_self
  simp only [EStateM.run_bind, run_discard, hload,
    Linking.run_initClass_verified hnext.get?_self hstate, hrun]
  unfold Ending.result
  cases hfault : ending.fault? with
  | none =>
    have hdone := changes_finish (c.file.filled c.statics) hlater
    have hsettled : Settled ending c
        { c with state := .done, statics := c.file.filled c.statics } := by
      unfold Settled
      rw [hfault]
      exact ⟨rfl, rfl, ClassFile.get?_filled hcheck c.statics⟩
    simp only [Linking.run_prepareStatics hlater hcheck]
    exact ⟨_, rfl, hwalked.cons hnext hfind hstate hdone hsettled⟩
  | some fault =>
    have hfailed := changes_setState .failed hlater
    have hsettled : Settled ending c { c with state := .failed } := by
      unfold Settled
      rw [hfault]
    refine ⟨later.setState name .failed, ?_, hwalked.cons hnext hfind hstate hfailed hsettled⟩
    simp only [nested, List.foldr_cons, ClassFile.displayName, hnamed]

theorem Walk.run_initClass (htable : table.Checked) (hwalk : table.Walk seen name classes ending)
    (hmid : table.Midway seen current) {depth : Nat} (hdepth : classes.length < depth) :
    ∃ later, (discard (Linking.load name) >>= fun _ => Linking.initClass depth name).run current =
        ending.result classes later ∧ table.Walked current classes ending later := by
  -- The cases are the reasons to stop. Only the last one goes on, with its class in progress.
  induction hwalk generalizing current depth with
  | @again seen name hname =>
    obtain ⟨c, hget, hstate⟩ := hmid.behind name hname
    obtain ⟨depth, rfl⟩ := Nat.exists_eq_add_one_of_ne_zero (Nat.ne_zero_of_lt hdepth)
    refine ⟨current, ?_, walked_nil table current rfl⟩
    simp only [EStateM.run_bind, run_discard, Linking.run_load, hget]
    exact Linking.run_initClass_settled hget (.inr hstate)
  | @unloadable seen name fault hname hfind =>
    obtain ⟨hload, hasks⟩ := hmid.run_load_error hname hfind
    refine ⟨current.ask name, ?_, ?_⟩
    · simp only [EStateM.run_bind, run_discard, hload]
      rfl
    · exact ⟨rfl, by rw [Ending.missing, List.nil_append, hasks]; rfl, fun _ _ => rfl,
        fun _ h => nomatch h⟩
  | @done seen name c hname hfind hstate =>
    obtain ⟨depth, rfl⟩ := Nat.exists_eq_add_one_of_ne_zero (Nat.ne_zero_of_lt hdepth)
    have hget := (hmid.ahead name hname).trans (get?_of_find hfind (by simp [hstate]))
    refine ⟨current, ?_, walked_nil table current rfl⟩
    simp only [EStateM.run_bind, run_discard, Linking.run_load, hget]
    exact Linking.run_initClass_settled hget (.inl hstate)
  | @failed seen name c hname hfind hstate =>
    obtain ⟨depth, rfl⟩ := Nat.exists_eq_add_one_of_ne_zero (Nat.ne_zero_of_lt hdepth)
    have hget := (hmid.ahead name hname).trans (get?_of_find hfind (by simp [hstate]))
    refine ⟨current, ?_, walked_nil table current rfl⟩
    simp only [EStateM.run_bind, run_discard, Linking.run_load, hget,
      Linking.run_initClass_failed hget hstate, ClassFile.displayName,
      (find_of_check htable hfind).1]
    rfl
  | @interface seen name c hname hfind hstate hinterface =>
    obtain ⟨depth, rfl⟩ := Nat.exists_eq_add_one_of_ne_zero (Nat.ne_zero_of_lt hdepth)
    refine hmid.run_initClass hname htable hfind hstate List.not_mem_nil fun entered _ => ?_
    refine ⟨entered, ?_, walked_nil table entered rfl⟩
    simp only [Linking.withSuperclass, hinterface, if_true]
    rfl
  | @root seen name c hname hfind hstate hinterface hroot =>
    obtain ⟨depth, rfl⟩ := Nat.exists_eq_add_one_of_ne_zero (Nat.ne_zero_of_lt hdepth)
    refine hmid.run_initClass hname htable hfind hstate List.not_mem_nil fun entered _ => ?_
    refine ⟨entered, ?_, walked_nil table entered rfl⟩
    simp only [Linking.withSuperclass, hinterface, hroot]
    rfl
  | @step seen name c super classes ending hname hfind hstate hinterface hsuper hwalk ih =>
    obtain ⟨depth, rfl⟩ := Nat.exists_eq_add_one_of_ne_zero (Nat.ne_zero_of_lt hdepth)
    have hnew : name ∉ classes := fun h =>
      hwalk.not_mem_seen name (List.mem_append_left _ h) (List.mem_cons_self ..)
    refine hmid.run_initClass hname htable hfind hstate hnew fun entered hentered => ?_
    obtain ⟨later, hrun, hwalked⟩ := ih hentered (Nat.lt_of_succ_lt_succ hdepth)
    refine ⟨later, ?_, hwalked⟩
    rw [← hrun]
    simp only [Linking.withSuperclass, hinterface, hsuper]
    rfl

/-- If no class is in progress at first, a walk stops or goes on to a superclass. -/
theorem walk_stops_or_steps (htable : table.Checked)
    (hidle : ∀ name c, table.get? name = some c → c.state ≠ .inProgress) (seen : List Bytes)
    (name : Bytes) :
    (∃ classes ending, table.Walk seen name classes ending) ∨
      ∃ c super, name ∉ seen ∧ table.find name = .ok c ∧ c.state = .verified ∧
        c.file.isInterface = false ∧ c.file.superName = .ok (some super) := by
  by_cases hname : name ∈ seen
  · exact .inl ⟨[], _, .again hname⟩
  cases hfind : table.find name with
  | error fault => exact .inl ⟨[], _, .unloadable hname hfind⟩
  | ok c =>
    cases hstate : c.state with
    | done => exact .inl ⟨[], _, .done hname hfind hstate⟩
    | failed => exact .inl ⟨[], _, .failed hname hfind hstate⟩
    | inProgress => exact absurd hstate (hidle name c (get?_of_find hfind (by simp [hstate])))
    | verified =>
      cases hinterface : c.file.isInterface with
      | true => exact .inl ⟨[name], _, .interface hname hfind hstate hinterface⟩
      | false =>
        obtain ⟨super, hsuper⟩ := ClassFile.superName_of_check (find_of_check htable hfind).2
        cases super with
        | none => exact .inl ⟨[name], _, .root hname hfind hstate hinterface hsuper⟩
        | some super => exact .inr ⟨c, super, hname, rfl, hstate, hinterface, hsuper⟩

/-- The walk is finite whenever some depth is enough for the initialization. -/
theorem Midway.exists_walk (hmid : table.Midway seen current) (htable : table.Checked)
    (hidle : ∀ name c, table.get? name = some c → c.state ≠ .inProgress) (depth : Nat)
    (hrun : ∀ later, (discard (Linking.load name) >>= fun _ => Linking.initClass depth name).run
      current ≠ .error .tooDeep later) :
    ∃ classes ending, table.Walk seen name classes ending := by
  induction depth generalizing seen current name with
  | zero =>
    rcases walk_stops_or_steps htable hidle seen name with hwalk | ⟨c, super, hname, hfind, -⟩
    · exact hwalk
    · obtain ⟨next, hload, -⟩ := hmid.run_load hname hfind
      refine absurd ?_ (hrun next)
      simp only [EStateM.run_bind, run_discard, hload]
      rfl
  | succ depth ih =>
    rcases walk_stops_or_steps htable hidle seen name with
      hwalk | ⟨c, super, hname, hfind, hstate, hinterface, hsuper⟩
    · exact hwalk
    · obtain ⟨next, hload, hnext⟩ := hmid.run_load hname hfind
      suffices hwalk : ∃ classes ending, table.Walk (name :: seen) super classes ending by
        obtain ⟨classes, ending, hwalk⟩ := hwalk
        exact ⟨name :: classes, ending, .step hname hfind hstate hinterface hsuper hwalk⟩
      refine ih (hmid.enter hnext) fun later htooDeep => hrun later ?_
      have hparent : (Linking.withSuperclass c.file (Linking.initClass depth)).run
          (next.setState name .inProgress) = .error .tooDeep later := by
        rw [← htooDeep]
        simp only [Linking.withSuperclass, hinterface, hsuper]
        rfl
      simp only [EStateM.run_bind, run_discard, hload,
        Linking.run_initClass_verified hnext.get?_self hstate, hparent]

theorem exists_walk {start : Bytes} {c : LoadedClass} (htable : table.Checked)
    (hidle : ∀ name c, table.get? name = some c → c.state ≠ .inProgress)
    (hstart : table.get? start = some c) {depth : Nat}
    (hrun : ∀ later, (Linking.initClass depth start).run table ≠ .error .tooDeep later) :
    ∃ classes ending, table.Walk [] start classes ending := by
  refine (midway_nil table).exists_walk htable hidle depth fun later htooDeep => hrun later ?_
  rw [← htooDeep]
  simp only [EStateM.run_bind, run_discard, Linking.run_load, hstart]

def plainFile (name super : Bytes) : ClassFile where
  pool := ⟨#[.utf8 name, .classEntry 0, .utf8 super, .classEntry 2]⟩
  thisClass := 1
  superClass := some 3

/-- Two classes each of which is the superclass of the other. -/
def ring : ClassTable where
  classes := (NameMap.empty.insert [65] { file := plainFile [65] [66] }).insert [66]
    { file := plainFile [66] [65] }

end ClassTable

end ClassMachine
