import Mathlib.Data.List.Perm.Subperm
import ClassMachine.Proofs.ClassTable.Walk

/-!
# What is going to become of a class

The table and its source settle beforehand which verified classes are initialized along with a class,
and whether that is going to fail and how: it fails if the class is missing or has failed, or if the
initialization of its superclass is going to fail. Classes that form a cycle do not fail.

If there are finitely many classes to be found, every walk is finite.
-/

namespace ClassMachine

open Work

theorem ClassFile.parent_eq_some_iff {file : ClassFile} {super : Bytes} :
    file.parent = some super ↔ file.isInterface = false ∧ file.superName = .ok (some super) := by
  unfold parent
  cases file.isInterface with
  | true => simp
  | false => cases hsuper : file.superName <;> simp [Except.toOption]

namespace ClassTable

/-- No initialization is under way. -/
def Idle (table : ClassTable) : Prop :=
  ∀ name c, table.get? name = some c → c.state ≠ .inProgress

/-- The initialization of a class is going to fail with a fault. -/
inductive Fails (table : ClassTable) : Bytes → Fault → Prop
  | unloadable {name fault} : table.find name = .error fault → Fails table name fault
  | failed {name c} : table.find name = .ok c → c.state = .failed →
      Fails table name (.noClassDefFound (Utf8.lenient name))
  | super {name c super fault} : table.find name = .ok c → c.state = .verified →
      c.file.parent = some super → Fails table super fault →
      Fails table name (.superclass (Utf8.lenient name) fault)

def Doomed (table : ClassTable) (name : Bytes) : Prop :=
  ∃ fault, table.Fails name fault

/-- The verified classes that are initialized along with a class. -/
inductive Ahead (table : ClassTable) (start : Bytes) : Bytes → Prop
  | self {c} : table.find start = .ok c → c.state = .verified → Ahead table start start
  | super {name c super d} : Ahead table start name → table.find name = .ok c →
      c.file.parent = some super → table.find super = .ok d → d.state = .verified →
      Ahead table start super

/-- The walk has stopped before the class, as nothing is to be done about it. -/
def Ending.Before (table : ClassTable) (ending : Ending) (name : Bytes) : Prop :=
  match ending with
  | .done => ∃ c, table.find name = .ok c ∧ c.state = .done
  | .failed other => other = name ∧ ∃ c, table.find name = .ok c ∧ c.state = .failed
  | .unloadable other fault => other = name ∧ table.find name = .error fault
  | _ => False

variable {table : ClassTable} {seen classes names : List Bytes} {start name super : Bytes}
  {ending : Ending} {fault : Fault} {c : LoadedClass}

theorem Ending.Before.not_verified (h : ending.Before table name) (hfind : table.find name = .ok c) :
    c.state ≠ .verified := by
  cases ending with
  | done =>
    obtain ⟨d, hfound, hstate⟩ := h
    obtain rfl := Except.ok.inj (hfound.symm.trans hfind)
    simp [hstate]
  | failed other =>
    obtain ⟨-, d, hfound, hstate⟩ := h
    obtain rfl := Except.ok.inj (hfound.symm.trans hfind)
    simp [hstate]
  | unloadable other fault =>
    rw [h.2] at hfind
    contradiction
  | interface | root | again => contradiction

theorem Fails.of_verified (h : table.Fails name fault) (hfind : table.find name = .ok c)
    (hverified : c.state = .verified) (hparent : c.file.parent = some super) :
    ∃ cause, fault = .superclass (Utf8.lenient name) cause ∧ table.Fails super cause := by
  cases h with
  | unloadable hfound =>
    rw [hfind] at hfound
    contradiction
  | failed hfound hstate =>
    obtain rfl := Except.ok.inj (hfind.symm.trans hfound)
    rw [hstate] at hverified
    contradiction
  | super hfound _ hsuper hfails =>
    obtain rfl := Except.ok.inj (hfind.symm.trans hfound)
    obtain rfl := Option.some.inj (hparent.symm.trans hsuper)
    exact ⟨_, rfl, hfails⟩

theorem Fails.unique (h : table.Fails name fault) {other : Fault} (hother : table.Fails name other) :
    other = fault := by
  induction h generalizing other with
  | unloadable hfind =>
    cases hother with
    | unloadable hfound => exact Except.error.inj (hfound.symm.trans hfind)
    | failed hfound _ | super hfound _ _ _ =>
      rw [hfind] at hfound
      contradiction
  | failed hfind hstate =>
    cases hother with
    | unloadable hfound =>
      rw [hfind] at hfound
      contradiction
    | failed _ _ => rfl
    | super hfound hverified _ _ =>
      obtain rfl := Except.ok.inj (hfind.symm.trans hfound)
      rw [hstate] at hverified
      contradiction
  | super hfind hverified hparent _ ih =>
    obtain ⟨cause, rfl, hcause⟩ := hother.of_verified hfind hverified hparent
    rw [ih hcause]

theorem Ahead.verified (h : table.Ahead start name) :
    ∃ c, table.find name = .ok c ∧ c.state = .verified := by
  cases h with
  | self hfind hstate => exact ⟨_, hfind, hstate⟩
  | super _ _ _ hfind hstate => exact ⟨_, hfind, hstate⟩

theorem Ahead.cons (hfind : table.find name = .ok c) (hstate : c.state = .verified)
    (hparent : c.file.parent = some start) {other : Bytes} (h : table.Ahead start other) :
    table.Ahead name other := by
  induction h with
  | self hstart hverified =>
    exact .super (.self hfind hstate) hfind hparent hstart hverified
  | super _ hother hsuper hfound hverified ih => exact .super ih hother hsuper hfound hverified

namespace Walk

theorem verified (h : table.Walk seen name classes ending) :
    ∀ other ∈ classes, ∃ c, table.find other = .ok c ∧ c.state = .verified := by
  induction h with
  | again _ | unloadable _ _ | done _ _ _ | failed _ _ _ => exact fun _ h => nomatch h
  | interface _ hfind hstate _ | root _ hfind hstate _ _ =>
    intro other hother
    exact List.mem_singleton.1 hother ▸ ⟨_, hfind, hstate⟩
  | step _ hfind hstate _ _ _ ih =>
    intro other hother
    rcases List.mem_cons.1 hother with rfl | hother
    · exact ⟨_, hfind, hstate⟩
    · exact ih other hother

/-- The class that a walk comes to is on it, has been come to before, or is where it stops. -/
theorem comes (h : table.Walk seen name classes ending) :
    name ∈ classes ∨ name ∈ seen ∨ ending.Before table name := by
  cases h with
  | again hname => exact .inr (.inl hname)
  | unloadable _ hfind => exact .inr (.inr ⟨rfl, hfind⟩)
  | done _ hfind hstate => exact .inr (.inr ⟨_, hfind, hstate⟩)
  | failed _ hfind hstate => exact .inr (.inr ⟨rfl, _, hfind, hstate⟩)
  | interface _ _ _ _ | root _ _ _ _ _ | step _ _ _ _ _ _ => exact .inl (List.mem_cons_self ..)

theorem closed (h : table.Walk seen name classes ending) :
    ∀ other ∈ classes, ∀ c super, table.find other = .ok c → c.file.parent = some super →
      super ∈ classes ∨ super ∈ seen ∨ ending.Before table super := by
  induction h with
  | again _ | unloadable _ _ | done _ _ _ | failed _ _ _ => exact fun _ h => nomatch h
  | interface _ hfind _ hinterface =>
    intro other hother c super hfound hparent
    obtain rfl := List.mem_singleton.1 hother
    obtain rfl := Except.ok.inj (hfind.symm.trans hfound)
    rw [ClassFile.parent_eq_some_iff, hinterface] at hparent
    exact nomatch hparent.1
  | root _ hfind _ _ hroot =>
    intro other hother c super hfound hparent
    obtain rfl := List.mem_singleton.1 hother
    obtain rfl := Except.ok.inj (hfind.symm.trans hfound)
    rw [ClassFile.parent_eq_some_iff, hroot] at hparent
    exact nomatch hparent.2
  | @step seen name c super classes ending _ hfind _ _ hsuper hwalk ih =>
    intro other hother d above hfound hparent
    have hon : above ∈ classes ∨ above ∈ name :: seen ∨ ending.Before table above := by
      rcases List.mem_cons.1 hother with rfl | hother
      · obtain rfl := Except.ok.inj (hfind.symm.trans hfound)
        rw [ClassFile.parent_eq_some_iff, hsuper] at hparent
        obtain rfl := Option.some.inj (Except.ok.inj hparent.2)
        exact hwalk.comes
      · exact ih other hother d above hfound hparent
    rcases hon with hon | hon | hon
    · exact .inl (List.mem_cons_of_mem _ hon)
    · rcases List.mem_cons.1 hon with rfl | hon
      · exact .inl (List.mem_cons_self ..)
      · exact .inr (.inl hon)
    · exact .inr (.inr hon)

/-- If the last class on a walk is given a fault, all classes on it are doomed. -/
theorem fails (h : table.Walk seen name classes ending) (hfault : ending.fault? = some fault) :
    table.Fails name (nested classes fault) ∧ ∀ other ∈ classes, table.Doomed other := by
  induction h with
  | again _ | done _ _ _ | interface _ _ _ _ | root _ _ _ _ _ => contradiction
  | unloadable _ hfind =>
    obtain rfl := Option.some.inj hfault
    exact ⟨.unloadable hfind, fun _ h => nomatch h⟩
  | failed _ hfind hstate =>
    obtain rfl := Option.some.inj hfault
    exact ⟨.failed hfind hstate, fun _ h => nomatch h⟩
  | step _ hfind hstate hinterface hsuper _ ih =>
    obtain ⟨hfails, hdoomed⟩ := ih hfault
    have hparent := ClassFile.parent_eq_some_iff.2 ⟨hinterface, hsuper⟩
    have hself := Fails.super hfind hstate hparent hfails
    exact ⟨hself, List.forall_mem_cons.2 ⟨⟨_, hself⟩, hdoomed⟩⟩

/-- If no class on a walk is given a fault, none of them is doomed, nor is one where it stops. -/
theorem not_doomed (h : table.Walk [] name classes ending) (hfault : ending.fault? = none)
    {other : Bytes} (hother : other ∈ classes ∨ ending.Before table other) :
    ¬ table.Doomed other := by
  rintro ⟨fault, hfails⟩
  have hstate : ∀ other, other ∈ classes ∨ ending.Before table other →
      ∃ c, table.find other = .ok c ∧
        (c.state = .verified ∧ other ∈ classes ∨ c.state = .done) := by
    intro other hother
    rcases hother with hother | hother
    · obtain ⟨c, hfind, hstate⟩ := h.verified other hother
      exact ⟨c, hfind, .inl ⟨hstate, hother⟩⟩
    · cases ending with
      | done =>
        obtain ⟨c, hfind, hstate⟩ := hother
        exact ⟨c, hfind, .inr hstate⟩
      | interface | root | again => contradiction
      | failed | unloadable => contradiction
  induction hfails with
  | unloadable hfind =>
    obtain ⟨c, hfound, -⟩ := hstate _ hother
    rw [hfind] at hfound
    contradiction
  | failed hfind hfailed =>
    obtain ⟨c, hfound, hverified⟩ := hstate _ hother
    obtain rfl := Except.ok.inj (hfind.symm.trans hfound)
    simp [hfailed] at hverified
  | super hfind hverified hparent _ ih =>
    obtain ⟨c, hfound, hon⟩ := hstate _ hother
    obtain rfl := Except.ok.inj (hfind.symm.trans hfound)
    simp only [hverified, true_and, reduceCtorEq, or_false] at hon
    refine ih ?_
    rcases h.closed _ hon _ _ hfind hparent with hsuper | hsuper | hsuper
    · exact .inl hsuper
    · contradiction
    · exact .inr hsuper

theorem ahead (h : table.Walk seen name classes ending) :
    ∀ other ∈ classes, table.Ahead name other := by
  induction h with
  | again _ | unloadable _ _ | done _ _ _ | failed _ _ _ => exact fun _ h => nomatch h
  | interface _ hfind hstate _ | root _ hfind hstate _ _ =>
    intro other hother
    obtain rfl := List.mem_singleton.1 hother
    exact .self hfind hstate
  | step _ hfind hstate hinterface hsuper _ ih =>
    have hparent := ClassFile.parent_eq_some_iff.2 ⟨hinterface, hsuper⟩
    intro other hother
    rcases List.mem_cons.1 hother with rfl | hother
    · exact .self hfind hstate
    · exact .cons hfind hstate hparent (ih other hother)

/-- No other classes are initialized along with the first one. -/
theorem ahead_iff (h : table.Walk [] name classes ending) (other : Bytes) :
    table.Ahead name other ↔ other ∈ classes := by
  refine ⟨fun hahead => ?_, h.ahead other⟩
  induction hahead with
  | self hfind hstate =>
    rcases h.comes with hon | hon | hon
    · exact hon
    · contradiction
    · exact absurd hstate (hon.not_verified hfind)
  | super _ hfind hparent hfound hstate ih =>
    rcases h.closed _ ih _ _ hfind hparent with hon | hon | hon
    · exact hon
    · contradiction
    · exact absurd hstate (hon.not_verified hfound)

end Walk

def Covers (names : List Bytes) (table : ClassTable) : Prop :=
  ∀ name c, table.find name = .ok c → name ∈ names

theorem mem_of_lookup {α β : Type} [BEq α] [LawfulBEq α] {entries : List (α × β)} {a : α} {b : β}
    (h : entries.lookup a = some b) : (a, b) ∈ entries := by
  obtain ⟨before, after, rfl, -⟩ := List.lookup_eq_some_iff.1 h
  simp

/-- With class files in memory there are finitely many classes. -/
theorem exists_covers {memory : MemoryClasses} (hsource : table.source = memory.source) :
    ∃ names, Covers names table := by
  refine ⟨table.classes.entries.map Prod.fst ++ memory.files.filterMap fun entry =>
    (ClassFile.parseChecked entry.2).toOption.bind fun file => file.name.toOption,
    fun name c hfind => List.mem_append.2 ?_⟩
  rcases cases_of_find hfind with hget | ⟨-, hfetch, -⟩
  · exact .inl (List.mem_map_of_mem (f := Prod.fst) (mem_of_lookup hget))
  · obtain ⟨content, hread, hfile, hname⟩ := ClassSource.read_of_fetch hfetch
    rw [hsource] at hread
    have hentry := mem_of_lookup (Except.ok.inj hread)
    refine .inr (List.mem_filterMap.2 ⟨_, hentry, ?_⟩)
    simp [hfile, hname, Except.toOption]

/-- A walk that has come to as many classes as there are is at its end. -/
theorem Covers.exists_walk_from (h : Covers names table) (htable : table.Checked)
    (hidle : table.Idle) (room : Nat) (seen : List Bytes) (name : Bytes)
    (hroom : names.length ≤ seen.length + room) (hnodup : seen.Nodup) (hseen : seen ⊆ names) :
    ∃ classes ending, table.Walk seen name classes ending := by
  induction room generalizing seen name with
  | zero =>
    rcases walk_stops_or_steps htable hidle seen name with hwalk | ⟨c, super, hname, hfind, -⟩
    · exact hwalk
    · have hmore : (name :: seen).length ≤ names.length :=
        (List.subperm_of_subset (List.nodup_cons.2 ⟨hname, hnodup⟩)
          (List.cons_subset.2 ⟨h name c hfind, hseen⟩)).length_le
      rw [List.length_cons] at hmore
      omega
  | succ room ih =>
    rcases walk_stops_or_steps htable hidle seen name with
      hwalk | ⟨c, super, hname, hfind, hstate, hinterface, hsuper⟩
    · exact hwalk
    · have hlength : names.length ≤ (name :: seen).length + room := by
        rw [List.length_cons]
        omega
      obtain ⟨classes, ending, hwalk⟩ := ih (name :: seen) super hlength
        (List.nodup_cons.2 ⟨hname, hnodup⟩) (List.cons_subset.2 ⟨h name c hfind, hseen⟩)
      exact ⟨_, ending, .step hname hfind hstate hinterface hsuper hwalk⟩

theorem Covers.exists_walk (h : Covers names table) (htable : table.Checked) (hidle : table.Idle)
    (name : Bytes) :
    ∃ classes ending, table.Walk [] name classes ending ∧ classes.length ≤ names.length := by
  obtain ⟨classes, ending, hwalk⟩ := h.exists_walk_from htable hidle names.length [] name
    (by simp) List.nodup_nil (List.nil_subset _)
  refine ⟨classes, ending, hwalk, ?_⟩
  have hsubset : classes ⊆ names := by
    intro other hother
    obtain ⟨c, hfind, -⟩ := hwalk.verified other hother
    exact h other c hfind
  exact (List.subperm_of_subset (List.nodup_append.1 hwalk.nodup).1 hsubset).length_le

end ClassTable

end ClassMachine
