import ClassMachine.Proofs.Lifecycle.Running
import ClassMachine.Proofs.Native.Installed

/-!
# The life of a class

A session is any sequence of operations on a machine that starts with no class or with its own. It
goes on after an operation that fails; if the depth of an operation is used up it stops there, with
the moments that there have been.

A class goes from verified to in progress and from there to done or failed, where it stays. When no
initialization is under way none is in progress, and superclasses of classes that are done are done.
-/

namespace ClassMachine.Lifecycle

open Work

/-- What may be asked of the machine. -/
inductive Operation where
  | define (content : Bytes)
  | load (name : Bytes)
  | init (name : Bytes)
  | resolve (className name descriptor : Bytes)
  | invoke (className name descriptor : Bytes) (args : List Slot)

namespace Operation

def work (depth : Nat) : Operation → Run Unit
  | define content => Run.link (discard (Linking.define content))
  | load name => Run.link (discard (Linking.load name))
  | init name => Run.link (Linking.initClass depth name)
  | resolve className name descriptor =>
    Run.link (discard (Linking.resolve className name descriptor))
  | invoke className name descriptor args => Machine.invoke depth className name descriptor args

def defineMoments (content : Bytes) : Moments ClassTable :=
  fun table => [⟨[], final ((Linking.define content).run table)⟩]

def targetMoments (depth : Nat) (name : Bytes) : Moments ClassTable :=
  follow (Linking.loadMoments [] name) (discard (Linking.load name)) fun _ =>
    follow (Linking.initMoments depth [] name) (Linking.initClass depth name) fun _ =>
      Linking.loadMoments [] name

def moments (depth : Nat) : Operation → Moments Machine
  | define content => onTable (defineMoments content)
  | load name => onTable (Linking.loadMoments [] name)
  | init name => onTable (Linking.initMoments depth [] name)
  | resolve className _ _ => onTable (Linking.loadMoments [] className)
  | invoke className name descriptor args =>
    follow (onTable (targetMoments depth className))
      (Run.link do
        discard (Linking.load className)
        Linking.initClass depth className
        Linking.resolve className name descriptor)
      fun target => Machine.methodMoments depth target args

theorem leads_work (depth : Nat) (operation : Operation) :
    Leads Machine.table (operation.moments depth) (operation.work depth) := by
  cases operation with
  | define content =>
    refine Leads.link (Leads.discard fun table _ => ?_)
    exact ⟨_, .single (.load (Linking.define_extends content table)), rfl, fun _ => rfl⟩
  | load name => exact (Linking.leads_load name).discard.link
  | init name => exact (Linking.leads_initClass depth name).link
  | resolve className name descriptor => exact (Linking.leads_resolve _ _ _).discard.link
  | invoke className name descriptor args =>
    refine Leads.bind (Leads.link ?_) fun target => Machine.leads_runMethod depth target args
    apply (Linking.leads_load className).discard.bind
    intro _
    exact (Linking.leads_initClass depth className).bind fun _ => Linking.leads_resolve _ _ _

end Operation

/-- The moments of a session; each operation has the depth that is given for it. -/
def sessionMoments : List (Operation × Nat) → Moments Machine
  | [] => quiet
  | (operation, depth) :: rest => fun machine =>
    operation.moments depth machine ++
      match (operation.work depth).run machine with
      | .error .tooDeep _ => []
      | result => sessionMoments rest (final result)

def session : List (Operation × Nat) → Machine → Machine
  | [], machine => machine
  | (operation, depth) :: rest, machine =>
    match (operation.work depth).run machine with
    | .error .tooDeep later => later
    | result => session rest (final result)

theorem trail_session (operations : List (Operation × Nat)) (machine : Machine)
    (hmachine : machine.table.Checked) :
    ∃ last, Trail ⟨[], machine.table⟩ (sessionMoments operations machine) last ∧
      last.table = (session operations machine).table := by
  induction operations generalizing machine with
  | nil => exact ⟨_, .nil _, rfl⟩
  | cons operation rest ih =>
    obtain ⟨operation, depth⟩ := operation
    obtain ⟨middle, htrail, htable, hactive⟩ := operation.leads_work depth machine hmachine
    have hon (hstop : ∀ later, (operation.work depth).run machine ≠ .error .tooDeep later) :
        Trail ⟨[], machine.table⟩ (operation.moments depth machine)
          ⟨[], (final ((operation.work depth).run machine)).table⟩ := by
      obtain ⟨active, table⟩ := middle
      obtain rfl : active = [] := hactive hstop
      exact htable ▸ htrail
    simp only [sessionMoments, session]
    cases hrun : (operation.work depth).run machine with
    | ok _ later =>
      rw [hrun] at hon
      have hfirst := hon fun _ h => nomatch h
      obtain ⟨last, hrest, hlast⟩ := ih later (hfirst.grows.checked hmachine)
      exact ⟨last, hfirst.append hrest, hlast⟩
    | error stop later =>
      rw [hrun] at hon htable
      cases stop with
      | tooDeep => exact ⟨middle, by rw [List.append_nil]; exact htrail, htable⟩
      | fault fault =>
        have hfirst := hon fun _ h => nomatch h
        obtain ⟨last, hrest, hlast⟩ := ih later (hfirst.grows.checked hmachine)
        exact ⟨last, hfirst.append hrest, hlast⟩

/-- The machine at the start of a session, with its own classes or without any. -/
def beginning (installed : Bool) (source : ClassSource) (console : Console)
    (address : ObjectId → Nat := Heap.spaced) : Machine :=
  if installed then Bootstrap.machine source console address
  else { table := { source }, heap := { address }, console }

/-- A table on which every class is done, after its superclass, is a sound beginning. -/
theorem sound_of_done {table : ClassTable} (htable : table.Checked)
    (hdone : ∀ name c, table.get? name = some c → c.state = .done)
    (hsupers : ∀ name c super, table.get? name = some c → c.file.parent = some super →
      ∃ d, table.get? super = some d) : Sound table ⟨[], table⟩ where
  checked := htable
  progress name := by
    refine iff_of_false List.not_mem_nil ?_
    rintro ⟨c, hget, hstate⟩
    rw [hdone name c hget] at hstate
    contradiction
  nodup := List.nodup_nil
  linked := .nil
  ready name c super hget _ hparent := by
    obtain ⟨d, hd⟩ := hsupers name c super hget hparent
    exact ⟨d, hd, .inl (hdone super d hd)⟩
  supers := by
    left
    intro name c super hget _ hparent
    obtain ⟨d, hd⟩ := hsupers name c super hget hparent
    exact ⟨d, hd, hdone super d hd⟩
  empty name c hnone hget := by
    rw [hnone] at hget
    contradiction
  filled name c hnone hget := by
    rw [hnone] at hget
    contradiction

theorem parent_of_installed {name super : Bytes} {c : LoadedClass}
    (h : Bootstrap.Installed name c) (hparent : c.file.parent = some super) :
    super = Drafting.objectName := by
  unfold ClassFile.parent at hparent
  split at hparent
  · contradiction
  · rcases h.super with hsuper | hsuper
    · simp [hsuper, Except.toOption] at hparent
    · rw [hsuper] at hparent
      exact (Option.some.inj hparent).symm

theorem sound_installed (source : ClassSource) (console : Console)
    (address : ObjectId → Nat) :
    Sound (Bootstrap.machine source console address).table
      ⟨[], (Bootstrap.machine source console address).table⟩ := by
  refine sound_of_done (Bootstrap.machine_checked source console address) ?_ ?_
  · intro name c hget
    exact (Bootstrap.installed_of_get? hget).done
  · intro name c super hget hparent
    rw [parent_of_installed (Bootstrap.installed_of_get? hget) hparent]
    exact Bootstrap.get?_objectName source console address

theorem sound_beginning (installed : Bool) (source : ClassSource) (console : Console)
    (address : ObjectId → Nat) :
    Sound (beginning installed source console address).table
      ⟨[], (beginning installed source console address).table⟩ := by
  unfold beginning
  split
  · exact sound_installed source console address
  · refine sound_of_done ?_ ?_ ?_
    · exact fun _ _ h => nomatch h
    · exact fun _ _ h => nomatch h
    · exact fun _ _ _ h => nomatch h

/-- What a maintainer relies on at every moment. The classes in `start` are those that the machine
brings with it; all others have been read from a class file. -/
structure Lawful (start : ClassTable) (m : Moment) : Prop where
  progress : ∀ name c, m.table.get? name = some c → (c.state = .inProgress ↔ name ∈ m.active)
  supers : m.active = [] → ∀ name c super, m.table.get? name = some c → c.state = .done →
    c.file.isInterface = false → c.file.superName = .ok (some super) →
    ∃ d, m.table.get? super = some d ∧ d.state = .done
  empty : ∀ name c, start.get? name = none → m.table.get? name = some c → c.state ≠ .done →
    c.statics = .empty
  keys : ∀ name c, start.get? name = none → m.table.get? name = some c → c.state = .done →
    ∀ field, c.statics.contains field = c.file.staticFields.any (c.file.isNamed field)
  values : ∀ name c, start.get? name = none → m.table.get? name = some c → c.state = .done →
    ∀ field first, c.file.staticFields.find? (c.file.isNamed field) = some first →
    ∃ value, c.file.initialValue first = .ok value ∧ c.statics.get? field = some value

theorem Sound.lawful {start : ClassTable} {m : Moment} (h : Sound start m) : Lawful start m where
  progress name c hget := by
    rw [h.progress]
    constructor
    · exact fun hstate => ⟨c, hget, hstate⟩
    · rintro ⟨d, hd, hstate⟩
      exact Option.some.inj (hget.symm.trans hd) ▸ hstate
  supers hidle name c super hget hdone hinterface hsuper := by
    have hparent : c.file.parent = some super := by
      simp [ClassFile.parent, hinterface, hsuper, Except.toOption]
    rcases h.supers with hsupers | ⟨inner, hinner, -⟩
    · exact hsupers name c super hget hdone hparent
    · rw [hidle] at hinner
      contradiction
  empty := h.empty
  values name c hnone hget hdone field first hfirst := by
    have hfield := ClassFile.mem_of_mem_staticFields first (List.mem_of_find?_eq_some hfirst)
    obtain ⟨value, hvalue⟩ := ClassFile.initialValue_of_check (h.checked name c hget).2 hfield
    refine ⟨value, hvalue, ?_⟩
    rw [h.filled name c hnone hget hdone field, ClassFile.initialStatic, ClassFile.firstValue, hfirst]
    simp [hvalue, Except.toOption]
  keys name c hnone hget hdone field := by
    rw [NameMap.contains, h.filled name c hnone hget hdone field, ClassFile.initialStatic,
      ClassFile.firstValue]
    cases hfirst : c.file.staticFields.find? (c.file.isNamed field) with
    | none =>
      symm
      simpa using hfirst
    | some first =>
      have hfield := ClassFile.mem_of_mem_staticFields first (List.mem_of_find?_eq_some hfirst)
      obtain ⟨value, hvalue⟩ := ClassFile.initialValue_of_check (h.checked name c hget).2 hfield
      have hany : c.file.staticFields.any (c.file.isNamed field) = true :=
        List.any_eq_true.2 ⟨first, List.mem_of_find?_eq_some hfirst, List.find?_some hfirst⟩
      simp [hvalue, Except.toOption, hany]

/-- Classes that are done or have failed stay as they are. -/
def Keeping (moment next : Moment) : Prop :=
  ∀ name c, moment.table.get? name = some c → c.state = .done ∨ c.state = .failed →
    next.table.get? name = some c

theorem Keeping.trans {first second third : Moment} (h : Keeping first second)
    (hthird : Keeping second third) : Keeping first third :=
  fun name c hget hstate => hthird name c (h name c hget hstate) hstate

instance : Trans Keeping Keeping Keeping :=
  ⟨Keeping.trans⟩

theorem Moves.keeping {moment next : Moment} (h : Moves moment.table next.table) :
    Keeping moment next := by
  intro name c hget hstate
  obtain ⟨d, hd, hmove⟩ := h.moved name c hget
  cases hmove with
  | stay => exact hd
  | begin h => simp [h] at hstate
  | complete statics h => simp [h] at hstate
  | fail h => simp [h] at hstate

end ClassMachine.Lifecycle
