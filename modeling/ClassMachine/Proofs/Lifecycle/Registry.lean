import ClassMachine.Proofs.ClassTable.Stages
import ClassMachine.Proofs.Lifecycle.Sessions
import ClassMachine.Proofs.Machine.Population

/-!
# The class table over a session

Classes are loaded by operations, within initializations and by instructions, in any order. At every
moment each class is registered under its own name, and it stays there with its file. The source may
be asked for a name over and over, but what it answers is registered at most once; and each object
is of the class that is registered under the name it has.
-/

namespace ClassMachine.Lifecycle

open Work ClassTable

/-- Registered names go on being registered, with the same class files. -/
def Binds (table later : ClassTable) : Prop :=
  ∀ name c, table.get? name = some c → ∃ d, later.get? name = some d ∧ d.file = c.file

/-- The class of that name is new, and the source was asked on the way. -/
def registers (name : Bytes) (table later : ClassTable) : Bool :=
  !table.contains name && later.contains name && decide (later.asked ≠ table.asked)

theorem Moves.binds {table later : ClassTable} (h : Moves table later) : Binds table later := by
  intro name c hget
  obtain ⟨d, hd, hmove⟩ := h.moved name c hget
  exact ⟨d, hd, by cases hmove <;> rfl⟩

theorem Binds.trans {table middle later : ClassTable} (h : Binds table middle)
    (hlater : Binds middle later) : Binds table later := by
  intro name c hget
  obtain ⟨d, hd, hfile⟩ := h name c hget
  obtain ⟨e, he, hsame⟩ := hlater name d hd
  exact ⟨e, he, hsame.trans hfile⟩

theorem Binds.contains {table later : ClassTable} (h : Binds table later) {name : Bytes}
    (hname : table.contains name = true) : later.contains name = true := by
  rw [contains_eq, Option.isSome_iff_exists] at hname ⊢
  obtain ⟨c, hc⟩ := hname
  obtain ⟨d, hd, -⟩ := h name c hc
  exact ⟨d, hd⟩

theorem countP_begins_le_one {α : Type} (p : α → Bool) (xs : List α)
    (h : xs.Pairwise fun x y => p x = true → p y = true) :
    (xs.zip xs.tail).countP (fun (x, y) => !p x && p y) ≤ 1 := by
  induction xs with
  | nil => exact Nat.zero_le 1
  | cons x rest ih =>
    cases rest with
    | nil => exact Nat.zero_le 1
    | cons y rest =>
      have hrest : (y :: rest).Pairwise fun x y => p x = true → p y = true := h.of_cons
      have hcount := ih hrest
      simp only [List.tail_cons] at hcount
      rw [List.tail_cons, List.zip_cons_cons, List.countP_cons]
      by_cases hbegins : (!p x && p y) = true
      · -- From `y` on it goes on, so that none of the later pairs counts.
        have hy : p y = true := (Bool.and_eq_true_iff.1 hbegins).2
        have hon : ∀ z ∈ y :: rest, p z = true := by
          intro z hz
          rcases List.mem_cons.1 hz with rfl | hz
          · exact hy
          · exact List.rel_of_pairwise_cons hrest hz hy
        have hnone : ((y :: rest).zip rest).countP (fun (x, y) => !p x && p y) = 0 := by
          rw [List.countP_eq_zero]
          intro pair hpair
          simp [hon pair.1 (List.of_mem_zip hpair).1]
        rw [hnone, if_pos hbegins]
      · rw [if_neg hbegins]
        exact hcount

namespace Operation

/-- The machines at the start of an operation and at each dispatch of an instruction. -/
def machines (depth : Nat) (operation : Operation) (machine : Machine) : List Machine :=
  machine ::
    match operation with
    | invoke className name descriptor args =>
      match (Machine.finding depth className name descriptor).run machine with
      | .ok target later => Machine.methodDispatches depth target args later
      | .error _ _ => []
    | _ => []

open Machine in
theorem work_populates (depth : Nat) (operation : Operation) :
    Within Populates (operation.work depth) := by
  cases operation with
  | define content =>
    intro machine
    have hgrows := (Linking.define_grows content).discard machine.table
    have hrun := Run.run_link (discard (Linking.define content)) machine
    rw [work, hrun]
    cases hdefine : (discard (Linking.define content)).run machine.table <;>
      rw [hdefine] at hgrows <;> exact populates_of_grows hgrows rfl
  | load name =>
    rw [work, Run.link_discard]
    exact (populates_stable.load name).discard
  | init name => exact populates_stable.init depth name
  | resolve className name descriptor =>
    rw [work, Run.link_discard]
    exact (populates_stable.resolve className name descriptor).discard
  | invoke className name descriptor args =>
    exact populates_stable.invoke depth className name descriptor args

open Machine in
theorem populates_of_mem_machines {depth : Nat} {operation : Operation} {machine met : Machine}
    (hmet : met ∈ operation.machines depth machine) : machine.Populates met := by
  rcases List.mem_cons.1 hmet with rfl | hmet
  · exact populates_refl met
  · cases operation with
    | define content => contradiction
    | load name => contradiction
    | init name => contradiction
    | resolve className name descriptor => contradiction
    | invoke className name descriptor args =>
      simp only at hmet
      cases hrun : (finding depth className name descriptor).run machine with
      | error stop later =>
        rw [hrun] at hmet
        contradiction
      | ok target later =>
        rw [hrun] at hmet
        have hfound := (populates_stable.finding depth className name descriptor).ok hrun
        have hon := populates_stable.of_mem_methodDispatches depth target args later met hmet
        exact Populates.trans _ _ _ hfound hon

end Operation

/-- The machines of a session: at the start of each operation, at each dispatch, and at the end. -/
def sessionMachines : List (Operation × Nat) → Machine → List Machine
  | [], machine => [machine]
  | (operation, depth) :: rest, machine =>
    operation.machines depth machine ++
      match (operation.work depth).run machine with
      | .error .tooDeep later => [later]
      | result => sessionMachines rest (final result)

theorem populates_of_mem_sessionMachines (operations : List (Operation × Nat))
    (machine met : Machine) (hmet : met ∈ sessionMachines operations machine) :
    machine.Populates met := by
  induction operations generalizing machine with
  | nil =>
    obtain rfl := List.mem_singleton.1 hmet
    exact Machine.populates_refl met
  | cons operation rest ih =>
    obtain ⟨operation, depth⟩ := operation
    have hwork := operation.work_populates depth machine
    rcases List.mem_append.1 hmet with hmet | hmet
    · exact Operation.populates_of_mem_machines hmet
    · split at hmet
      next later hrun =>
        obtain rfl := List.mem_singleton.1 hmet
        rw [hrun] at hwork
        exact hwork
      next => exact Machine.Populates.trans _ _ _ hwork (ih _ hmet)

theorem populated_beginning (installed : Bool) (source : ClassSource) (console : Console)
    (address : ObjectId → Nat) :
    (beginning installed source console address).Populated := by
  unfold beginning
  split
  · exact Machine.populated_installed source console address
  · intro id object hget
    simp [Heap.get?] at hget

/-- In the course of any session every class is registered under its own name and stays there, and
loading and defining classes do what they should at every moment; each step asks the source at most
once, and of what is read under a name at most one answer is registered; each object is of the class
registered under its name. -/
theorem session_registry (installed : Bool) (source : ClassSource) (console : Console)
    (address : ObjectId → Nat)
    (operations : List (Operation × Nat)) :
    let start := beginning installed source console address
    let moments := ⟨[], start.table⟩ :: sessionMoments operations start
    (∀ moment ∈ moments, moment.table.Orderly) ∧
      (moments.IsChain fun moment next => moment.table.AsksOnce next.table) ∧
      (moments.IsChain fun moment next => Moves moment.table next.table) ∧
      (moments.Pairwise fun moment later => Binds moment.table later.table) ∧
      (∀ name, (moments.zip moments.tail).countP
        (fun (moment, next) => registers name moment.table next.table) ≤ 1) ∧
      (moments.getLast (List.cons_ne_nil _ _)).table = (session operations start).table ∧
      ∀ machine ∈ sessionMachines operations start, machine.Populated := by
  intro start moments
  have hstart := sound_beginning installed source console address
  obtain ⟨last, htrail, hlast⟩ := trail_session operations start hstart.checked
  have hmoves := htrail.moves hstart
  have hbinds : moments.Pairwise fun moment later => Binds moment.table later.table := by
    have htrans : Trans (fun (m n : Moment) => Binds m.table n.table)
        (fun (m n : Moment) => Binds m.table n.table)
        (fun (m n : Moment) => Binds m.table n.table) := ⟨Binds.trans⟩
    exact (hmoves.imp fun _ _ h => h.binds).pairwise
  refine ⟨fun moment hmem => ?_, htrail.isChain (fun _ _ hstep _ => hstep.asksOnce) hstart, hmoves,
    hbinds, fun name => ?_, by rw [← hlast, htrail.getLast_eq], fun machine hmem => ?_⟩
  · have hchecked := ((htrail.sound hstart).1 moment hmem).checked
    exact orderly_of_named fun name c hget => (hchecked name c hget).1
  · have hbegins := countP_begins_le_one (fun moment : Moment => moment.table.contains name) moments
      (hbinds.imp fun h hname => h.contains hname)
    refine le_trans (List.countP_mono_left fun pair _ hpair => ?_) hbegins
    exact (Bool.and_eq_true_iff.1 hpair).1
  · have hpopulates := populates_of_mem_sessionMachines operations start machine hmem
    exact hpopulates.populated hstart.checked (populated_beginning installed source console address)

/-- No operation of a session uses up its depth. -/
def Completes : List (Operation × Nat) → Machine → Prop
  | [], _ => True
  | (operation, depth) :: rest, machine =>
    ¬ GaveUp ((operation.work depth).run machine) ∧
      Completes rest (final ((operation.work depth).run machine))

theorem Sound.idle {start table : ClassTable} (h : Sound start ⟨[], table⟩) : table.Idle := by
  intro name c hget hstate
  exact List.not_mem_nil ((h.progress name).2 ⟨c, hget, hstate⟩)

theorem sound_session {start : ClassTable} (operations : List (Operation × Nat)) (machine : Machine)
    (hcompletes : Completes operations machine) (hsound : Sound start ⟨[], machine.table⟩) :
    Sound start ⟨[], (session operations machine).table⟩ ∧
      (session operations machine).table.source = machine.table.source := by
  induction operations generalizing machine with
  | nil => exact ⟨hsound, rfl⟩
  | cons operation rest ih =>
    obtain ⟨operation, depth⟩ := operation
    obtain ⟨hup, hrest⟩ := hcompletes
    obtain ⟨⟨active, table⟩, htrail, htable, hactive⟩ :=
      operation.leads_work depth machine hsound.checked
    obtain rfl : active = [] := hactive fun later hlater => hup ⟨later, hlater⟩
    obtain rfl : table = (final ((operation.work depth).run machine)).table := htable
    obtain ⟨hlater, hsource⟩ := ih _ hrest (htrail.sound hsound).2
    unfold session
    split
    next later hrun => exact absurd ⟨later, hrun⟩ hup
    next => exact ⟨hlater, hsource.trans htrail.grows.source⟩

theorem source_beginning (installed : Bool) (source : ClassSource) (console : Console)
    (address : ObjectId → Nat) :
    (beginning installed source console address).table.source = source := by
  unfold beginning
  split
  · exact Bootstrap.machine_source source console address
  · rfl

/-- Between the operations of a session no initialization is under way, all classes are as they have
been checked, and the source is the same. -/
theorem session_idle (installed : Bool) (source : ClassSource) (console : Console)
    (address : ObjectId → Nat)
    (operations : List (Operation × Nat))
    (hcompletes : Completes operations (beginning installed source console address)) :
    let last := session operations (beginning installed source console address)
    last.table.Checked ∧ last.table.Idle ∧ last.table.source = source := by
  obtain ⟨hlast, hsource⟩ :=
    sound_session operations _ hcompletes (sound_beginning installed source console address)
  exact ⟨hlast.checked, hlast.idle, hsource.trans (source_beginning installed source console address)⟩

end ClassMachine.Lifecycle
