import ClassMachine.Proofs.ClassTable.Registration
import ClassMachine.Proofs.Machine.Stability
import ClassMachine.Proofs.Native.Installed

/-!
# Objects and their classes

An object knows its class by name. The class registered under this name is the one that the object
has been made from: its name is that name, and the object has a slot for each field that a new object
of the class has. Objects keep their class, and classes their files, so this stays so.
-/

namespace ClassMachine

open Work ClassTable

/-- The object has been made from the class file, whatever has been stored in it since. -/
structure Instance.Belongs (object : Instance) (file : ClassFile) : Prop where
  named : file.name = .ok object.className
  slots : ∃ fields, file.newInstance = .ok fields ∧
    ∀ name, fields.contains name = true → object.fields.contains name = true

namespace Heap

theorem get?_allocate (heap : Heap) (object : Instance) (id : ObjectId) :
    (heap.allocate object).2.get? id = if id = heap.objects.size then some object else heap.get? id :=
  Array.getElem?_push ..

theorem get?_setField (heap : Heap) (id other : ObjectId) (name : Bytes) (value : Slot) :
    (heap.setField id name value).get? other =
      if id = other then (heap.get? other).map fun object =>
        { object with fields := object.fields.insert name value }
      else heap.get? other :=
  Array.getElem?_modify

end Heap

namespace Machine

def Populated (machine : Machine) : Prop :=
  ∀ id object, machine.heap.get? id = some object →
    ∃ c, machine.table.get? object.className = some c ∧ object.Belongs c.file

/-- Classes keep their files, and if all objects are of registered classes they go on being so. -/
structure Populates (machine later : Machine) : Prop where
  grows : machine.table.Grows later.table
  populated : machine.table.Checked → machine.Populated → later.Populated

variable {machine later : Machine}

theorem exists_of_grows {object : Instance} (hgrows : machine.table.Grows later.table)
    (h : ∃ c, machine.table.get? object.className = some c ∧ object.Belongs c.file) :
    ∃ c, later.table.get? object.className = some c ∧ object.Belongs c.file := by
  obtain ⟨c, hget, hbelongs⟩ := h
  obtain ⟨d, hd, hfile⟩ := hgrows.kept _ c hget
  exact ⟨d, hd, hfile ▸ hbelongs⟩

theorem populates_of_grows (hgrows : machine.table.Grows later.table)
    (hheap : later.heap = machine.heap) : machine.Populates later where
  grows := hgrows
  populated _ hpopulated _ object hget :=
    exists_of_grows hgrows (hpopulated _ object (hheap ▸ hget))

theorem populates_refl (machine : Machine) : machine.Populates machine :=
  populates_of_grows (Grows.refl _) rfl

theorem Populates.trans (first second third : Machine) (h : first.Populates second)
    (hthird : second.Populates third) : first.Populates third where
  grows := h.grows.trans _ _ _ hthird.grows
  populated hchecked hpopulated :=
    hthird.populated (h.grows.checked hchecked) (h.populated hchecked hpopulated)

theorem populates_setField (machine : Machine) (id : ObjectId) (name : Bytes) (value : Slot) :
    machine.Populates { machine with heap := machine.heap.setField id name value } where
  grows := Grows.refl _
  populated hchecked hpopulated other object hget := by
    simp only [Heap.get?_setField] at hget
    split at hget
    · obtain ⟨old, hold, rfl⟩ := Option.map_eq_some_iff.1 hget
      obtain ⟨c, hc, hnamed, fields, hfields, hslots⟩ := hpopulated other old hold
      refine ⟨c, hc, hnamed, fields, hfields, fun slot hslot => ?_⟩
      have hold := hslots slot hslot
      simp only [NameMap.contains, NameMap.get?_insert] at hold ⊢
      split
      · rfl
      · exact hold
    · exact hpopulated other object hget

theorem create_populates (name : Bytes) :
    Within Populates (Run.link (Linking.load name) >>= Run.create) := by
  intro machine
  rw [EStateM.run_bind, Run.run_link]
  have hgrows := Linking.load_grows name machine.table
  cases hload : (Linking.load name).run machine.table with
  | error stop table =>
    rw [hload] at hgrows
    exact populates_of_grows hgrows rfl
  | ok file table =>
    rw [hload] at hgrows
    have hloaded : machine.Populates { machine with table } := populates_of_grows hgrows rfl
    simp only [Run.create, Run.structural]
    cases hname : file.name with
    | error e => exact hloaded
    | ok className =>
      cases hfields : file.newInstance with
      | error e => exact hloaded
      | ok fields =>
        refine ⟨hgrows, fun hchecked hpopulated id object hget => ?_⟩
        have hobject := machine.heap.get?_allocate ⟨className, fields⟩ id
        by_cases hnew : id = machine.heap.objects.size
        · rw [if_pos hnew] at hobject
          obtain rfl := Option.some.inj (hobject.symm.trans hget)
          have hnamed : ∀ name c, machine.table.get? name = some c → c.file.name = .ok name :=
            fun name c hc => (hchecked name c hc).1
          obtain ⟨hsame, ⟨c, hc, hfile⟩, -⟩ := (loadsRightly hnamed name).loaded file table hload
          obtain rfl := Except.ok.inj (hname.symm.trans hsame)
          exact ⟨c, hc, hfile ▸ hname, fields, hfile ▸ hfields, fun _ h => h⟩
        · rw [if_neg hnew] at hobject
          exact exists_of_grows hgrows (hpopulated id object (hobject.symm.trans hget))

theorem populates_stable : Stable Populates where
  refl := populates_refl
  trans := Populates.trans
  stack machine _ := populates_of_grows (Grows.refl machine.table) rfl
  console machine _ := populates_of_grows (Grows.refl machine.table) rfl
  field := populates_setField
  load name machine := by
    have hgrows := Linking.load_grows name machine.table
    rw [Run.run_link]
    cases hrun : (Linking.load name).run machine.table <;> rw [hrun] at hgrows <;>
      exact populates_of_grows hgrows rfl
  init depth name machine := by
    have hgrows := Linking.initClass_grows depth name machine.table
    rw [Run.run_link]
    cases hrun : (Linking.initClass depth name).run machine.table <;> rw [hrun] at hgrows <;>
      exact populates_of_grows hgrows rfl
  create := create_populates

/-- The one object of the machine at its start is the stream. -/
theorem populated_installed (source : ClassSource) (console : Console)
    (address : ObjectId → Nat) :
    (Bootstrap.machine source console address).Populated := by
  obtain ⟨object, string, stream, system, hobject, hstring, hstream, hsystem, hmachine⟩ :=
    Bootstrap.machine_eq source console address
  intro id found hget
  have hstart : (Bootstrap.machine source console address).heap.objects =
      #[⟨Bootstrap.printStreamName, .empty⟩] := by
    rw [hmachine]
  have hmem : found ∈ (Bootstrap.machine source console address).heap.objects :=
    Array.mem_of_getElem? hget
  rw [hstart, Array.mem_singleton] at hmem
  subst hmem
  have hnames := Bootstrap.names_nodup
  simp only [List.nodup_cons, List.mem_cons, List.not_mem_nil, not_or, or_false] at hnames
  refine ⟨stream, ?_, hstream.named, .empty, hstream.creates, fun _ h => h⟩
  simp [hmachine, ClassTable.get?, hnames.2.2.1]

end Machine

end ClassMachine
