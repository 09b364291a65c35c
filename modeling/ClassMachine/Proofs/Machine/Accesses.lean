import ClassMachine.Proofs.ClassFile.Slots
import ClassMachine.Proofs.Machine.MemberKinds
import ClassMachine.Proofs.Machine.Population

/-!
# Accesses to fields

Objects are made by one instruction, and their fields are stored by another one and read by a third
one. The accesses of a run, in order, make the heap what it is at its end. So it follows from them
alone what each read finds: the last value stored under the name in the object since it was made, or
else what the class has given the new object there.
-/

namespace ClassMachine

open Work

/-- What is done with the fields of an object. A read comes with its answer. -/
inductive Access where
  | created (id : ObjectId) (file : ClassFile)
  | stored (id : ObjectId) (name : Bytes) (value : Slot)
  | read (id : ObjectId) (name : Bytes) (answer : Except Stop Slot)
deriving DecidableEq

namespace Access

/-- What the access stores under that name in that object. -/
def puts (id : ObjectId) (name : Bytes) : Access → Option Slot
  | stored other found value => if other = id ∧ found = name then some value else none
  | _ => none

/-- What a read answers about a field of an object of that class, given what is there. -/
def answer (className name : Bytes) : Option Slot → Except Stop Slot
  | some value => .ok value
  | none => .error (.fault (.resolution
      (.noSuchField (Utf8.lenient className) (Utf8.lenient name))))

end Access

/-- The value stored last under that name in that object. -/
def lastStored (id : ObjectId) (name : Bytes) (accesses : List Access) : Option Slot :=
  accesses.reverse.findSome? (Access.puts id name)

theorem lastStored_cons (id : ObjectId) (name : Bytes) (access : Access) (accesses : List Access) :
    lastStored id name (access :: accesses) =
      (lastStored id name accesses).or (access.puts id name) := by
  simp [lastStored, List.findSome?_append]

namespace Heap

def answer (heap : Heap) (id : ObjectId) (name : Bytes) : Except Stop Slot :=
  Access.answer (heap.className id) name ((heap.get? id).bind (·.fields.get? name))

/-- What an access makes of the heap. A new object comes behind all others, with the fields that its
class gives it. -/
inductive Step (heap : Heap) : Access → Heap → Prop
  | created {file : ClassFile} {className : Bytes} {fields : FieldMap} :
      file.name = .ok className → file.newInstance = .ok fields →
      Step heap (.created heap.objects.size file) (heap.allocate ⟨className, fields⟩).2
  | stored (id : ObjectId) (name : Bytes) (value : Slot) :
      Step heap (.stored id name value) (heap.setField id name value)
  | read (id : ObjectId) (name : Bytes) : Step heap (.read id name (heap.answer id name)) heap

/-- The accesses make one heap of the other. -/
inductive Follows : Heap → List Access → Heap → Prop
  | nil (heap : Heap) : Follows heap [] heap
  | cons {heap middle last : Heap} {access : Access} {accesses : List Access} :
      Step heap access middle → Follows middle accesses last →
      Follows heap (access :: accesses) last

variable {heap middle last : Heap} {access : Access} {accesses others : List Access}
  {id : ObjectId} {object : Instance}

namespace Follows

theorem single (hstep : Step heap access last) : Follows heap [access] last :=
  .cons hstep (.nil last)

theorem append (h : Follows heap accesses middle) (hothers : Follows middle others last) :
    Follows heap (accesses ++ others) last := by
  induction h with
  | nil heap => exact hothers
  | cons hstep _ ih => exact .cons hstep (ih hothers)

theorem of_append (h : Follows heap (accesses ++ others) last) :
    ∃ middle, Follows heap accesses middle ∧ Follows middle others last := by
  induction accesses generalizing heap with
  | nil => exact ⟨heap, .nil heap, h⟩
  | cons access accesses ih =>
    cases h with
    | cons hstep hrest =>
      obtain ⟨middle, hfirst, hlast⟩ := ih hrest
      exact ⟨middle, .cons hstep hfirst, hlast⟩

end Follows

/-- An object keeps its class through an access, and its fields but for one that is stored. -/
theorem Step.get? (hstep : Step heap access last) (hget : heap.get? id = some object) :
    ∃ fields, last.get? id = some { object with fields } ∧ ∀ name,
      fields.get? name = (access.puts id name).or (object.fields.get? name) := by
  cases hstep with
  | created hname hfields =>
    obtain ⟨hlt, -⟩ := Array.getElem?_eq_some_iff.1 hget
    refine ⟨object.fields, ?_, fun name => rfl⟩
    rw [get?_allocate, if_neg (Nat.ne_of_lt hlt), hget]
  | stored other found value =>
    by_cases hid : other = id
    · refine ⟨object.fields.insert found value, ?_, fun name => ?_⟩
      · rw [get?_setField, if_pos hid, hget]
        rfl
      · rw [NameMap.get?_insert, Access.puts]
        by_cases hname : found = name
        · simp [hid, hname]
        · simp [hname, Ne.symm hname]
    · refine ⟨object.fields, ?_, fun name => ?_⟩
      · rw [get?_setField, if_neg hid, hget]
      · simp [Access.puts, hid]
  | read other found => exact ⟨object.fields, hget, fun name => rfl⟩

/-- After any accesses the fields of an object hold what was stored last, or else what they held. -/
theorem Follows.get? (h : Follows heap accesses last) (hget : heap.get? id = some object) :
    ∃ fields, last.get? id = some { object with fields } ∧ ∀ name,
      fields.get? name = (lastStored id name accesses).or (object.fields.get? name) := by
  induction h generalizing object with
  | nil heap => exact ⟨object.fields, hget, fun name => rfl⟩
  | cons hstep _ ih =>
    obtain ⟨fields, hmiddle, hstepped⟩ := hstep.get? hget
    obtain ⟨later, hlast, hrest⟩ := ih hmiddle
    refine ⟨later, hlast, fun name => ?_⟩
    rw [hrest, hstepped, lastStored_cons, Option.or_assoc]

theorem answer_of_get? (hget : heap.get? id = some object) (name : Bytes) :
    heap.answer id name = Access.answer object.className name (object.fields.get? name) := by
  simp [answer, className, hget]

/-- A read of a field of an object that was made before finds what was stored last since then, or
else what the last field of that name that the class itself declares starts with. -/
theorem Follows.read_eq {file : ClassFile} {before after : List Access} {name : Bytes}
    {answer : Except Stop Slot}
    (h : Follows heap (before ++ .created id file :: (accesses ++ .read id name answer :: after))
      last) :
    ∃ className slots, file.name = .ok className ∧ file.newInstance = .ok slots ∧
      answer = Access.answer className name
        ((lastStored id name accesses).or (file.lastValue file.instanceFields name)) := by
  obtain ⟨first, -, h⟩ := h.of_append
  cases h with
  | cons hcreated h =>
    cases hcreated with
    | @created _ className slots hname hslots =>
      obtain ⟨second, haccesses, h⟩ := h.of_append
      have hnew : (first.allocate ⟨className, slots⟩).2.get? first.objects.size =
          some ⟨className, slots⟩ := by
        rw [get?_allocate, if_pos rfl]
      obtain ⟨fields, hget, hfields⟩ := haccesses.get? hnew
      cases h with
      | cons hread _ =>
        cases hread with
        | read =>
          refine ⟨className, slots, hname, hslots, ?_⟩
          rw [answer_of_get? hget, hfields, ClassFile.get?_of_newInstance hslots]

end Heap

def Machine.SameHeap (machine later : Machine) : Prop :=
  later.heap = machine.heap

namespace Machine.SameHeap

theorem refl (machine : Machine) : machine.SameHeap machine :=
  rfl

theorem trans (first second third : Machine) (h : first.SameHeap second)
    (hthird : second.SameHeap third) : first.SameHeap third :=
  Eq.trans hthird h

theorem link {α : Type} (work : Linking α) : Within SameHeap (Run.link work) := by
  intro machine
  rw [Run.run_link]
  cases work.run machine.table <;> rfl

theorem inward {α : Type} {work : Run α} (h : Run.Plain false work) : Within SameHeap work :=
  h.within_of_inward refl trans fun _ _ => rfl

end Machine.SameHeap

namespace Run

open Machine

variable {α β : Type} {work : Run α} {next : α → Run β} {accesses : Machine → List Access}
  {more : α → Machine → List Access}

def following (work : Run α) (more : α → Machine → List Access) (machine : Machine) :
    List Access :=
  match work.run machine with
  | .ok a later => more a later
  | .error _ _ => []

/-- The work changes the heap by these accesses. -/
def Records (work : Run α) (accesses : Machine → List Access) : Prop :=
  ∀ machine, Heap.Follows machine.heap (accesses machine) (final (work.run machine)).heap

namespace Records

theorem silent (h : Within SameHeap work) : Records work fun _ => [] := by
  intro machine
  rw [show (final (work.run machine)).heap = machine.heap from h machine]
  exact .nil machine.heap

theorem bind (h : Records work accesses) (hnext : ∀ a, Records (next a) (more a)) :
    Records (work >>= next) fun machine => accesses machine ++ following work more machine := by
  intro machine
  have hwork := h machine
  simp only [EStateM.run_bind, following]
  cases hrun : work.run machine with
  | error stop later =>
    rw [hrun] at hwork
    rwa [List.append_nil]
  | ok a later =>
    rw [hrun] at hwork
    exact hwork.append (hnext a later)

theorem after (h : Within SameHeap work) (hnext : ∀ a, Records (next a) (more a)) :
    Records (work >>= next) (following work more) :=
  (silent h).bind hnext

theorem before (h : Records work accesses) (hnext : ∀ a, Within SameHeap (next a)) :
    Records (work >>= next) accesses := by
  intro machine
  have hwork := h machine
  rw [EStateM.run_bind]
  cases hrun : work.run machine with
  | error stop later =>
    rw [hrun] at hwork
    exact hwork
  | ok a later =>
    rw [hrun] at hwork
    have hheap : (final ((next a).run later)).heap = later.heap := hnext a later
    simp only [hheap]
    exact hwork

end Records

end Run

namespace Instruction

open Machine Run

/-- What a read of a field takes: the name of the field and the object. -/
def reading (pool : ConstantPool) (operand : Nat) (frame : Frame) : Run (Bytes × Slot × Frame) := do
  let member ← memberRef pool operand
  let (target, frame) ← frame.pop
  return (member.name, target, frame)

/-- What a store takes: the name of the field, the object and the value. -/
def storing (pool : ConstantPool) (operand : Nat) (frame : Frame) :
    Run (Bytes × Slot × Slot × Frame) := do
  let member ← memberRef pool operand
  let (value, frame) ← frame.pop
  let (target, frame) ← frame.pop
  return (member.name, target, value, frame)

/-- The class that an object is made of. -/
def making (pool : ConstantPool) (operand : Nat) : Run ClassFile := do
  let className ← Run.structural (pool.className (← position operand))
  Run.link (Linking.load className)

def answered {ε σ α : Type} : EStateM.Result ε σ α → Except ε α
  | .ok a _ => .ok a
  | .error e _ => .error e

/-- The access of a read, if it gets as far as an object. -/
def getAccess (name : Bytes) (target : Slot) (machine : Machine) : List Access :=
  match target.value with
  | .object id => [.read id name (answered ((getField name target).run machine))]
  | _ => []

/-- The access of a store, if there is an object to store in. -/
def putAccess (name : Bytes) (target value : Slot) : List Access :=
  match target.value with
  | .object id => [.stored id name value]
  | _ => []

def createAccess (file : ClassFile) (machine : Machine) : List Access :=
  match (Run.create file).run machine with
  | .ok ⟨_, .object id⟩ _ => [.created id file]
  | _ => []

/-- The accesses of an instruction and of the method that it calls. -/
def accesses (callAccesses : ResolvedMethod → List Slot → Machine → List Access)
    (pool : ConstantPool) (opcode : Opcode) (operand : Nat) (frame : Frame) :
    Machine → List Access :=
  match opcode with
  | .getfield => following (reading pool operand frame) fun (name, target, _) =>
      getAccess name target
  | .putfield => following (storing pool operand frame) fun (name, target, value, _) _ =>
      putAccess name target value
  | .new => following (making pool operand) createAccess
  | .invokevirtual | .invokespecial => following (calling pool operand frame)
      fun (target, args, _) => callAccesses target args
  | _ => fun _ => []

theorem getField_records (name : Bytes) (target : Slot) :
    (getField name target).Records (getAccess name target) := by
  intro machine
  have hheap : (final ((getField name target).run machine)).heap = machine.heap :=
    SameHeap.inward (.still (.getField name target)) machine
  rw [hheap, getAccess]
  cases htarget : target.value with
  | object id =>
    have hanswer : answered ((getField name target).run machine) = machine.heap.answer id name := by
      simp only [getField, receiver, htarget, EStateM.run_bind, EStateM.run_pure, EStateM.run_get,
        Heap.answer]
      cases (machine.heap.get? id).bind (·.fields.get? name) <;> rfl
    simp only [hanswer]
    exact .single (.read id name)
  | _ => exact .nil machine.heap

theorem putField_records (name : Bytes) (target value : Slot) :
    (putField name target value).Records fun _ => putAccess name target value := by
  intro machine
  simp only [putField, receiver, putAccess]
  cases target.value with
  | object id => exact .single (.stored id name value)
  | _ => exact .nil machine.heap

theorem create_records (file : ClassFile) : (Run.create file).Records (createAccess file) := by
  intro machine
  simp only [createAccess, Run.create, EStateM.run_bind]
  cases hname : file.name with
  | error e => exact .nil machine.heap
  | ok className =>
    cases hfields : file.newInstance with
    | error e => exact .nil machine.heap
    | ok fields => exact .single (.created hname hfields)

theorem run_getfield (call : ResolvedMethod → List Slot → Run Unit) (depth : Nat)
    (pool : ConstantPool) (pc operand : Nat) (frame : Frame) :
    run call depth pool pc .getfield operand frame =
      reading pool operand frame >>= fun (name, target, frame) => do
        return some (← frame.push (← getField name target)) := by
  simp only [run, reading, bind_assoc, pure_bind]

theorem run_putfield (call : ResolvedMethod → List Slot → Run Unit) (depth : Nat)
    (pool : ConstantPool) (pc operand : Nat) (frame : Frame) :
    run call depth pool pc .putfield operand frame =
      storing pool operand frame >>= fun (name, target, value, frame) => do
        putField name target value
        return some frame := by
  simp only [run, storing, bind_assoc, pure_bind]

theorem run_new (call : ResolvedMethod → List Slot → Run Unit) (depth : Nat)
    (pool : ConstantPool) (pc operand : Nat) (frame : Frame) :
    run call depth pool pc .new operand frame =
      making pool operand >>= fun file => do
        return some (← frame.push (← Run.create file)) := by
  simp only [run, newObject, making, bind_assoc]

theorem reading_sameHeap (pool : ConstantPool) (operand : Nat) (frame : Frame) :
    Within SameHeap (reading pool operand frame) :=
  SameHeap.inward (.bind (.still (.memberRef pool operand)) fun _ =>
    .bind (.framePop frame) fun _ => .pure _)

theorem storing_sameHeap (pool : ConstantPool) (operand : Nat) (frame : Frame) :
    Within SameHeap (storing pool operand frame) :=
  SameHeap.inward (.bind (.still (.memberRef pool operand)) fun _ =>
    .bind (.framePop frame) fun _ => .bind (.framePop _) fun _ => .pure _)

theorem making_sameHeap (pool : ConstantPool) (operand : Nat) :
    Within SameHeap (making pool operand) := by
  apply (SameHeap.inward (.still (.position operand))).bind SameHeap.trans
  intro place
  exact (SameHeap.inward (.still (.structural _))).bind SameHeap.trans fun name => SameHeap.link _

theorem calling_sameHeap (pool : ConstantPool) (operand : Nat) (frame : Frame) :
    Within SameHeap (calling pool operand frame) :=
  (calling_undisturbed pool operand frame).mono fun _ _ h => h.heap

variable {call : ResolvedMethod → List Slot → Run Unit}
  {callAccesses : ResolvedMethod → List Slot → Machine → List Access}

theorem complete_records
    (hcall : ∀ target args, (call target args).Records (callAccesses target args))
    (target : ResolvedMethod) (args : List Slot) (frame : Frame) :
    (complete call target args frame).Records (callAccesses target args) := by
  have hrest (before : Nat) : Within SameHeap (do
      let after := (← get).stack.size
      if after < before then Run.execution .stackUnderflow
      return ({ frame with owned := frame.owned + (after - before) } : Frame)) := by
    intro machine
    simp only [EStateM.run_bind, EStateM.run_get]
    split <;> rfl
  exact .after (within_get SameHeap.refl) fun machine =>
    (hcall target args).before fun _ => hrest machine.stack.size

/-- The step: whatever the instruction is, it changes the heap by its accesses. -/
theorem run_records
    (hcall : ∀ target args, (call target args).Records (callAccesses target args)) (depth : Nat)
    (pool : ConstantPool) (pc : Nat) (opcode : Opcode) (operand : Nat) (frame : Frame) :
    (run call depth pool pc opcode operand frame).Records
      (accesses callAccesses pool opcode operand frame) := by
  have hpush (frame : Frame) (value : Slot) :
      Within SameHeap (do return some (← frame.push value)) :=
    SameHeap.inward (.bind (.framePush frame value) fun _ => .pure _)
  have hplain (hlinks : opcode.links = false) (hstores : opcode.stores = false) :
      Within SameHeap (run call depth pool pc opcode operand frame) :=
    SameHeap.inward (hstores ▸ Run.Plain.run call depth pool pc operand frame hlinks)
  have hinvoke : (do return some (← invoke call pool operand frame)).Records
      (following (calling pool operand frame)
        fun (target, args, _) => callAccesses target args) := by
    rw [invoke_eq, bind_assoc]
    exact .after (calling_sameHeap pool operand frame) fun answer =>
      (complete_records hcall answer.1 answer.2.1 answer.2.2).before fun _ =>
        within_pure SameHeap.refl _
  cases opcode with
  | getstatic =>
    apply Records.silent
    apply (SameHeap.inward (.still (.memberRef pool operand))).bind SameHeap.trans
    intro member
    exact (SameHeap.link _).bind SameHeap.trans (hpush frame)
  | getfield =>
    rw [run_getfield]
    exact .after (reading_sameHeap pool operand frame) fun answer =>
      (getField_records answer.1 answer.2.1).before (hpush answer.2.2)
  | putfield =>
    rw [run_putfield]
    exact .after (storing_sameHeap pool operand frame) fun answer =>
      (putField_records answer.1 answer.2.1 answer.2.2.1).before fun _ =>
        within_pure SameHeap.refl _
  | new =>
    rw [run_new]
    exact .after (making_sameHeap pool operand) fun file =>
      (create_records file).before (hpush frame)
  | invokevirtual => exact hinvoke
  | invokespecial => exact hinvoke
  | _ => exact .silent (hplain rfl rfl)

end Instruction

namespace Machine

open Run

def executeAccesses (call : ResolvedMethod → List Slot → Run Unit)
    (callAccesses : ResolvedMethod → List Slot → Machine → List Access) (depth : Nat)
    (pool : ConstantPool) : Listing → Frame → Machine → List Access
  | .exhausted, _, _ | .truncated _ _, _, _ => []
  | .instruction pc opcode operand next, frame, machine =>
    Instruction.accesses callAccesses pool opcode operand frame machine ++
      match (Instruction.run call depth pool pc opcode operand frame).run machine with
      | .ok (some frame) later => executeAccesses call callAccesses depth pool next frame later
      | _ => []

/-- The accesses of a method and of all that it calls; a native method has none. -/
def methodAccesses : (depth : Nat) → ResolvedMethod → List Slot → Machine → List Access
  | 0, _, _, _ => []
  | depth + 1, target, args, machine =>
    match target.method.body with
    | .native _ => []
    | .bytecode =>
      match target.method.code? with
      | none => []
      | some code =>
        executeAccesses (runMethod depth) (methodAccesses depth) depth target.file.pool
          (Listing.ofBytes code.bytes) (Frame.enter code args) machine

theorem performAll_sameHeap (args : List Slot) (actions : List NativeAction) :
    Within SameHeap (NativeAction.performAll args actions) := by
  induction actions with
  | nil => exact SameHeap.refl
  | cons action actions ih =>
    have hperform : Within SameHeap (action.perform args) := by
      have hplain (hprints : action.prints = false) : Within SameHeap (action.perform args) :=
        SameHeap.inward (hprints ▸ Run.Plain.perform args action)
      cases action with
      | printLine =>
        apply (SameHeap.inward (.still (.line args))).bind SameHeap.trans
        intro text machine
        simp only [Run.print, EStateM.run_bind, EStateM.run_get, EStateM.run_modify]
        split <;> rfl
      | _ => exact hplain rfl
    exact hperform.bind SameHeap.trans fun _ => ih

theorem execute_records {call : ResolvedMethod → List Slot → Run Unit}
    {callAccesses : ResolvedMethod → List Slot → Machine → List Access}
    (hcall : ∀ target args, (call target args).Records (callAccesses target args)) (depth : Nat)
    (pool : ConstantPool) (listing : Listing) (frame : Frame) :
    (execute call depth pool listing frame).Records
      (executeAccesses call callAccesses depth pool listing frame) := by
  induction listing generalizing frame with
  | exhausted => exact fun machine => .nil machine.heap
  | truncated pc opcode => exact fun machine => .nil machine.heap
  | instruction pc opcode operand next ih =>
    intro machine
    have hstep := Instruction.run_records hcall depth pool pc opcode operand frame machine
    simp only [execute, executeAccesses, EStateM.run_bind]
    cases hrun : (Instruction.run call depth pool pc opcode operand frame).run machine with
    | error stop later =>
      rw [hrun] at hstep
      rwa [List.append_nil]
    | ok goesOn later =>
      rw [hrun] at hstep
      cases goesOn with
      | none => rwa [List.append_nil]
      | some frame => exact hstep.append (ih frame later)

/-- The run: a method changes the heap by its accesses and those of all that it calls. -/
theorem runMethod_records (depth : Nat) (target : ResolvedMethod) (args : List Slot) :
    (runMethod depth target args).Records (methodAccesses depth target args) := by
  induction depth generalizing target args with
  | zero => exact fun machine => .nil machine.heap
  | succ depth ih =>
    intro machine
    simp only [runMethod, methodAccesses]
    cases target.method.body with
    | native actions => exact Records.silent (performAll_sameHeap args actions) machine
    | bytecode =>
      cases target.method.code? with
      | none => exact .nil machine.heap
      | some code => exact execute_records ih depth _ _ _ machine

end Machine

end ClassMachine
