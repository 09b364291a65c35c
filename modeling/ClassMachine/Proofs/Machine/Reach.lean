import ClassMachine.Proofs.Machine.Confinement

/-!
# What an activation can reach

An activation reaches the objects among its arguments and in static fields, and those that are in
fields of objects it reaches. It leaves all others alone that are there when it begins, at every
dispatch on the way, within the methods that it calls too, and at its end.
-/

namespace ClassMachine

open Work Run

/-- The dispatches of calls are the same with other values below on the stack. -/
def Machine.DispatchesInsulated
    (callDispatches : ResolvedMethod → List Slot → Machine → List Machine) : Prop :=
  ∀ target args machine below, target.method.TakesNothing → machine.table.TakesNothing →
    callDispatches target args (machine.onto below) =
      (callDispatches target args machine).map (·.onto below)

namespace Machine

variable {call : ResolvedMethod → List Slot → Run Unit}
  {callDispatches : ResolvedMethod → List Slot → Machine → List Machine}

theorem dispatches_onto (hdispatches : DispatchesInsulated callDispatches) (pool : ConstantPool)
    (opcode : Opcode) (operand : Nat) {frame : Frame} {machine : Machine}
    (howns : frame.Owns machine) (below : OperandStack) :
    Instruction.dispatches callDispatches pool opcode operand frame (machine.onto below) =
      (Instruction.dispatches callDispatches pool opcode operand frame machine).map
        (·.onto below) := by
  cases opcode with
  | invokevirtual | invokespecial =>
    obtain ⟨hsame, hlater⟩ := Instruction.insulated_calling pool operand frame machine howns
    simp only [Instruction.dispatches, hsame below]
    cases hrun : (Instruction.calling pool operand frame).run machine with
    | error stop later => rfl
    | ok answer later =>
      obtain ⟨htarget, htable, -⟩ := hlater answer later hrun
      exact hdispatches answer.1 answer.2.1 later below htarget htable
  | _ => rfl

theorem executeDispatches_onto (hcall : CallsInsulated call)
    (hdispatches : DispatchesInsulated callDispatches) (depth : Nat) (pool : ConstantPool)
    (listing : Listing) {frame : Frame} {machine : Machine} (howns : frame.Owns machine)
    (below : OperandStack) :
    executeDispatches call callDispatches depth pool listing frame (machine.onto below) =
      (executeDispatches call callDispatches depth pool listing frame machine).map
        (·.onto below) := by
  induction listing generalizing frame machine with
  | exhausted => rfl
  | truncated pc opcode => rfl
  | instruction pc opcode operand next ih =>
    obtain ⟨hsame, hlater⟩ :=
      Instruction.insulated_run hcall depth pool pc opcode operand frame machine howns
    simp only [executeDispatches, dispatches_onto hdispatches pool opcode operand howns below,
      hsame below, List.map_append, List.map_cons]
    congr 1
    cases hrun : (Instruction.run call depth pool pc opcode operand frame).run machine with
    | error stop later => rfl
    | ok goesOn later =>
      cases goesOn with
      | none => rfl
      | some frame => exact ih (hlater _ _ hrun)

/-- It is enough to look at activations that begin on the empty stack. -/
theorem dispatchesInsulated_methodDispatches (depth : Nat) :
    DispatchesInsulated (methodDispatches depth) := by
  induction depth with
  | zero => exact fun target args machine below htarget htable => rfl
  | succ depth ih =>
    intro target args machine below htarget htable
    have honto := machine.empty_onto machine.stack
    unfold methodDispatches
    split
    · rfl
    · split
      · rfl
      next code hcode =>
        have howns : (Frame.enter code args).Owns { machine with stack := .empty } :=
          ⟨htable, rfl⟩
        have hempty (stack : OperandStack) := executeDispatches_onto
          (callsInsulated_runMethod depth) ih depth target.file.pool (Listing.ofBytes code.bytes)
          howns stack
        have hmachine := hempty machine.stack
        have hbelow := hempty (machine.stack.onto below)
        rw [← onto_onto] at hbelow
        rw [honto] at hmachine hbelow
        rw [hbelow, hmachine, List.map_map]
        exact List.map_congr_left fun met _ => (onto_onto met machine.stack below).symm

/-- The objects that an activation comes to from its arguments and from static fields. -/
inductive Reachable (machine : Machine) (args : List Slot) : ObjectId → Prop
  | argument {slot : Slot} {id : ObjectId} :
      slot ∈ args → slot.value = .object id → Reachable machine args id
  | static {name field : Bytes} {c : LoadedClass} {slot : Slot} {id : ObjectId} :
      machine.table.get? name = some c → c.statics.get? field = some slot →
      slot.value = .object id → Reachable machine args id
  | field {holder id : ObjectId} {object : Instance} {name : Bytes} {slot : Slot} :
      Reachable machine args holder → machine.heap.get? holder = some object →
      object.fields.get? name = some slot → slot.value = .object id → Reachable machine args id

/-- The objects that an activation cannot reach are later as they were. -/
def Spares (machine : Machine) (args : List Slot) (later : Machine) : Prop :=
  ∀ id object, machine.heap.get? id = some object → ¬ machine.Reachable args id →
    later.heap.get? id = some object

variable {machine later : Machine} {args : List Slot}

/-- The objects that an activation may come to: those that it reaches, and new ones. -/
def MayReach (machine : Machine) (args : List Slot) (id : ObjectId) : Prop :=
  machine.Reachable args id ∨ machine.heap.objects.size ≤ id

theorem confined_mayReach (args : List Slot) (hnatives : machine.table.BringsNothing) :
    ({ machine with stack := .empty } : Machine).Confined (machine.MayReach args) machine.heap where
  natives := hnatives
  statics _ _ hget _ _ hslot _ hid := .inl (.static hget hslot hid)
  stack _ hslot := absurd hslot List.not_mem_nil
  heap := {
    fresh := fun _ hid => .inr hid
    fields := by
      intro id object hid hget name slot hslot target htarget
      rcases hid with hreached | hnew
      · exact .inl (.field hreached hget hslot htarget)
      · have hnone : machine.heap.get? id = none := Array.getElem?_eq_none hnew
        rw [hnone] at hget
        contradiction
    kept := fun _ _ => rfl }

theorem spares_of_confined (h : later.heap.Confined (machine.MayReach args) machine.heap) :
    machine.Spares args later := by
  intro id object hget hnot
  have hold : ¬ machine.MayReach args id := by
    rintro (hreached | hnew)
    · exact hnot hreached
    · have hnone : machine.heap.get? id = none := Array.getElem?_eq_none hnew
      rw [hnone] at hget
      contradiction
  rw [h.kept id hold, hget]

end Machine

/-- A method that begins to run with its arguments, and how deep calls may be nested in it. -/
structure Activation where
  depth : Nat
  target : ResolvedMethod
  args : List Slot
  entry : Machine

namespace Activation

/-- The machines at the dispatches of an activation and of all that it calls, and at its end. -/
def course (activation : Activation) : List Machine :=
  let ⟨depth, target, args, entry⟩ := activation
  Machine.methodDispatches depth target args entry ++
    [final ((Machine.runMethod depth target args).run entry)]

/-- What the activation cannot reach stays as it is. -/
def Confined (activation : Activation) : Prop :=
  ∀ later ∈ activation.course, activation.entry.Spares activation.args later

open Machine in
/-- An activation spares what it cannot reach if no native method that it may come to takes values
off the stack or brings objects along. -/
theorem confined_of_natives (activation : Activation)
    (htakes : activation.entry.table.TakesNothing) (hbrings : activation.entry.table.BringsNothing)
    (htarget : activation.target.method.TakesNothing)
    (hbringing : activation.target.method.BringsNothing) : activation.Confined := by
  obtain ⟨depth, target, args, machine⟩ := activation
  intro later hmem
  have hbare := confined_mayReach args hbrings
  have hargs : ∀ slot ∈ args, slot.Inside (machine.MayReach args) :=
    fun slot hslot id hid => .inl (.argument hslot hid)
  have honto := machine.empty_onto machine.stack
  have hheap (met : Machine) (hmet : met.Confined (machine.MayReach args) machine.heap) :
      machine.Spares args (met.onto machine.stack) :=
    spares_of_confined hmet.heap
  -- On the empty stack all values belong to the activation. What was below is put back afterwards.
  rcases List.mem_append.1 hmem with hmem | hmem
  · have hdispatches := dispatchesInsulated_methodDispatches depth target args
      { machine with stack := .empty } machine.stack htarget htakes
    rw [honto] at hdispatches
    rw [hdispatches] at hmem
    obtain ⟨met, hmet, rfl⟩ := List.mem_map.1 hmem
    exact hheap met
      (confined_of_mem_methodDispatches depth hbringing hargs hbare met hmet)
  · have hrun := (callsInsulated_runMethod depth target args htarget
      { machine with stack := .empty } htakes).1 machine.stack
    rw [honto] at hrun
    obtain rfl := List.mem_singleton.1 hmem
    rw [hrun, final_onState]
    exact hheap _ (callsConfined_runMethod depth target args hbringing hargs _ hbare).1

/-- A method of a class A that sets the field f of its argument. -/
def marking : ResolvedMethod where
  file := {
    pool := ⟨#[.utf8 [65], .classEntry 0, .utf8 [102], .utf8 [73], .nameAndType 2 3,
      .member .field 1 4]⟩
    thisClass := 1 }
  method := {
    flags := ⟨AccessFlags.staticBit⟩, name := 0, descriptor := 0
    attributes := [.code {
      maxStack := 2, maxLocals := 1, bytes := [0x2a, 0x04, 0xb5, 0x00, 0x06, 0xb1], exceptions := []
      attributes := [] }]
    signature := ⟨[.object [65]], .void⟩, body := .bytecode }

-- Of two objects the one that is passed changes.
example : (final ((Machine.runMethod 1 marking [.of (.object 0)]).run
    { heap := { objects := #[⟨[65], .empty⟩, ⟨[65], .empty⟩] } })).heap.objects =
      #[⟨[65], NameMap.empty.insert [102] (.int 1)⟩, ⟨[65], .empty⟩] := by
  decide +kernel

end Activation

end ClassMachine
