import ClassMachine.Proofs.Machine.Holdings
import ClassMachine.Proofs.Machine.Isolation
import ClassMachine.Proofs.Machine.Population

/-!
# Objects out of reach

A method comes to an object only from its arguments and from static fields, over the fields of other
objects, or because the object is new. With a set of objects that are closed under fields and hold
all of these, all that the method does stays within the set, and the objects outside stay as they
are. What else is on the stack does not matter, so it may be taken as empty.
-/

namespace ClassMachine

open Work

namespace Heap

/-- The objects with these numbers hold only each other, and no others have changed. New objects get
numbers from the set. -/
structure Confined (ids : ObjectId → Prop) (heap start : Heap) : Prop where
  fresh : ∀ id, heap.objects.size ≤ id → ids id
  fields : ∀ id object, ids id → heap.get? id = some object → FieldMap.Inside ids object.fields
  kept : ∀ id, ¬ ids id → heap.get? id = start.get? id

namespace Confined

variable {ids : ObjectId → Prop} {heap start : Heap}

theorem allocate (h : heap.Confined ids start) {object : Instance}
    (hobject : FieldMap.Inside ids object.fields) :
    (heap.allocate object).2.Confined ids start where
  fresh id hid := by
    have hsize : (heap.allocate object).2.objects.size = heap.objects.size + 1 :=
      Array.size_push ..
    exact h.fresh id (by omega)
  fields id found hid hget := by
    rw [get?_allocate] at hget
    split at hget
    · exact Option.some.inj hget ▸ hobject
    · exact h.fields id found hid hget
  kept id hid := by
    have hne : id ≠ heap.objects.size := by
      rintro rfl
      exact hid (h.fresh _ le_rfl)
    rw [get?_allocate, if_neg hne]
    exact h.kept id hid

theorem setField (h : heap.Confined ids start) {id : ObjectId} (hid : ids id) {value : Slot}
    (hvalue : value.Inside ids) (name : Bytes) :
    (heap.setField id name value).Confined ids start where
  fresh other hother := by
    have hsize : (heap.setField id name value).objects.size = heap.objects.size :=
      Array.size_modify
    exact h.fresh other (hsize ▸ hother)
  fields other found hother hget := by
    rw [get?_setField] at hget
    split at hget
    · obtain ⟨old, hold, rfl⟩ := Option.map_eq_some_iff.1 hget
      exact (h.fields other old hother hold).insert hvalue name
    · exact h.fields other found hother hget
  kept other hother := by
    have hne : id ≠ other := by
      rintro rfl
      exact hother hid
    rw [get?_setField, if_neg hne]
    exact h.kept other hother

end Confined

end Heap

/-- All objects that the machine holds are among these, wherever it holds them. -/
structure Machine.Confined (ids : ObjectId → Prop) (start : Heap) (machine : Machine) : Prop where
  natives : machine.table.BringsNothing
  statics : machine.table.StaticsInside ids
  stack : ∀ slot ∈ machine.stack.slots, slot.Inside ids
  heap : machine.heap.Confined ids start

/-- Work that keeps to these objects. What it answers may then be relied on, too. -/
abbrev Run.KeepsTo {α : Type} (ids : ObjectId → Prop) (start : Heap) (work : Run α)
    (answers : α → Prop) : Prop :=
  Stays (Machine.Confined ids start) work answers

variable {ids : ObjectId → Prop} {start : Heap} {α : Type} {answers : α → Prop}

namespace Run

theorem stays_structural (answer : Except StructuralError α) :
    KeepsTo ids start (structural answer) fun a => answer = .ok a := by
  cases answer with
  | error e => exact stays_throw _
  | ok a => exact stays_pure rfl

theorem stays_link {work : Linking α} (hgrows : Within ClassTable.Grows work)
    (hstatics : Within (ClassTable.KeepsStatics ids) work)
    (hanswers : ∀ table a later, later.BringsNothing → later.StaticsInside ids →
      work.run table = .ok a later → answers a) :
    KeepsTo ids start (link work) answers := by
  intro machine h
  have hnatives := (hgrows machine.table).bringsNothing h.natives
  have hinside := hstatics machine.table h.statics
  rw [run_link]
  cases hrun : work.run machine.table with
  | error stop table =>
    rw [hrun] at hnatives hinside
    exact ⟨⟨hnatives, hinside, h.stack, h.heap⟩, fun _ _ h => nomatch h⟩
  | ok a table =>
    rw [hrun] at hnatives hinside
    refine ⟨⟨hnatives, hinside, h.stack, h.heap⟩, fun b later hok => ?_⟩
    obtain ⟨rfl, -⟩ := EStateM.Result.ok.inj hok
    exact hanswers machine.table a table hnatives hinside hrun

theorem stays_load (name : Bytes) :
    KeepsTo ids start (link (Linking.load name)) fun _ => True :=
  stays_link (Linking.load_grows name) (Linking.load_keepsStatics name) fun _ _ _ _ _ _ => trivial

theorem stays_init (depth : Nat) (name : Bytes) :
    KeepsTo ids start (link (Linking.initClass depth name)) fun _ => True :=
  stays_link (Linking.initClass_grows depth name) (Linking.initClass_keepsStatics depth name)
    fun _ _ _ _ _ _ => trivial

theorem stays_resolve (className name descriptor : Bytes) :
    KeepsTo ids start (link (Linking.resolve className name descriptor))
      fun target => target.method.BringsNothing :=
  stays_link (Linking.resolve_grows className name descriptor)
    (Linking.resolve_keepsStatics className name descriptor)
    fun _ _ _ hnatives _ hrun => (Linking.registered_of_resolve hrun).of_each hnatives

theorem stays_getStatic (name field : Bytes) :
    KeepsTo ids start (link (Linking.getStatic name field))
      (Slot.Inside ids) :=
  stays_link (Linking.getStatic_grows name field) (Linking.getStatic_keepsStatics name field)
    fun _ _ _ _ hstatics hrun => Linking.inside_of_getStatic hstatics hrun

theorem stays_push {value : Slot} (hvalue : value.Inside ids) :
    KeepsTo ids start (push value) fun _ => True :=
  stays_modify fun _ h => { h with stack := List.forall_mem_cons.2 ⟨hvalue, h.stack⟩ }

theorem stays_pop : KeepsTo ids start pop (Slot.Inside ids) := by
  intro machine h
  simp only [pop, EStateM.run_bind, EStateM.run_get]
  obtain ⟨table, heap, console, ⟨slots, size, size_eq⟩⟩ := machine
  cases slots with
  | nil =>
    refine ⟨h, fun a later hrun => ?_⟩
    contradiction
  | cons value slots =>
    obtain ⟨hvalue, hslots⟩ := List.forall_mem_cons.1 h.stack
    refine ⟨{ h with stack := hslots }, fun a later hrun => ?_⟩
    exact (EStateM.Result.ok.inj hrun).1 ▸ hvalue

theorem stays_print (text : String) :
    KeepsTo ids start (print text) fun _ => True := by
  intro machine h
  have hwritten : Machine.Confined ids start
      { machine with console := machine.console.write (Utf8.encode text) } :=
    ⟨h.natives, h.statics, h.stack, h.heap⟩
  refine ⟨?_, fun _ _ _ => trivial⟩
  simp only [print, EStateM.run_bind, EStateM.run_get, EStateM.run_modify]
  split
  · exact hwritten
  · exact hwritten

theorem stays_create (file : ClassFile) :
    KeepsTo ids start (create file) (Slot.Inside ids) := by
  apply (stays_structural file.name).bind
  intro className _
  apply (stays_structural file.newInstance).bind
  intro fields hfields machine h
  have hobject : FieldMap.Inside ids (Instance.mk className fields).fields :=
    ClassFile.inside_newInstance hfields
  refine ⟨{ h with heap := h.heap.allocate hobject }, fun value later hrun id hid => ?_⟩
  obtain ⟨rfl, -⟩ := EStateM.Result.ok.inj hrun
  obtain rfl := Value.object.inj hid
  exact h.heap.fresh _ le_rfl

end Run

namespace Frame

def Inside (ids : ObjectId → Prop) (frame : Frame) : Prop :=
  ∀ slot ∈ frame.locals, slot.Inside ids

variable {frame : Frame}

theorem inside_enter (code : Code) {args : List Slot} (hargs : ∀ slot ∈ args, slot.Inside ids) :
    (enter code args).Inside ids := by
  intro slot hslot
  rcases List.mem_append.1 hslot with hslot | hslot
  · obtain ⟨arg, harg, hslot⟩ := List.mem_flatMap.1 hslot
    unfold spread at hslot
    split at hslot
    · rcases List.mem_cons.1 hslot with rfl | hslot
      · exact hargs slot harg
      · exact List.mem_singleton.1 hslot ▸ Slot.inside_of_isObject rfl
    · exact List.mem_singleton.1 hslot ▸ hargs arg harg
  · exact (List.mem_replicate.1 hslot).2 ▸ Slot.inside_of_isObject rfl

theorem stays_push (hframe : frame.Inside ids) {value : Slot} (hvalue : value.Inside ids) :
    Run.KeepsTo ids start (frame.push value) (Inside ids) :=
  (Run.stays_push hvalue).bind fun _ _ => stays_pure hframe

theorem stays_pop (hframe : frame.Inside ids) :
    Run.KeepsTo ids start frame.pop fun answer =>
      answer.1.Inside ids ∧ answer.2.Inside ids := by
  unfold pop
  split
  · exact stays_throw _
  · exact Run.stays_pop.bind fun _ hvalue => stays_pure ⟨hvalue, hframe⟩

theorem stays_popMany (count : Nat) (hframe : frame.Inside ids) {values : List Slot}
    (hvalues : ∀ slot ∈ values, slot.Inside ids) :
    Run.KeepsTo ids start (popMany count frame values) fun answer =>
      (∀ slot ∈ answer.1, slot.Inside ids) ∧ answer.2.Inside ids := by
  induction count generalizing frame values with
  | zero => exact stays_pure ⟨hvalues, hframe⟩
  | succ count ih =>
    apply (stays_pop hframe).bind
    rintro ⟨value, rest⟩ ⟨hvalue, hrest⟩
    exact ih hrest (List.forall_mem_cons.2 ⟨hvalue, hvalues⟩)

theorem stays_clear (hframe : frame.Inside ids) :
    Run.KeepsTo ids start frame.clear (Inside ids) :=
  (stays_popMany frame.owned hframe fun _ h => absurd h List.not_mem_nil).bind
    fun _ h => stays_pure h.2

theorem stays_getLocal (hframe : frame.Inside ids) (index : Nat) :
    Run.KeepsTo ids start (frame.getLocal index) (Slot.Inside ids) := by
  unfold getLocal
  split
  next value hvalue => exact stays_pure (hframe value (List.mem_of_getElem? hvalue))
  next => exact stays_throw _

theorem stays_setLocal (hframe : frame.Inside ids) (index : Nat) {value : Slot}
    (hvalue : value.Inside ids) :
    Run.KeepsTo ids start (frame.setLocal index value) (Inside ids) := by
  unfold setLocal
  split
  · refine stays_pure fun slot hslot => ?_
    rcases List.mem_or_eq_of_mem_set hslot with hslot | rfl
    · exact hframe slot hslot
    · exact hvalue
  · exact stays_throw _

end Frame

namespace Instruction

theorem stays_constant (pool : ConstantPool) (operand : Nat) :
    Run.KeepsTo ids start (constant pool operand) (Slot.Inside ids) := by
  apply (Run.Still.position operand).stays.bind
  intro place _
  cases hvalue : pool.literal place with
  | error e => exact stays_throw _
  | ok value => exact stays_pure (Slot.inside_of_isObject (ConstantPool.isObject_literal hvalue))

theorem stays_wideConstant (pool : ConstantPool) (operand : Nat) :
    Run.KeepsTo ids start (wideConstant pool operand) (Slot.Inside ids) := by
  apply (Run.Still.position operand).stays.bind
  intro place _
  apply (Run.stays_structural (pool.get place)).bind
  intro found _
  split
  · exact (Run.stays_structural _).weaken fun _ hvalue =>
      Slot.inside_of_isObject (ConstantPool.isObject_literal hvalue)
  · exact stays_throw _

theorem stays_staticField (depth : Nat) (member : MemberRef) :
    Run.KeepsTo ids start (staticField depth member) (Slot.Inside ids) := by
  rw [staticField, Run.link_bind, Run.link_discard]
  apply (Run.stays_load member.className).discard.bind
  intro _ _
  rw [Run.link_bind]
  exact (Run.stays_init depth member.className).bind fun _ _ => Run.stays_getStatic _ _

theorem stays_receiver (onNull : ExecutionError) {value : Slot} (hvalue : value.Inside ids) :
    Run.KeepsTo ids start (receiver onNull value) ids := by
  unfold receiver
  split
  next id hid => exact stays_pure (hvalue id hid)
  next => exact stays_throw _
  next => exact (Run.Still.shown value).stays.bind fun _ _ => stays_throw _

theorem stays_getField (name : Bytes) {target : Slot} (htarget : target.Inside ids) :
    Run.KeepsTo ids start (getField name target) (Slot.Inside ids) := by
  apply (stays_receiver _ htarget).bind
  intro id hid machine h
  simp only [EStateM.run_bind, EStateM.run_get]
  cases hfound : (machine.heap.get? id).bind (·.fields.get? name) with
  | none => exact ⟨h, fun _ _ h => nomatch h⟩
  | some value =>
    obtain ⟨object, hobject, hvalue⟩ := Option.bind_eq_some_iff.1 hfound
    refine ⟨h, fun a later hrun => ?_⟩
    exact (EStateM.Result.ok.inj hrun).1 ▸ h.heap.fields id object hid hobject name value hvalue

theorem stays_putField (name : Bytes) {target value : Slot} (htarget : target.Inside ids)
    (hvalue : value.Inside ids) :
    Run.KeepsTo ids start (putField name target value) fun _ => True :=
  (stays_receiver _ htarget).bind fun _ hid =>
    stays_modify fun _ h => { h with heap := h.heap.setField hid hvalue name }

theorem stays_newObject (pool : ConstantPool) (operand : Nat) :
    Run.KeepsTo ids start (newObject pool operand) (Slot.Inside ids) := by
  apply (Run.Still.position operand).stays.bind
  intro place _
  apply (Run.stays_structural (pool.className place)).bind
  intro className _
  exact (Run.stays_load className).bind fun file _ => Run.stays_create file

theorem stays_calling (pool : ConstantPool) (operand : Nat) {frame : Frame}
    (hframe : frame.Inside ids) :
    Run.KeepsTo ids start (calling pool operand frame) fun (target, args, rest) =>
      target.method.BringsNothing ∧ (∀ slot ∈ args, slot.Inside ids) ∧ rest.Inside ids := by
  apply (Run.Still.memberRef pool operand).stays.bind
  intro member _
  apply (Run.stays_resolve _ _ _).bind
  intro target htarget
  apply (Frame.stays_popMany _ hframe fun _ h => absurd h List.not_mem_nil).bind
  rintro ⟨args, rest⟩ ⟨hargs, hrest⟩
  exact stays_pure ⟨htarget, hargs, hrest⟩

end Instruction

namespace NativeAction

theorem stays_perform {args : List Slot} (hargs : ∀ slot ∈ args, slot.Inside ids)
    {action : NativeAction} (haction : action.bringsNothing = true) :
    Run.KeepsTo ids start (action.perform args) fun _ => True := by
  cases action with
  | discard => exact Run.stays_pop.bind fun _ _ => stays_pure trivial
  | push value =>
    have hvalue : value.value.isObject = false := by simpa [bringsNothing] using haction
    exact Run.stays_push (Slot.inside_of_isObject hvalue)
  | pushArgument place =>
    refine Run.stays_push ?_
    cases harg : args[place]? with
    | none => exact Slot.inside_of_isObject rfl
    | some arg => exact hargs arg (List.mem_of_getElem? harg)
  | pushTextLength => exact Run.stays_push (Slot.inside_of_isObject rfl)
  | printLine => exact (Run.Still.line args).stays.bind fun text _ => Run.stays_print text
  | fail reason => exact stays_throw _

theorem stays_performAll {args : List Slot} (hargs : ∀ slot ∈ args, slot.Inside ids)
    {actions : List NativeAction} (hactions : ∀ action ∈ actions, action.bringsNothing = true) :
    Run.KeepsTo ids start (performAll args actions) fun _ => True := by
  induction actions with
  | nil => exact stays_pure trivial
  | cons action actions ih =>
    obtain ⟨haction, hrest⟩ := List.forall_mem_cons.1 hactions
    exact (stays_perform hargs haction).bind fun _ _ => ih hrest

end NativeAction

/-- Calls keep to the objects that they are given. -/
def Run.CallsConfined (ids : ObjectId → Prop) (start : Heap)
    (call : ResolvedMethod → List Slot → Run Unit) : Prop :=
  ∀ target args, target.method.BringsNothing → (∀ slot ∈ args, slot.Inside ids) →
    Run.KeepsTo ids start (call target args) fun _ => True

namespace Instruction

variable {call : ResolvedMethod → List Slot → Run Unit} {frame : Frame}

theorem stays_invoke (hcall : Run.CallsConfined ids start call) (pool : ConstantPool)
    (operand : Nat) (hframe : frame.Inside ids) :
    Run.KeepsTo ids start (invoke call pool operand frame) (Frame.Inside ids) := by
  rw [invoke_eq]
  apply (stays_calling pool operand hframe).bind
  rintro ⟨target, args, rest⟩ ⟨htarget, hargs, hrest⟩ machine h
  obtain ⟨hlater, -⟩ := hcall target args htarget hargs machine h
  simp only [complete, EStateM.run_bind, EStateM.run_get]
  cases hrun : (call target args).run machine with
  | error stop later =>
    rw [hrun] at hlater
    refine ⟨hlater, fun next last hok => ?_⟩
    contradiction
  | ok done later =>
    rw [hrun] at hlater
    simp only
    split
    · refine ⟨hlater, fun next last hok => ?_⟩
      contradiction
    · refine ⟨hlater, fun next last hok => ?_⟩
      exact (EStateM.Result.ok.inj hok).1 ▸ hrest

/-- An instruction keeps to the objects of its activation, and so does the frame after it. -/
theorem stays_run (hcall : Run.CallsConfined ids start call) (depth : Nat) (pool : ConstantPool)
    (pc : Nat) (opcode : Opcode) (operand : Nat) (hframe : frame.Inside ids) :
    Run.KeepsTo ids start (run call depth pool pc opcode operand frame)
      (Frame.IfAny (Frame.Inside ids)) := by
  have hsome {work : Run Frame} (hwork : Run.KeepsTo ids start work (Frame.Inside ids)) :
      Run.KeepsTo ids start (do return some (← work)) (Frame.IfAny (Frame.Inside ids)) :=
    hwork.bind fun frame h => stays_pure h
  have hpush (value : Slot) (hvalue : value.Inside ids) :
      Run.KeepsTo ids start (do return some (← frame.push value))
        (Frame.IfAny (Frame.Inside ids)) :=
    hsome (Frame.stays_push hframe hvalue)
  cases opcode with
  | nop => exact stays_pure hframe
  | iconst1 => exact hpush _ (Slot.inside_of_isObject rfl)
  | dconst1 => exact hpush _ (Slot.inside_of_isObject rfl)
  | bipush => exact hpush _ (Slot.inside_of_isObject rfl)
  | sipush => exact hpush _ (Slot.inside_of_isObject rfl)
  | ldc => exact (stays_constant pool operand).bind hpush
  | ldc2w => exact (stays_wideConstant pool operand).bind hpush
  | aload0 => exact (Frame.stays_getLocal hframe 0).bind hpush
  | aload1 => exact (Frame.stays_getLocal hframe 1).bind hpush
  | astore0 =>
    exact (Frame.stays_pop hframe).bind fun answer h =>
      hsome (Frame.stays_setLocal h.2 0 h.1)
  | astore1 =>
    exact (Frame.stays_pop hframe).bind fun answer h =>
      hsome (Frame.stays_setLocal h.2 1 h.1)
  | dup =>
    apply (Frame.stays_pop hframe).bind
    rintro ⟨value, rest⟩ ⟨hvalue, hrest⟩
    apply (Frame.stays_push hrest hvalue).bind
    intro pushed hpushed
    exact hsome (Frame.stays_push hpushed hvalue)
  | getstatic =>
    apply (Run.Still.memberRef pool operand).stays.bind
    intro member _
    exact (stays_staticField depth member).bind hpush
  | getfield =>
    apply (Run.Still.memberRef pool operand).stays.bind
    intro member _
    apply (Frame.stays_pop hframe).bind
    rintro ⟨target, rest⟩ ⟨htarget, hrest⟩
    apply (stays_getField member.name htarget).bind
    intro value hvalue
    exact hsome (Frame.stays_push hrest hvalue)
  | putfield =>
    apply (Run.Still.memberRef pool operand).stays.bind
    intro member _
    apply (Frame.stays_pop hframe).bind
    rintro ⟨value, rest⟩ ⟨hvalue, hrest⟩
    apply (Frame.stays_pop hrest).bind
    rintro ⟨target, rest⟩ ⟨htarget, hrest⟩
    apply (stays_putField member.name htarget hvalue).bind
    intro _ _
    exact stays_pure hrest
  | new => exact (stays_newObject pool operand).bind hpush
  | invokevirtual => exact hsome (stays_invoke hcall pool operand hframe)
  | invokespecial => exact hsome (stays_invoke hcall pool operand hframe)
  | returnVoid => exact stays_pure trivial
  | areturn =>
    apply (Frame.stays_pop hframe).bind
    rintro ⟨result, rest⟩ ⟨hresult, hrest⟩
    apply (Frame.stays_clear hrest).discard.bind
    intro _ _
    exact (Run.stays_push hresult).bind fun _ _ => stays_pure trivial
  | unsupported byte => exact stays_throw _

end Instruction

namespace Machine

variable {call : ResolvedMethod → List Slot → Run Unit}

theorem stays_execute (hcall : Run.CallsConfined ids start call) (depth : Nat)
    (pool : ConstantPool) (listing : Listing) {frame : Frame} (hframe : frame.Inside ids) :
    Run.KeepsTo ids start (execute call depth pool listing frame) fun _ => True := by
  induction listing generalizing frame with
  | exhausted => exact stays_throw _
  | truncated pc opcode => exact stays_throw _
  | instruction pc opcode operand next ih =>
    apply (Instruction.stays_run hcall depth pool pc opcode operand hframe).bind
    intro goesOn hgoesOn
    cases goesOn with
    | some frame => exact ih hgoesOn
    | none => exact stays_pure trivial

theorem callsConfined_runMethod (depth : Nat) :
    Run.CallsConfined ids start (runMethod depth) := by
  induction depth with
  | zero => exact fun target args htarget hargs => stays_throw _
  | succ depth ih =>
    intro target args htarget hargs
    unfold runMethod
    split
    next actions hbody => exact NativeAction.stays_performAll hargs (htarget actions hbody)
    next =>
      split
      · exact stays_throw _
      next code hcode =>
        exact stays_execute ih depth _ _ (Frame.inside_enter code hargs)

theorem confined_of_mem_methodDispatches (depth : Nat) {target : ResolvedMethod} {args : List Slot}
    {machine : Machine} (htarget : target.method.BringsNothing)
    (hargs : ∀ slot ∈ args, slot.Inside ids) (h : machine.Confined ids start) :
    ∀ met ∈ methodDispatches depth target args machine, met.Confined ids start :=
  forall_mem_methodDispatches (F := Frame.Inside ids)
    (T := fun target args => target.method.BringsNothing ∧ ∀ slot ∈ args, slot.Inside ids)
    (fun pool operand _ hframe =>
      (Instruction.stays_calling pool operand hframe).weaken fun _ h => ⟨h.1, h.2.1⟩)
    (fun _ _ code h => Frame.inside_enter code h.2)
    (fun depth pool pc opcode operand _ hframe =>
      Instruction.stays_run (callsConfined_runMethod depth) depth pool pc opcode operand hframe)
    depth target args machine ⟨htarget, hargs⟩ h

end Machine

end ClassMachine
