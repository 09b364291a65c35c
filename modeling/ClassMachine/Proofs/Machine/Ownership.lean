import ClassMachine.Proofs.ClassFile.Exactness
import ClassMachine.Proofs.Machine.Insulation
import ClassMachine.Proofs.Machine.Parts

/-!
# What activations own

An activation knows how many values at the end of the shared stack are its own, and on a stack that
was empty when it began these are all there are. The parts of instructions keep this count right,
so that they are insulated from what lies below.
-/

namespace ClassMachine

open Work Run

/-- A native method that takes no values off the stack; its arguments are taken by the call. -/
def Method.TakesNothing (method : Method) : Prop :=
  ∀ actions, method.body = .native actions → NativeAction.discard ∉ actions

def ClassFile.TakesNothing (file : ClassFile) : Prop :=
  ∀ method ∈ file.methods, method.TakesNothing

def ClassTable.TakesNothing (table : ClassTable) : Prop :=
  table.Each fun _ file => file.TakesNothing

theorem takesNothing_of_parseChecked {content : Bytes} {file : ClassFile}
    (h : ClassFile.parseChecked content = .ok file) : file.TakesNothing := by
  intro method hmethod actions hbody
  have hparse := ((ClassFile.parseChecked_eq_ok_iff content file).1 h).1
  rw [ClassFile.body_of_parse hparse method hmethod] at hbody
  contradiction

namespace ClassTable

theorem Grows.takesNothing {table later : ClassTable} (h : table.Grows later)
    (htable : table.TakesNothing) : later.TakesNothing :=
  h.each (fun _ _ _ hfile _ => takesNothing_of_parseChecked hfile) htable

end ClassTable

theorem ClassFile.mem_of_overload {file : ClassFile} {name descriptor : Bytes}
    {found : Method × Nat} (h : file.overload name descriptor = .ok found) :
    found.1 ∈ file.methods := by
  unfold overload at h
  cases hfitting : file.fitting name descriptor with
  | nil => simp [hfitting] at h
  | cons first others =>
    cases others with
    | cons => simp [hfitting] at h
    | nil =>
      simp only [hfitting, Except.ok.injEq] at h
      subst h
      have hmem : first ∈ file.fitting name descriptor := hfitting ▸ List.mem_singleton_self first
      exact List.fst_mem_of_mem_zipIdx ((List.mem_filter.1 hmem).1)

def ResolvedMethod.Registered (target : ResolvedMethod) (table : ClassTable) : Prop :=
  ∃ name c, table.get? name = some c ∧ target.file = c.file ∧ target.method ∈ c.file.methods

theorem Linking.registered_of_resolve {table later : ClassTable} {className name descriptor : Bytes}
    {target : ResolvedMethod}
    (hrun : (resolve className name descriptor).run table = .ok target later) :
    target.Registered later := by
  have hloaded (file : ClassFile) (middle : ClassTable)
      (hload : (load className).run table = .ok file middle) :
      ∃ c, middle.get? className = some c ∧ c.file = file := by
    rw [run_load] at hload
    cases hget : table.get? className with
    | some c =>
      simp only [hget, EStateM.Result.ok.injEq] at hload
      obtain ⟨rfl, rfl⟩ := hload
      exact ⟨c, hget, rfl⟩
    | none =>
      cases hfetch : table.source.fetch className with
      | error fault => simp [hget, hfetch] at hload
      | ok found =>
        simp only [hget, hfetch, EStateM.Result.ok.injEq] at hload
        obtain ⟨rfl, rfl⟩ := hload
        exact ⟨{ file := found }, (ClassTable.get?_insert ..).trans (if_pos rfl), rfl⟩
  simp only [resolve, EStateM.run_bind] at hrun
  cases hload : (load className).run table with
  | error stop middle => simp [hload] at hrun
  | ok file middle =>
    obtain ⟨c, hget, rfl⟩ := hloaded file middle hload
    simp only [hload, run_resolution] at hrun
    cases hfound : c.file.overload name descriptor with
    | error e => simp [hfound] at hrun
    | ok found =>
      simp only [hfound, EStateM.run_pure, EStateM.Result.ok.injEq] at hrun
      obtain ⟨rfl, rfl⟩ := hrun
      exact ⟨className, c, hget, rfl, ClassFile.mem_of_overload hfound⟩

theorem ResolvedMethod.Registered.of_each {target : ResolvedMethod} {table : ClassTable}
    (h : target.Registered table) {P : Method → Prop}
    (htable : table.Each fun _ file => ∀ method ∈ file.methods, P method) : P target.method := by
  obtain ⟨name, c, hget, -, hmem⟩ := h
  exact htable name c hget target.method hmem

/-- Work that only looks at the objects is insulated from all that lies on the stack. -/
theorem Run.insulated_still {α : Type} {work : Run α} (h : Run.Still work)
    {before : Machine → Prop} : Insulated before work fun _ => before := by
  induction h generalizing before with
  | pure a => exact insulated_return a
  | fail fault => exact insulated_fail fault
  | bind _ _ ih ihnext => exact ih.bind fun a => ihnext a
  | heap _ ih =>
    exact insulated_view (fun machine => machine.heap) _ (fun _ _ => rfl) fun heap => ih heap

namespace Frame

/-- The values on the stack are exactly those that the activation owns. -/
def Owns (frame : Frame) (machine : Machine) : Prop :=
  machine.table.TakesNothing ∧ machine.stack.size = frame.owned

theorem insulated_push (frame : Frame) (value : Slot) :
    Insulated frame.Owns (frame.push value) Owns := by
  have hpush : Insulated frame.Owns (Run.push value) fun _ machine =>
      machine.table.TakesNothing ∧ machine.stack.size = frame.owned + 1 := by
    refine insulated_modify (fun machine below => ?_) ?_
    · simp [Machine.onto, OperandStack.push_onto]
    · rintro machine ⟨htable, hsize⟩
      exact ⟨htable, by rw [OperandStack.size_push, hsize]⟩
  refine hpush.bind fun _ => (insulated_pure _).weaken (fun _ h => h) ?_
  rintro next machine ⟨rfl, h⟩
  exact h

theorem run_pop {frame : Frame} {machine : Machine} {value : Slot} {owned : Nat}
    {stack : OperandStack} (howned : frame.owned = owned + 1)
    (hstack : machine.stack = stack.push value) :
    frame.pop.run machine = .ok (value, { frame with owned }) { machine with stack } := by
  unfold pop
  rw [howned]
  simp only [Run.pop, EStateM.run_bind, EStateM.run_get, hstack, OperandStack.pop?_push]
  rfl

theorem insulated_pop (frame : Frame) :
    Insulated frame.Owns frame.pop fun answer machine =>
      answer.2.Owns machine ∧ answer.2.owned + 1 = frame.owned := by
  rintro machine ⟨htable, hsize⟩
  cases howned : frame.owned with
  | zero =>
    unfold pop
    rw [howned]
    exact ⟨fun below => rfl, fun _ _ h => nomatch h⟩
  | succ owned =>
    obtain ⟨value, rest, hstack, hrest⟩ := OperandStack.eq_push_of_size (hsize.trans howned)
    rw [run_pop howned hstack]
    constructor
    · intro below
      have hbelow : (machine.onto below).stack = (rest.onto below).push value := by
        rw [OperandStack.push_onto, ← hstack]
        rfl
      rw [run_pop howned hbelow]
      rfl
    · intro answer later h
      simp only [EStateM.Result.ok.injEq] at h
      obtain ⟨rfl, rfl⟩ := h
      exact ⟨⟨htable, hrest⟩, rfl⟩

theorem insulated_popMany (count : Nat) (frame : Frame) (values : List Slot) :
    Insulated frame.Owns (popMany count frame values) fun answer machine =>
      answer.2.Owns machine ∧ answer.2.owned + count = frame.owned := by
  induction count generalizing frame values with
  | zero =>
    refine (insulated_pure _).weaken (fun _ h => h) ?_
    rintro answer machine ⟨rfl, h⟩
    exact ⟨h, rfl⟩
  | succ count ih =>
    apply (insulated_pop frame).bind
    rintro answer machine ⟨howns, hcount⟩
    obtain ⟨hsame, hlater⟩ := ih answer.2 (answer.1 :: values) machine howns
    refine ⟨hsame, fun last later hrun => ?_⟩
    obtain ⟨hlast, hsum⟩ := hlater last later hrun
    exact ⟨hlast, by omega⟩

theorem insulated_clear (frame : Frame) :
    Insulated frame.Owns frame.clear fun last machine => last.Owns machine ∧ last.owned = 0 := by
  apply (insulated_popMany frame.owned frame []).bind
  intro answer
  refine (insulated_pure _).weaken (fun _ h => h) ?_
  rintro last machine ⟨rfl, howns, hsum⟩
  exact ⟨howns, by omega⟩

/-- An activation that owns all there is on the stack takes all of it. -/
theorem run_popMany {frame : Frame} {machine : Machine} {count : Nat} (values : List Slot)
    (howned : frame.owned = count) (hsize : machine.stack.size = count) :
    (popMany count frame values).run machine =
      .ok (machine.stack.slots.reverse ++ values, { frame with owned := 0 })
        { machine with stack := .empty } := by
  induction count generalizing frame machine values with
  | zero =>
    have hempty := OperandStack.eq_empty_of_size hsize
    obtain ⟨table, heap, console, stack⟩ := machine
    obtain ⟨locals, owned⟩ := frame
    simp only at hempty howned
    subst hempty howned
    rfl
  | succ count ih =>
    obtain ⟨value, rest, hstack, hrest⟩ := OperandStack.eq_push_of_size hsize
    simp only [popMany, EStateM.run_bind, run_pop howned hstack]
    rw [ih (value :: values) rfl hrest]
    simp [hstack]

theorem run_clear {frame : Frame} {machine : Machine} (hsize : machine.stack.size = frame.owned) :
    frame.clear.run machine = .ok { frame with owned := 0 } { machine with stack := .empty } := by
  simp only [clear, EStateM.run_bind, run_popMany [] rfl hsize]
  rfl

theorem insulated_setLocal (frame : Frame) (index : Nat) (value : Slot) :
    Insulated frame.Owns (frame.setLocal index value) Owns := by
  unfold setLocal
  split
  · refine (insulated_pure _).weaken (fun _ h => h) ?_
    rintro last machine ⟨rfl, h⟩
    exact h
  · exact insulated_execution _

end Frame

theorem insulated_leave (value : Slot) :
    Insulated (·.table.TakesNothing) (Run.push value) fun _ machine =>
      machine.table.TakesNothing :=
  insulated_modify (fun _ _ => congrArg (Machine.mk _ _ _) (OperandStack.push_onto ..)) fun _ h => h

namespace Instruction

variable {α : Type}

/-- Whatever is done with the class table, no class gets a method that takes values. -/
theorem insulated_grows (frame : Frame) {linking : Linking α}
    (h : Within ClassTable.Grows linking) :
    Insulated frame.Owns (Run.link linking) fun _ => frame.Owns := by
  have hlink : Insulated frame.Owns (Run.link linking) fun _ machine =>
      True ∧ frame.Owns machine :=
    insulated_link (·.size = frame.owned) fun table a later htable hrun =>
      ⟨(h.ok hrun).takesNothing htable, trivial⟩
  exact hlink.weaken (fun _ h => h) fun _ _ h => h.2

theorem insulated_staticField (depth : Nat) (member : MemberRef) (frame : Frame) :
    Insulated frame.Owns (staticField depth member) fun _ => frame.Owns := by
  refine insulated_grows frame ?_
  apply (Linking.load_grows _).discard.bind ClassTable.Grows.trans
  intro _
  apply (Linking.initClass_grows _ _).bind ClassTable.Grows.trans
  intro _
  exact Linking.getStatic_grows _ _

theorem insulated_putField (name : Bytes) (target value : Slot) (frame : Frame) :
    Insulated frame.Owns (putField name target value) fun _ => frame.Owns := by
  apply (insulated_still (.receiver _ target)).bind
  intro id
  exact insulated_modify (fun _ _ => rfl) fun _ h => h

theorem insulated_create (file : ClassFile) (frame : Frame) :
    Insulated frame.Owns (Run.create file) fun _ => frame.Owns := by
  apply (insulated_still (.structural _)).bind
  intro className
  apply (insulated_still (.structural _)).bind
  rintro fields machine ⟨htable, hsize⟩
  refine ⟨fun _ => rfl, fun value later hrun => ?_⟩
  simp only [EStateM.run_bind, EStateM.run_get, EStateM.run_set, EStateM.run_pure,
    EStateM.Result.ok.injEq] at hrun
  obtain ⟨-, rfl⟩ := hrun
  exact ⟨htable, hsize⟩

theorem insulated_newObject (pool : ConstantPool) (operand : Nat) (frame : Frame) :
    Insulated frame.Owns (newObject pool operand) fun _ => frame.Owns := by
  apply (insulated_still (.position operand)).bind
  intro place
  apply (insulated_still (.structural _)).bind
  intro className
  apply (insulated_grows frame (Linking.load_grows className)).bind
  intro file
  exact insulated_create file frame

end Instruction

namespace NativeAction

theorem insulated_print (text : String) :
    Insulated (·.table.TakesNothing) (Run.print text) fun _ machine =>
      machine.table.TakesNothing := by
  let content := Utf8.encode text
  let write : Run Unit :=
    modify fun machine => { machine with console := machine.console.write content }
  have hwrite : Insulated (·.table.TakesNothing) write fun _ machine =>
      machine.table.TakesNothing :=
    insulated_modify (fun _ _ => rfl) fun _ h => h
  let next (console : Console) : Run Unit := do
    write
    unless console.fits content do Run.fail (.io .consoleFull)
  refine insulated_view (fun machine => machine.console) next (fun _ _ => rfl) fun console => ?_
  apply hwrite.bind
  intro _
  split
  · exact insulated_return ()
  · exact insulated_fail _

theorem insulated_perform (args : List Slot) {action : NativeAction} (haction : action ≠ .discard) :
    Insulated (·.table.TakesNothing) (action.perform args) fun _ machine =>
      machine.table.TakesNothing := by
  cases action with
  | discard => contradiction
  | push value => exact insulated_leave value
  | pushArgument place => exact insulated_leave _
  | pushTextLength => exact insulated_leave _
  | printLine => exact (insulated_still (.line args)).bind insulated_print
  | fail reason => exact insulated_fail _

theorem insulated_performAll (args : List Slot) {actions : List NativeAction}
    (hactions : .discard ∉ actions) :
    Insulated (·.table.TakesNothing) (performAll args actions) fun _ machine =>
      machine.table.TakesNothing := by
  induction actions with
  | nil => exact insulated_return ()
  | cons action actions ih =>
    rw [List.mem_cons, not_or] at hactions
    exact (insulated_perform args (Ne.symm hactions.1)).bind fun _ => ih hactions.2

end NativeAction

end ClassMachine
