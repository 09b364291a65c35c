import ClassMachine.Proofs.Lifecycle.Initializing
import ClassMachine.Proofs.Machine.Parts

/-!
# The moments of a run

Every dispatch of an instruction is a moment, and so is the end of every loading; a class that is
initialized for an instruction adds the moments of its initialization. No initialization is under
way at a dispatch, since none runs code. All other instructions leave the class table alone.
-/

namespace ClassMachine

open Work Lifecycle

namespace Lifecycle

variable {σ α β : Type}

/-- The moments are a trail from the table before the work to the table after it, with no class
under way at the end unless the depth is used up. -/
def Leads (view : σ → ClassTable) (moments : Moments σ) (work : EStateM Stop σ α) : Prop :=
  ∀ s, (view s).Checked → ∃ last, Trail ⟨[], view s⟩ (moments s) last ∧
    last.table = view (final (work.run s)) ∧
    ((∀ later, work.run s ≠ .error .tooDeep later) → last.active = [])

def Keeps (view : σ → ClassTable) (s later : σ) : Prop :=
  view later = view s

variable {view : σ → ClassTable} {moments : Moments σ} {work : EStateM Stop σ α}

theorem Keeps.trans (s t u : σ) (h : Keeps view s t) (hu : Keeps view t u) : Keeps view s u :=
  Eq.trans hu h

theorem leads_quiet (h : Within (Keeps view) work) : Leads view quiet work :=
  fun s _ => ⟨_, .nil _, (h s).symm, fun _ => rfl⟩

theorem Leads.bind {next : α → Moments σ} {rest : α → EStateM Stop σ β}
    (h : Leads view moments work) (hrest : ∀ a, Leads view (next a) (rest a)) :
    Leads view (follow moments work next) (work >>= rest) := by
  intro s hs
  obtain ⟨middle, htrail, htable, hactive⟩ := h s hs
  simp only [follow, EStateM.run_bind]
  cases hrun : work.run s with
  | error stop later =>
    rw [hrun] at htable hactive
    refine ⟨middle, by rw [List.append_nil]; exact htrail, htable, fun hstop => hactive ?_⟩
    exact fun last h => hstop last (by cases h; rfl)
  | ok a later =>
    rw [hrun] at htable hactive
    obtain ⟨active, table⟩ := middle
    obtain rfl : active = [] := hactive fun _ h => by contradiction
    obtain rfl : table = view later := htable
    obtain ⟨last, hlast, hend⟩ := hrest a later (htrail.grows.checked hs)
    exact ⟨last, htrail.append hlast, hend⟩

/-- What is done afterwards without the class table adds no moments. -/
theorem Leads.andThen {rest : α → EStateM Stop σ β} (h : Leads view moments work)
    (hrest : ∀ a, Within (Keeps view) (rest a)) : Leads view moments (work >>= rest) := by
  have hmoments : follow moments work (fun _ => quiet) = moments := by
    funext s
    unfold follow quiet
    cases work.run s <;> exact List.append_nil _
  rw [← hmoments]
  exact h.bind fun a => leads_quiet (hrest a)

theorem Leads.get {next : σ → EStateM Stop σ β} (h : ∀ a, Leads view moments (next a)) :
    Leads view moments (do next (← get)) :=
  fun s hs => h s s hs

theorem Leads.discard (h : Leads view moments work) : Leads view moments (discard work) := by
  intro s hs
  obtain ⟨last, htrail, htable, hactive⟩ := h s hs
  refine ⟨last, htrail, ?_, fun hstop => hactive fun later hlater => ?_⟩
  · rw [htable, run_discard]
    cases work.run s <;> rfl
  · exact hstop later (by rw [run_discard, hlater])

def onTable (moments : Moments ClassTable) : Moments Machine :=
  fun machine => moments machine.table

theorem Leads.link {moments : Moments ClassTable} {linking : Linking α}
    (h : Leads id moments linking) :
    Leads Machine.table (onTable moments) (Run.link linking) := by
  intro machine hmachine
  obtain ⟨last, htrail, htable, hactive⟩ := h machine.table hmachine
  refine ⟨last, htrail, ?_, fun hstop => hactive fun later hlater => ?_⟩
  · rw [htable, Run.run_link]
    cases linking.run machine.table <;> rfl
  · refine hstop { machine with table := later } ?_
    rw [Run.run_link, hlater]

theorem Leads.dispatch (h : Leads view moments work) :
    Leads view (fun s => ⟨[], view s⟩ :: moments s) work := by
  intro s hs
  obtain ⟨last, htrail, hend⟩ := h s hs
  exact ⟨last, .cons (.load (.refl _)) htrail, hend⟩

end Lifecycle

namespace Linking

theorem leads_load (name : Bytes) : Leads id (loadMoments [] name) (load name) :=
  fun table _ => ⟨_, .single (.load (load_extends name table)), rfl, fun _ => rfl⟩

theorem leads_initClass (depth : Nat) (name : Bytes) :
    Leads id (initMoments depth [] name) (initClass depth name) := by
  intro table htable
  obtain ⟨last, htrail, harrives⟩ :=
    initTrails depth [] name table htable fun _ h => nomatch h
  refine ⟨last, htrail, ?_⟩
  cases hrun : (initClass depth name).run table with
  | ok _ later =>
    rw [hrun] at harrives
    exact ⟨congrArg Moment.table harrives.1, fun _ => congrArg Moment.active harrives.1⟩
  | error stop later =>
    rw [hrun] at harrives
    cases stop with
    | fault fault =>
      exact ⟨congrArg Moment.table harrives.1, fun _ => congrArg Moment.active harrives.1⟩
    | tooDeep => exact ⟨harrives, fun hstop => absurd rfl (hstop later)⟩

theorem leads_resolve (className name descriptor : Bytes) :
    Leads id (loadMoments [] className) (resolve className name descriptor) := by
  apply (leads_load className).andThen
  intro file table
  simp only [EStateM.run_bind, run_resolution]
  cases file.overload name descriptor <;> rfl

theorem keeps_getStatic (name field : Bytes) : Within (Keeps id) (getStatic name field) := by
  intro table
  simp only [getStatic, EStateM.run_bind, run_lookup]
  cases table.get? name with
  | none => rfl
  | some c =>
    simp only
    cases c.statics.get? field <;> rfl

def enterMoments (depth : Nat) (name : Bytes) : Moments ClassTable :=
  follow (loadMoments [] name) (discard (load name)) fun _ => initMoments depth [] name

end Linking

namespace Lifecycle

theorem keeps_plain {work : Run α} (h : Run.Plain true work) :
    Within (Keeps Machine.table) work :=
  h.within (R := Keeps Machine.table) (fun _ => rfl) Keeps.trans (fun _ _ => rfl)
    (fun _ _ _ _ _ => rfl) fun _ _ _ => rfl

theorem leads_plain {work : Run α} (h : Run.Plain true work) :
    Leads Machine.table quiet work :=
  leads_quiet (keeps_plain h)

theorem keeps_create (file : ClassFile) : Within (Keeps Machine.table) (Run.create file) := by
  apply (keeps_plain (.still (.structural _))).bind Keeps.trans
  intro className
  exact (keeps_plain (.still (.structural _))).bind Keeps.trans fun fields machine => rfl

end Lifecycle

namespace Instruction

def newMoments (pool : ConstantPool) (operand : Nat) : Moments Machine :=
  follow quiet (position operand) fun position =>
    follow quiet (Run.structural (pool.className position)) fun name =>
      onTable (Linking.loadMoments [] name)

/-- The moments of a call, with those of the method that is called. -/
def invokeMoments (callMoments : ResolvedMethod → List Slot → Moments Machine)
    (pool : ConstantPool) (operand : Nat) (frame : Frame) : Moments Machine :=
  follow quiet (memberRef pool operand) fun member =>
    follow (onTable (Linking.loadMoments [] member.className))
      (Run.link (Linking.resolve member.className member.name member.descriptor)) fun target =>
        follow quiet (frame.popMany (argumentCount target.method) []) fun (args, _) =>
          callMoments target args

def moments (callMoments : ResolvedMethod → List Slot → Moments Machine) (depth : Nat)
    (pool : ConstantPool) (opcode : Opcode) (operand : Nat) (frame : Frame) : Moments Machine :=
  match opcode with
  | .getstatic =>
    follow quiet (memberRef pool operand) fun member =>
      onTable (Linking.enterMoments depth member.className)
  | .new => newMoments pool operand
  | .invokevirtual | .invokespecial => invokeMoments callMoments pool operand frame
  | _ => quiet

variable {call : ResolvedMethod → List Slot → Run Unit}
  {callMoments : ResolvedMethod → List Slot → Moments Machine}

theorem leads_staticField (depth : Nat) (member : MemberRef) :
    Leads Machine.table (onTable (Linking.enterMoments depth member.className))
      (staticField depth member) := by
  refine Leads.link ((Linking.leads_load _).discard.bind fun _ => ?_)
  exact (Linking.leads_initClass depth _).andThen fun _ => Linking.keeps_getStatic _ _

theorem leads_newObject (pool : ConstantPool) (operand : Nat) :
    Leads Machine.table (newMoments pool operand) (newObject pool operand) := by
  apply (leads_plain (.still (.position operand))).bind
  intro place
  apply (leads_plain (.still (.structural _))).bind
  intro name
  exact (Linking.leads_load name).link.andThen keeps_create

theorem leads_invoke (hcall : ∀ target args, Leads Machine.table (callMoments target args)
    (call target args)) (pool : ConstantPool) (operand : Nat) (frame : Frame) :
    Leads Machine.table (invokeMoments callMoments pool operand frame)
      (invoke call pool operand frame) := by
  apply (leads_plain (.still (.memberRef pool operand))).bind
  intro member
  apply (Linking.leads_resolve _ _ _).link.bind
  intro target
  apply (leads_plain (.popMany _ frame [])).bind
  rintro ⟨args, frame⟩
  apply Leads.get
  intro before
  apply (hcall target args).andThen
  intro _ after
  simp only [EStateM.run_bind, EStateM.run_get]
  split <;> rfl

theorem leads_run (hcall : ∀ target args, Leads Machine.table (callMoments target args)
    (call target args)) (depth : Nat) (pool : ConstantPool) (pc : Nat) (opcode : Opcode)
    (operand : Nat) (frame : Frame) :
    Leads Machine.table (moments callMoments depth pool opcode operand frame)
      (run call depth pool pc opcode operand frame) := by
  have hpush (value : Slot) :
      Within (Keeps Machine.table) (do return some (← frame.push value)) :=
    keeps_plain (.bind (.framePush frame value) fun _ => .pure _)
  cases opcode with
  | getstatic =>
    apply (leads_plain (.still (.memberRef pool operand))).bind
    intro member
    exact (leads_staticField depth member).andThen hpush
  | new => exact (leads_newObject pool operand).andThen hpush
  | invokevirtual =>
    exact (leads_invoke hcall pool operand frame).andThen fun _ => keeps_plain (.pure _)
  | invokespecial =>
    exact (leads_invoke hcall pool operand frame).andThen fun _ => keeps_plain (.pure _)
  | _ => exact leads_plain (Run.Plain.run call depth pool pc operand frame rfl).outwards

end Instruction

namespace Machine

/-- The moments of an activation: the dispatch of each instruction, with no class under way, and
the moments of the instruction. -/
def executeMoments (call : ResolvedMethod → List Slot → Run Unit)
    (callMoments : ResolvedMethod → List Slot → Moments Machine) (depth : Nat)
    (pool : ConstantPool) : Listing → Frame → Moments Machine
  | .exhausted, _ => quiet
  | .truncated _ _, _ => quiet
  | .instruction pc opcode operand next, frame => fun machine =>
    ⟨[], machine.table⟩ ::
      follow (Instruction.moments callMoments depth pool opcode operand frame)
        (Instruction.run call depth pool pc opcode operand frame)
        (fun
          | some frame => executeMoments call callMoments depth pool next frame
          | none => quiet)
        machine

/-- The moments of a method; native methods do not change the class table. -/
def methodMoments : (depth : Nat) → ResolvedMethod → List Slot → Moments Machine
  | 0, _, _ => quiet
  | depth + 1, target, args =>
    match target.method.body with
    | .native _ => quiet
    | .bytecode =>
      match target.method.code? with
      | none => quiet
      | some code =>
        executeMoments (runMethod depth) (methodMoments depth) depth target.file.pool
          (Listing.ofBytes code.bytes) (Frame.enter code args)

theorem leads_execute {call : ResolvedMethod → List Slot → Run Unit}
    {callMoments : ResolvedMethod → List Slot → Moments Machine}
    (hcall : ∀ target args, Leads Machine.table (callMoments target args) (call target args))
    (depth : Nat) (pool : ConstantPool) (listing : Listing) (frame : Frame) :
    Leads Machine.table (executeMoments call callMoments depth pool listing frame)
      (execute call depth pool listing frame) := by
  induction listing generalizing frame with
  | exhausted => exact leads_plain (.fail _)
  | truncated pc opcode => exact leads_plain (.fail _)
  | instruction pc opcode operand next ih =>
    refine Leads.dispatch ?_
    apply (Instruction.leads_run hcall depth pool pc opcode operand frame).bind
    intro goesOn
    cases goesOn with
    | some frame => exact ih frame
    | none => exact leads_plain (.pure ())

theorem leads_runMethod (depth : Nat) (target : ResolvedMethod) (args : List Slot) :
    Leads Machine.table (methodMoments depth target args) (runMethod depth target args) := by
  induction depth generalizing target args with
  | zero => exact leads_quiet fun _ => rfl
  | succ depth ih =>
    simp only [methodMoments, runMethod]
    cases target.method.body with
    | native actions => exact leads_plain (.performAll args actions)
    | bytecode =>
      cases target.method.code? with
      | none => exact leads_plain (.fail _)
      | some code => exact leads_execute ih depth _ _ _

end Machine

end ClassMachine
