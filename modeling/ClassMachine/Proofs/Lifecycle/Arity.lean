import ClassMachine.CommandLine.Run
import ClassMachine.Proofs.Lifecycle.Activations
import ClassMachine.Proofs.Machine.TypedCalls

/-!
# How many arguments activations get

A method that is called by another one gets as many arguments as it has parameters, and a receiver
unless it is static. The first activation of a run gets its arguments from outside, one for each
parameter of the descriptor that the run is started with. So it has what a static method needs, and
a method that is not static begins without its receiver.
-/

namespace ClassMachine

open Work

/-- There is an argument for each parameter, and a receiver if the method is not static. -/
def Activation.Agrees (activation : Activation) : Prop :=
  activation.args.length = Instruction.argumentCount activation.target.method

instance : DecidablePred Activation.Agrees := fun activation =>
  inferInstanceAs (Decidable (activation.args.length =
    Instruction.argumentCount activation.target.method))

theorem Frame.length_of_popMany {count : Nat} {frame rest : Frame} {values args : List Slot}
    {machine later : Machine}
    (hrun : (popMany count frame values).run machine = .ok (args, rest) later) :
    args.length = count + values.length := by
  induction count generalizing frame values machine with
  | zero =>
    obtain ⟨hanswer, -⟩ := EStateM.Result.ok.inj hrun
    obtain ⟨rfl, -⟩ := Prod.mk.inj hanswer
    exact (Nat.zero_add _).symm
  | succ count ih =>
    obtain ⟨⟨value, frame⟩, middle, -, hrest⟩ := (run_bind_eq_ok_iff _ _ _ _ _).1 hrun
    rw [ih hrest, List.length_cons]
    omega

namespace Machine

open Instruction

theorem length_of_calling {pool : ConstantPool} {operand : Nat} {frame rest : Frame}
    {machine later : Machine} {target : ResolvedMethod} {args : List Slot}
    (hrun : (calling pool operand frame).run machine = .ok (target, args, rest) later) :
    args.length = argumentCount target.method := by
  simp only [calling, run_bind_eq_ok_iff] at hrun
  obtain ⟨member, first, -, found, second, -, ⟨values, frame⟩, third, hpop, hreturn⟩ := hrun
  obtain ⟨hanswer, -⟩ := EStateM.Result.ok.inj hreturn
  obtain ⟨rfl, hrest⟩ := Prod.mk.inj hanswer
  obtain ⟨rfl, -⟩ := Prod.mk.inj hrest
  exact Frame.length_of_popMany hpop

variable {call : ResolvedMethod → List Slot → Run Unit}
  {callActivations : ResolvedMethod → List Slot → Machine → List Activation}

theorem agrees_of_mem_executeActivations
    (hcall : ∀ target args machine, args.length = argumentCount target.method →
      ∀ activation ∈ callActivations target args machine, activation.Agrees)
    (depth : Nat) (pool : ConstantPool) (listing : Listing) (frame : Frame) (machine : Machine) :
    ∀ activation ∈ executeActivations call callActivations depth pool listing frame machine,
      activation.Agrees := by
  induction listing generalizing frame machine with
  | exhausted => exact fun _ hmem => nomatch hmem
  | truncated pc opcode => exact fun _ hmem => nomatch hmem
  | instruction pc opcode operand next ih =>
    intro activation hmem
    simp only [executeActivations, List.mem_append] at hmem
    rcases hmem with hmem | hmem
    · unfold Instruction.activations at hmem
      split at hmem
      case h_3 => contradiction
      all_goals
        split at hmem
        next target args rest later hrun =>
          exact hcall target args later (length_of_calling hrun) activation hmem
        next => contradiction
    · split at hmem
      next rest later _ => exact ih rest later activation hmem
      next => contradiction

/-- All that is called in an activation agrees, whatever arguments it has got itself. -/
theorem agrees_of_mem_tail (depth : Nat) (target : ResolvedMethod) (args : List Slot)
    (machine : Machine) :
    ∀ activation ∈ (methodActivations depth target args machine).tail, activation.Agrees := by
  induction depth generalizing target args machine with
  | zero => exact fun _ hmem => nomatch hmem
  | succ depth ih =>
    -- A method with the arguments of a call agrees itself, and by induction so does what it calls.
    have hcall (target : ResolvedMethod) (args : List Slot) (machine : Machine)
        (hargs : args.length = argumentCount target.method) :
        ∀ activation ∈ methodActivations depth target args machine, activation.Agrees := by
      intro activation hmem
      cases depth with
      | zero => contradiction
      | succ depth =>
        rcases List.mem_cons.1 hmem with rfl | hmem
        · exact hargs
        · exact ih target args machine activation hmem
    simp only [methodActivations, List.tail_cons]
    intro activation hmem
    split at hmem
    · contradiction
    · split at hmem
      · contradiction
      · exact agrees_of_mem_executeActivations hcall depth _ _ _ machine activation hmem

theorem params_of_finding {depth : Nat} {className name descriptor : Bytes}
    {machine later : Machine} {target : ResolvedMethod} (htable : machine.table.Built)
    {signature : MethodSignature} (hparse : MethodSignature.parse descriptor = .ok signature)
    (hrun : (finding depth className name descriptor).run machine = .ok target later) :
    target.method.signature.params = signature.params := by
  simp only [finding, run_bind_eq_ok_iff, Run.run_link_eq_ok_iff] at hrun
  obtain ⟨table, ⟨_, loaded, hload, _, settled, hinit, hresolve⟩, -⟩ := hrun
  have hloaded := ((Linking.load_grows className).discard.ok hload).built htable
  have hsettled := ((Linking.initClass_grows depth className).ok hinit).built hloaded
  exact Linking.params_of_resolve hsettled hparse hresolve

end Machine

namespace Lifecycle

/-- The first of these activations has an argument for each parameter and nothing else, which is what
a static method needs; all others have what they need. -/
def OnlyEntryMayLack (activations : List Activation) : Prop :=
  ∀ entry inner, activations = entry :: inner →
    entry.args.length = entry.target.method.signature.params.length ∧
    (entry.Agrees ↔ entry.target.method.isStatic = true) ∧
    ∀ activation ∈ inner, activation.Agrees

theorem agrees_iff_isStatic {entry : Activation}
    (hargs : entry.args.length = entry.target.method.signature.params.length) :
    entry.Agrees ↔ entry.target.method.isStatic = true := by
  rw [Activation.Agrees, Instruction.argumentCount, hargs]
  cases entry.target.method.isStatic <;> simp

theorem onlyEntryMayLack_invoke {machine : Machine} (htable : machine.table.Built) (depth : Nat)
    (className name : Bytes) {descriptor : Bytes} {args : List Slot} {signature : MethodSignature}
    (hparse : MethodSignature.parse descriptor = .ok signature)
    (hargs : args.length = signature.params.length) :
    OnlyEntryMayLack
      ((Operation.invoke className name descriptor args).activations depth machine) := by
  intro entry inner hactivations
  simp only [Operation.activations] at hactivations
  split at hactivations
  next target later hrun =>
    cases depth with
    | zero => contradiction
    | succ depth =>
      obtain ⟨rfl, hinner⟩ := List.cons.inj hactivations
      have hparams := Machine.params_of_finding htable hparse hrun
      have hlength : args.length = target.method.signature.params.length := by
        rw [hargs, hparams]
      refine ⟨hlength, agrees_iff_isStatic hlength, fun activation hmem => ?_⟩
      refine Machine.agrees_of_mem_tail (depth + 1) target args later activation ?_
      rw [← hinner] at hmem
      exact hmem
  next => contradiction

end Lifecycle

namespace CommandLine

open Lifecycle

variable (read : String → Except IoError Bytes) (address : ObjectId → Nat)

def freshMachine (options : Options) : Machine :=
  Bootstrap.machine ((classPath options).source read) {} address

/-- What is invoked by a command line and on which machine, if it comes to that. -/
def entry (options : Options) : Option (Operation × Machine) :=
  let descriptor := Utf8.encode options.descriptor
  match (defineFile read options.classFile).run (freshMachine read address options) with
  | .error _ _ => none
  | .ok file machine =>
    match MethodSignature.parse descriptor with
    | .error _ => none
    | .ok signature =>
      match file.name with
      | .error _ => none
      | .ok name =>
        let args := signature.params.map fun _ => Slot.null
        some (.invoke name (Utf8.encode options.method) descriptor args, machine)

def activations (depth : Nat) (options : Options) : List Activation :=
  match entry read address options with
  | some (operation, machine) => operation.activations depth machine
  | none => []

variable {read}

theorem defineFile_grows (path : String) :
    Within (fun machine later => machine.table.Grows later.table) (defineFile read path) := by
  unfold defineFile
  split
  next => exact within_throw (fun machine => ClassTable.Grows.refl machine.table) _
  next content _ =>
    intro machine
    have hgrows := ((Linking.define_grows content).bind ClassTable.Grows.trans fun name =>
      (Linking.lookup_within ClassTable.Grows.refl name).bind ClassTable.Grows.trans fun c =>
        within_pure ClassTable.Grows.refl c.file) machine.table
    rw [Run.run_link]
    split
    next hrun => rwa [hrun] at hgrows
    next hrun => rwa [hrun] at hgrows

theorem onlyEntryMayLack_activations (read : String → Except IoError Bytes)
    (address : ObjectId → Nat) (depth : Nat) (options : Options) :
    OnlyEntryMayLack (activations read address depth options) := by
  have hnone : OnlyEntryMayLack [] := fun _ _ h => nomatch h
  simp only [activations, entry]
  cases hdefine : (defineFile read options.classFile).run (freshMachine read address options) with
  | error stop machine => exact hnone
  | ok file machine =>
    have htable := ((defineFile_grows _).ok hdefine).built (Bootstrap.machine_built _ _ _)
    simp only
    cases hparse : MethodSignature.parse (Utf8.encode options.descriptor) with
    | error e => exact hnone
    | ok signature =>
      simp only
      cases file.name with
      | error e => exact hnone
      | ok name => exact onlyEntryMayLack_invoke htable depth name _ hparse (List.length_map _)

end CommandLine

namespace Lifecycle

theorem parse_mainDescriptor : MethodSignature.parse Machine.mainDescriptor =
    .ok ⟨[.array (.object (Utf8.encode "java/lang/String"))], .void⟩ := by
  decide +kernel

/-- How a run is started from outside. -/
inductive Start where
  | commandLine (read : String → Except IoError Bytes) (address : ObjectId → Nat)
    (options : CommandLine.Options)
  /-- The entry point of a class is run without an array of arguments. -/
  | main (machine : Machine) (className : Bytes)

namespace Start

def activations (depth : Nat) : Start → List Activation
  | commandLine read address options => CommandLine.activations read address depth options
  | main machine className =>
    (Operation.invoke className Machine.mainName Machine.mainDescriptor [.null]).activations depth
      machine

/-- All classes that are there have been read or put together. -/
def Built : Start → Prop
  | commandLine _ _ _ => True
  | main machine _ => machine.table.Built

theorem onlyEntryMayLack {start : Start} (hstart : start.Built) (depth : Nat) :
    OnlyEntryMayLack (start.activations depth) := by
  cases start with
  | commandLine read address options =>
    exact CommandLine.onlyEntryMayLack_activations read address depth options
  | main machine className =>
    exact onlyEntryMayLack_invoke hstart depth className _ parse_mainDescriptor rfl

end Start

/-- A class Main with a field and a method `main` that is not static and stores 7 in the field. -/
def instanceMainBytes : Bytes :=
  [0xca, 0xfe, 0xba, 0xbe, 0x00, 0x00, 0x00, 0x34, 0x00, 0x0c, 0x01, 0x00, 0x04, 0x4d, 0x61, 0x69,
    0x6e, 0x07, 0x00, 0x01, 0x01, 0x00, 0x10, 0x6a, 0x61, 0x76, 0x61, 0x2f, 0x6c, 0x61, 0x6e, 0x67,
    0x2f, 0x4f, 0x62, 0x6a, 0x65, 0x63, 0x74, 0x07, 0x00, 0x03, 0x01, 0x00, 0x05, 0x76, 0x61, 0x6c,
    0x75, 0x65, 0x01, 0x00, 0x01, 0x49, 0x0c, 0x00, 0x05, 0x00, 0x06, 0x09, 0x00, 0x02, 0x00, 0x07,
    0x01, 0x00, 0x04, 0x6d, 0x61, 0x69, 0x6e, 0x01, 0x00, 0x16, 0x28, 0x5b, 0x4c, 0x6a, 0x61, 0x76,
    0x61, 0x2f, 0x6c, 0x61, 0x6e, 0x67, 0x2f, 0x53, 0x74, 0x72, 0x69, 0x6e, 0x67, 0x3b, 0x29, 0x56,
    0x01, 0x00, 0x04, 0x43, 0x6f, 0x64, 0x65, 0x00, 0x21, 0x00, 0x02, 0x00, 0x04, 0x00, 0x00, 0x00,
    0x01, 0x00, 0x00, 0x00, 0x05, 0x00, 0x06, 0x00, 0x00, 0x00, 0x01, 0x00, 0x01, 0x00, 0x09, 0x00,
    0x0a, 0x00, 0x01, 0x00, 0x0b, 0x00, 0x00, 0x00, 0x13, 0x00, 0x02, 0x00, 0x02, 0x00, 0x00, 0x00,
    0x07, 0x2a, 0x10, 0x07, 0xb5, 0x00, 0x08, 0xb1, 0x00, 0x00, 0x00, 0x00, 0x00, 0x00]

def instanceMainFile (_ : String) : Except IoError Bytes :=
  .ok instanceMainBytes

def instanceMain : CommandLine.Options where
  classFile := "Main.class"
  classPath := []
  method := CommandLine.defaultMethod
  descriptor := CommandLine.defaultDescriptor

def instanceMainMachine : Machine :=
  final ((CommandLine.defineFile instanceMainFile instanceMain.classFile).run
    (Bootstrap.machine .none {}))

-- There is no object then whose field could be set.
example : CommandLine.outcome (CommandLine.execute instanceMainFile 2 instanceMain) = {
    exit := 1
    stderr := "Error: Main.main failed\n\nCaused by:\n    cannot set field value on null\n" } := by
  decide +kernel

end Lifecycle

end ClassMachine
