import ClassMachine.Proofs.Lifecycle.Registry
import ClassMachine.Proofs.Machine.Reach

/-!
# The activations of a session

In a session methods are run by its operations and by other methods. Each of them is one of a class
that is registered when it begins, and classes are only added, so that all native methods are those
that have been there from the start. Every activation therefore spares what it cannot reach, and so
would any other that began at some point of the session.
-/

namespace ClassMachine

open Work

/-- The activations that come from the method called by an instruction. -/
def Instruction.activations
    (callActivations : ResolvedMethod → List Slot → Machine → List Activation) (pool : ConstantPool)
    (opcode : Opcode) (operand : Nat) (frame : Frame) (machine : Machine) : List Activation :=
  match opcode with
  | .invokevirtual | .invokespecial =>
    match (calling pool operand frame).run machine with
    | .ok (target, args, _) later => callActivations target args later
    | .error _ _ => []
  | _ => []

namespace Machine

def executeActivations (call : ResolvedMethod → List Slot → Run Unit)
    (callActivations : ResolvedMethod → List Slot → Machine → List Activation) (depth : Nat)
    (pool : ConstantPool) : Listing → Frame → Machine → List Activation
  | .exhausted, _, _ | .truncated _ _, _, _ => []
  | .instruction pc opcode operand next, frame, machine =>
    Instruction.activations callActivations pool opcode operand frame machine ++
      match (Instruction.run call depth pool pc opcode operand frame).run machine with
      | .ok (some frame) later =>
        executeActivations call callActivations depth pool next frame later
      | _ => []

/-- The activation of a method, and those of the methods called from it. -/
def methodActivations : (depth : Nat) → ResolvedMethod → List Slot → Machine → List Activation
  | 0, _, _, _ => []
  | depth + 1, target, args, machine =>
    ⟨depth + 1, target, args, machine⟩ ::
      match target.method.body with
      | .native _ => []
      | .bytecode =>
        match target.method.code? with
        | none => []
        | some code =>
          executeActivations (runMethod depth) (methodActivations depth) depth target.file.pool
            (Listing.ofBytes code.bytes) (Frame.enter code args) machine

end Machine

theorem ResolvedMethod.Registered.grows {target : ResolvedMethod} {table later : ClassTable}
    (h : target.Registered table) (hgrows : table.Grows later) : target.Registered later := by
  obtain ⟨name, c, hget, hfile, hmem⟩ := h
  obtain ⟨d, hd, hsame⟩ := hgrows.kept name c hget
  exact ⟨name, d, hd, hfile.trans hsame.symm, hsame ▸ hmem⟩

/-- The activation begins on a machine that the given one has come to, with a method that is
registered there. -/
structure Activation.Follows (machine : Machine) (activation : Activation) : Prop where
  populates : machine.Populates activation.entry
  registered : activation.target.Registered activation.entry.table

theorem Activation.Follows.of_populates {machine later : Machine} {activation : Activation}
    (h : activation.Follows later) (hlater : machine.Populates later) :
    activation.Follows machine :=
  ⟨Machine.Populates.trans _ _ _ hlater h.populates, h.registered⟩

namespace Machine

open Instruction

theorem registered_of_calling {pool : ConstantPool} {operand : Nat} {frame rest : Frame}
    {machine later : Machine} {target : ResolvedMethod} {args : List Slot}
    (hrun : (calling pool operand frame).run machine = .ok (target, args, rest) later) :
    target.Registered later.table := by
  simp only [calling, run_bind_eq_ok_iff, Run.run_link_eq_ok_iff] at hrun
  obtain ⟨member, first, -, found, second, ⟨table, hresolve, hsecond⟩, ⟨values, frame⟩, third, hpop,
    hreturn⟩ := hrun
  obtain ⟨hanswer, rfl⟩ := EStateM.Result.ok.inj hreturn
  obtain ⟨rfl, -⟩ := Prod.mk.inj hanswer
  have hpopped := (populates_stable.plain (.popMany _ _ _)).ok hpop
  subst hsecond
  exact (Linking.registered_of_resolve hresolve).grows hpopped.grows

theorem registered_of_finding {depth : Nat} {className name descriptor : Bytes}
    {machine later : Machine} {target : ResolvedMethod}
    (hrun : (finding depth className name descriptor).run machine = .ok target later) :
    target.Registered later.table := by
  simp only [finding, run_bind_eq_ok_iff, Run.run_link_eq_ok_iff] at hrun
  obtain ⟨table, ⟨_, _, -, _, _, -, hresolve⟩, rfl⟩ := hrun
  exact Linking.registered_of_resolve hresolve

variable {call : ResolvedMethod → List Slot → Run Unit}
  {callActivations : ResolvedMethod → List Slot → Machine → List Activation}

theorem follows_of_mem_executeActivations
    (hcall : ∀ target args, Within Populates (call target args))
    (hactivations : ∀ target args machine, target.Registered machine.table →
      ∀ activation ∈ callActivations target args machine, activation.Follows machine)
    (depth : Nat) (pool : ConstantPool) (listing : Listing) (frame : Frame) (machine : Machine) :
    ∀ activation ∈ executeActivations call callActivations depth pool listing frame machine,
      activation.Follows machine := by
  induction listing generalizing frame machine with
  | exhausted => exact fun _ hmem => nomatch hmem
  | truncated pc opcode => exact fun _ hmem => nomatch hmem
  | instruction pc opcode operand next ih =>
    intro activation hmem
    simp only [executeActivations, List.mem_append] at hmem
    rcases hmem with hmem | hmem
    · unfold Instruction.activations at hmem
      split at hmem
      case h_3 => contradiction
      all_goals
        split at hmem
        next target args rest later hrun =>
          have hcalled := (populates_stable.calling pool operand frame).ok hrun
          exact (hactivations target args later (registered_of_calling hrun) activation
            hmem).of_populates hcalled
        next => contradiction
    · split at hmem
      next rest later hrun =>
        have hstep := (populates_stable.run hcall depth pool pc opcode operand _).ok hrun
        exact (ih rest later activation hmem).of_populates hstep
      next => contradiction

theorem follows_of_mem_methodActivations (depth : Nat) (target : ResolvedMethod)
    (args : List Slot) (machine : Machine) (hregistered : target.Registered machine.table) :
    ∀ activation ∈ methodActivations depth target args machine, activation.Follows machine := by
  induction depth generalizing target args machine with
  | zero => exact fun _ hmem => nomatch hmem
  | succ depth ih =>
    intro activation hmem
    rcases List.mem_cons.1 hmem with rfl | hmem
    · exact ⟨populates_refl machine, hregistered⟩
    · split at hmem
      · contradiction
      · split at hmem
        · contradiction
        · exact follows_of_mem_executeActivations (populates_stable.runMethod depth)
            (fun target args machine h => ih target args machine h) depth _ _ _ machine activation
            hmem

end Machine

namespace Lifecycle

def Operation.activations (depth : Nat) (operation : Operation) (machine : Machine) :
    List Activation :=
  match operation with
  | invoke className name descriptor args =>
    match (Machine.finding depth className name descriptor).run machine with
    | .ok target later => Machine.methodActivations depth target args later
    | .error _ _ => []
  | _ => []

def sessionActivations : List (Operation × Nat) → Machine → List Activation
  | [], _ => []
  | (operation, depth) :: rest, machine =>
    operation.activations depth machine ++
      match (operation.work depth).run machine with
      | .error .tooDeep _ => []
      | result => sessionActivations rest (final result)

theorem Operation.follows_of_mem_activations {depth : Nat} {operation : Operation}
    {machine : Machine} {activation : Activation}
    (hmem : activation ∈ operation.activations depth machine) : activation.Follows machine := by
  unfold activations at hmem
  split at hmem
  next className name descriptor args =>
    split at hmem
    next target later hrun =>
      have hfound := (Machine.populates_stable.finding depth className name descriptor).ok hrun
      exact (Machine.follows_of_mem_methodActivations depth target args later
        (Machine.registered_of_finding hrun) activation hmem).of_populates hfound
    next => contradiction
  next => contradiction

theorem follows_of_mem_sessionActivations (operations : List (Operation × Nat))
    {machine : Machine} {activation : Activation}
    (hmem : activation ∈ sessionActivations operations machine) : activation.Follows machine := by
  induction operations generalizing machine with
  | nil => contradiction
  | cons operation rest ih =>
    obtain ⟨operation, depth⟩ := operation
    have hwork := operation.work_populates depth machine
    rcases List.mem_append.1 hmem with hmem | hmem
    · exact Operation.follows_of_mem_activations hmem
    · split at hmem
      next => contradiction
      next => exact (ih hmem).of_populates hwork

theorem natives_beginning (installed : Bool) (source : ClassSource) (console : Console)
    (address : ObjectId → Nat) :
    (beginning installed source console address).table.TakesNothing ∧
      (beginning installed source console address).table.BringsNothing := by
  unfold beginning
  split
  · exact ⟨Bootstrap.machine_takesNothing source console address,
      Bootstrap.machine_bringsNothing source console address⟩
  · constructor
    · exact fun _ _ h => nomatch h
    · exact fun _ _ h => nomatch h

/-- A method without native actions of its own, or of a registered class, is confined on any table
that has grown from that of the beginning. -/
theorem confined_of_grows {installed : Bool} {source : ClassSource} {console : Console}
    {address : ObjectId → Nat}
    {activation : Activation}
    (hgrows : (beginning installed source console address).table.Grows activation.entry.table)
    (htarget : activation.target.method.body = .bytecode ∨
      activation.target.Registered activation.entry.table) : activation.Confined := by
  obtain ⟨htakes, hbrings⟩ := natives_beginning installed source console address
  have htakes := hgrows.takesNothing htakes
  have hbrings := hgrows.bringsNothing hbrings
  rcases htarget with hbody | hregistered
  · refine activation.confined_of_natives htakes hbrings ?_ ?_
    · intro actions hactions
      exact nomatch hbody.symm.trans hactions
    · intro actions hactions
      exact nomatch hbody.symm.trans hactions
  · exact activation.confined_of_natives htakes hbrings (hregistered.of_each htakes)
      (hregistered.of_each hbrings)

/-- Every activation of a session spares what it cannot reach; and in every state of a session so
does any activation that begins there, with code of any class or a method of a registered one, and
with whatever arguments. -/
theorem session_confined (installed : Bool) (source : ClassSource) (console : Console)
    (address : ObjectId → Nat)
    (operations : List (Operation × Nat)) :
    let start := beginning installed source console address
    (∀ activation ∈ sessionActivations operations start, activation.Confined) ∧
      ∀ machine ∈ sessionMachines operations start, ∀ depth target args,
        target.method.body = .bytecode ∨ target.Registered machine.table →
          Activation.Confined ⟨depth, target, args, machine⟩ := by
  intro start
  constructor
  · intro activation hmem
    have hfollows := follows_of_mem_sessionActivations operations hmem
    exact confined_of_grows hfollows.populates.grows (.inr hfollows.registered)
  · intro machine hmem depth target args htarget
    exact confined_of_grows (populates_of_mem_sessionMachines operations start machine hmem).grows
      htarget

-- A line is printed: one activation, of the native method.
example : (sessionActivations
    [(.invoke Bootstrap.printStreamName (Utf8.encode "println") (Utf8.encode "()V") [.null], 1)]
    (beginning true .none {})).length = 1 := by
  decide +kernel

end Lifecycle

end ClassMachine
