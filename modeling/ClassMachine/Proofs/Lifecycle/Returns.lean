import ClassMachine.Proofs.Lifecycle.Activations
import ClassMachine.Proofs.Machine.Ranks

/-!
# Runs that return

An activation dispatches every byte of its code at most once, so a run can go on forever only
through calls that are nested without end. If there is a rank of methods that goes down with every
call, every invocation comes to an end, with a result or a fault, and so do all activations that
come from it.
-/

namespace ClassMachine

open Work ClassTable

def Activation.result (activation : Activation) : EStateM.Result Stop Machine Unit :=
  (Machine.runMethod activation.depth activation.target activation.args).run activation.entry

namespace Machine

open Instruction

variable {call : ResolvedMethod → List Slot → Run Unit}
  {callActivations : ResolvedMethod → List Slot → Machine → List Activation}

/-- Nothing catches that a called method gives up. -/
theorem not_gaveUp_of_mem_executeActivations
    (hactivations : ∀ target args machine, ¬ GaveUp ((call target args).run machine) →
      ∀ activation ∈ callActivations target args machine, ¬ GaveUp activation.result)
    {depth : Nat} {pool : ConstantPool} {listing : Listing} {frame : Frame} {machine : Machine}
    (h : ¬ GaveUp ((execute call depth pool listing frame).run machine)) :
    ∀ activation ∈ executeActivations call callActivations depth pool listing frame machine,
      ¬ GaveUp activation.result := by
  induction listing generalizing frame machine with
  | exhausted => exact List.forall_mem_nil _
  | truncated pc opcode => exact List.forall_mem_nil _
  | instruction pc opcode operand next ih =>
    rw [execute, gaveUp_bind_iff, not_or] at h
    obtain ⟨hrun, hnext⟩ := h
    intro activation hmem
    simp only [executeActivations, List.mem_append] at hmem
    rcases hmem with hmem | hmem
    · unfold Instruction.activations at hmem
      split at hmem
      case h_3 => contradiction
      all_goals
        split at hmem
        next target args rest later hcalling =>
          exact hactivations target args later
            (fun hup => hrun (gaveUp_run_of_call rfl hcalling hup)) activation hmem
        next => contradiction
    · split at hmem
      next rest later hstep =>
        exact ih (fun hup => hnext ⟨some rest, later, hstep, hup⟩) activation hmem
      next => contradiction

theorem not_gaveUp_of_mem_methodActivations {depth : Nat} {target : ResolvedMethod}
    {args : List Slot} {machine : Machine}
    (h : ¬ GaveUp ((runMethod depth target args).run machine)) :
    ∀ activation ∈ methodActivations depth target args machine, ¬ GaveUp activation.result := by
  induction depth generalizing target args machine with
  | zero => exact List.forall_mem_nil _
  | succ depth ih =>
    refine List.forall_mem_cons.2 ⟨h, ?_⟩
    unfold runMethod at h
    split
    · exact List.forall_mem_nil _
    next hbody =>
      split
      · exact List.forall_mem_nil _
      next code hcode =>
        simp only [hbody, hcode] at h
        exact not_gaveUp_of_mem_executeActivations (fun _ _ _ => ih) h

end Machine

namespace Lifecycle

theorem Operation.not_gaveUp_of_mem_activations {operation : Operation} {depth : Nat}
    {machine : Machine} (h : ¬ GaveUp ((operation.work depth).run machine)) :
    ∀ activation ∈ operation.activations depth machine, ¬ GaveUp activation.result := by
  unfold activations
  split
  next className name descriptor args =>
    rw [work, Machine.invoke_eq_finding, gaveUp_bind_iff, not_or] at h
    split
    next target later hfinding =>
      exact Machine.not_gaveUp_of_mem_methodActivations fun hup =>
        h.2 ⟨target, later, hfinding, hup⟩
    next => exact List.forall_mem_nil _
  next => exact List.forall_mem_nil _

/-- The instructions that an activation dispatches stand one behind the other, so that it comes to
each of them once. If the class files are in memory and there is a rank of methods that goes down
with every call, an invocation comes to one and the same end with all depths from some depth on,
whatever its arguments and the rest of the machine, and so do the activations that come from it. -/
theorem invocation_returns :
    (∀ code call depth pool frame machine,
      let dispatched := Machine.dispatched call depth pool (Listing.ofBytes code) frame machine
      Placed.Consecutive code 0 dispatched ∧ dispatched.length ≤ code.length ∧
        dispatched.Pairwise fun p q => p.after ≤ q.pc) ∧
      ∀ (memory : MemoryClasses) (table : ClassTable) (rank : ResolvedMethod → Nat),
        table.source = memory.source → table.Ranks rank → ∀ className name descriptor,
        ∃ bound, ∀ machine args, machine.table = table →
          ∃ result, ¬ GaveUp result ∧ ∀ depth, bound < depth →
            (Machine.invoke depth className name descriptor args).run machine = result ∧
            ∀ activation ∈
                (Operation.invoke className name descriptor args).activations depth machine,
              ¬ GaveUp activation.result := by
  refine ⟨fun code call depth pool frame machine => ?_, ?_⟩
  · have hconsecutive : Placed.Consecutive code 0
        (Machine.dispatched call depth pool (Listing.ofBytes code) frame machine) :=
      Machine.consecutive_dispatched code frame machine
    exact ⟨hconsecutive, hconsecutive.length_le, hconsecutive.pairwise⟩
  · intro memory table rank hsource hrank className name descriptor
    have hpending := pending_union hsource
    -- What is found depends on the table alone, so that its rank bounds every invocation.
    obtain ⟨top, htop⟩ : ∃ top, ∀ target after,
        (Linking.resolve className name descriptor).run table = .ok target after →
          rank target ≤ top := by
      cases hresolve : (Linking.resolve className name descriptor).run table with
      | error stop after => exact ⟨0, fun _ _ h => nomatch h⟩
      | ok found after =>
        refine ⟨rank found, fun target _ h => ?_⟩
        obtain ⟨rfl, -⟩ := EStateM.Result.ok.inj h
        exact Nat.le_refl _
    refine ⟨(table.verified ∪ memory.names).card + top + 1, fun machine args hmachine => ?_⟩
    have hadvances : table.Advances machine.table := hmachine ▸ Advances.refl table
    have hend (depth : Nat) (hdepth : (table.verified ∪ memory.names).card + top + 1 < depth) :
        ¬ GaveUp ((Machine.invoke depth className name descriptor args).run machine) := by
      refine Machine.not_gaveUp_invoke hpending hrank (by omega) (fun target after hresolve => ?_)
        args hadvances
      have hrank := htop target after hresolve
      omega
    refine ⟨_, hend _ (Nat.lt_succ_self _), fun depth hdepth => ⟨?_, ?_⟩⟩
    · obtain ⟨more, rfl⟩ := Nat.exists_eq_add_of_le hdepth
      exact Machine.deepens_invocation _ more className name descriptor args machine
        (hend _ (Nat.lt_succ_self _))
    · exact Operation.not_gaveUp_of_mem_activations (hend depth hdepth)

/-- The class file of a class A with a static method f, which calls a static method g. -/
def relayBytes : Bytes :=
  [0xca, 0xfe, 0xba, 0xbe, 0x00, 0x00, 0x00, 0x34, 0x00, 0x09, 0x01, 0x00, 0x01, 0x41, 0x07, 0x00,
    0x01, 0x01, 0x00, 0x01, 0x66, 0x01, 0x00, 0x03, 0x28, 0x29, 0x56, 0x01, 0x00, 0x04, 0x43, 0x6f,
    0x64, 0x65, 0x01, 0x00, 0x01, 0x67, 0x0c, 0x00, 0x06, 0x00, 0x04, 0x0a, 0x00, 0x02, 0x00, 0x07,
    0x00, 0x21, 0x00, 0x02, 0x00, 0x00, 0x00, 0x00, 0x00, 0x00, 0x00, 0x02, 0x00, 0x09, 0x00, 0x03,
    0x00, 0x04, 0x00, 0x01, 0x00, 0x05, 0x00, 0x00, 0x00, 0x10, 0x00, 0x01, 0x00, 0x01, 0x00, 0x00,
    0x00, 0x04, 0xb7, 0x00, 0x08, 0xb1, 0x00, 0x00, 0x00, 0x00, 0x00, 0x09, 0x00, 0x06, 0x00, 0x04,
    0x00, 0x01, 0x00, 0x05, 0x00, 0x00, 0x00, 0x0d, 0x00, 0x01, 0x00, 0x01, 0x00, 0x00, 0x00, 0x01,
    0xb1, 0x00, 0x00, 0x00, 0x00, 0x00, 0x00]

def relay : MemoryClasses := ⟨[("A", relayBytes)]⟩

def relayFile : ClassFile :=
  (ClassFile.parseChecked relayBytes).toOption.getD default

def relayTable : ClassTable where
  source := relay.source

def codeLength (target : ResolvedMethod) : Nat :=
  match target.method.code? with
  | some code => code.bytes.length
  | none => 0

theorem eq_relayFile_of_find {name : Bytes} {file : ClassFile}
    (h : (relayTable.find name).map (·.file) = .ok file) : file = relayFile := by
  cases hfind : relayTable.find name with
  | error fault =>
    rw [hfind] at h
    contradiction
  | ok c =>
    rw [hfind] at h
    obtain rfl := Except.ok.inj h
    rcases cases_of_find hfind with hget | ⟨-, hfetch, -⟩
    · contradiction
    · obtain ⟨content, hread, hfile, -⟩ := ClassSource.read_of_fetch hfetch
      have hmem := mem_of_lookup (Except.ok.inj hread : relay.files.lookup _ = some content)
      obtain ⟨-, rfl⟩ := Prod.mk.inj (List.mem_singleton.1 hmem)
      rw [relayFile, hfile]
      rfl

theorem ranks_relay : relayTable.Ranks codeLength := by
  rintro ⟨file, method⟩ ⟨name, hfind, hmem⟩
  obtain rfl := eq_relayFile_of_find hfind
  have hall : ∀ method ∈ relayFile.methods,
      ∀ callee ∈ relayTable.callees ⟨relayFile, method⟩,
        codeLength callee < codeLength ⟨relayFile, method⟩ := by
    decide +kernel
  exact hall method hmem

/-- The method f calls g, which calls none. -/
theorem invocation_returns_relay :
    relayTable.source = relay.source ∧ relayTable.Ranks codeLength ∧
      (relayFile.methods.map fun method => (relayTable.callees ⟨relayFile, method⟩).length) =
        [1, 0] ∧
      ∃ bound, ∀ machine args, machine.table = relayTable → ∀ depth, bound < depth →
        ¬ GaveUp ((Machine.invoke depth [65] [102] [40, 41, 86] args).run machine) := by
  have hsource : relayTable.source = relay.source := rfl
  obtain ⟨bound, hbound⟩ :=
    invocation_returns.2 relay relayTable codeLength hsource ranks_relay [65] [102] [40, 41, 86]
  refine ⟨hsource, ranks_relay, by decide +kernel, bound, ?_⟩
  intro machine args hmachine depth hdepth
  obtain ⟨result, hend, hruns⟩ := hbound machine args hmachine
  obtain ⟨hrun, -⟩ := hruns depth hdepth
  rwa [hrun]

end Lifecycle

end ClassMachine
