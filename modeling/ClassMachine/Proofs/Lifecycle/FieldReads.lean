import ClassMachine.Proofs.Lifecycle.Sessions
import ClassMachine.Proofs.Machine.Accesses

/-!
# What is read in a session

Objects live on from one operation of a session to the next, and so do their fields. A field that
has been stored reads as it was stored last. One that has not been stored is there only if the class
of the object declares it: a new object gets no field for what is declared above its class, whether
or not the classes above have been initialized.
-/

namespace ClassMachine.Lifecycle

open Work

def Operation.accesses (depth : Nat) (operation : Operation) : Machine → List Access :=
  match operation with
  | invoke className name descriptor args =>
    Run.following (Machine.finding depth className name descriptor) fun target =>
      Machine.methodAccesses depth target args
  | _ => fun _ => []

theorem Operation.work_records (depth : Nat) (operation : Operation) :
    (operation.work depth).Records (operation.accesses depth) := by
  cases operation with
  | invoke className name descriptor args =>
    rw [work, Machine.invoke_eq_finding]
    exact .after (Machine.SameHeap.link _) fun target => Machine.runMethod_records depth target args
  | _ => exact .silent (Machine.SameHeap.link _)

def sessionAccesses : List (Operation × Nat) → Machine → List Access
  | [], _ => []
  | (operation, depth) :: rest, machine =>
    operation.accesses depth machine ++
      match (operation.work depth).run machine with
      | .error .tooDeep _ => []
      | result => sessionAccesses rest (final result)

theorem follows_session (operations : List (Operation × Nat)) (machine : Machine) :
    Heap.Follows machine.heap (sessionAccesses operations machine)
      (session operations machine).heap := by
  induction operations generalizing machine with
  | nil => exact .nil machine.heap
  | cons operation rest ih =>
    obtain ⟨operation, depth⟩ := operation
    have hwork := operation.work_records depth machine
    simp only [sessionAccesses, session]
    cases hrun : (operation.work depth).run machine with
    | ok done later =>
      rw [hrun] at hwork
      exact hwork.append (ih later)
    | error stop later =>
      rw [hrun] at hwork
      cases stop with
      | tooDeep => rwa [List.append_nil]
      | fault fault => exact hwork.append (ih later)

/-- The accesses of a session make its heap. Once an object has been made, a field of it reads as
what was stored last under this name; until then it reads as what the last field of the name in the
class of the object starts with, and exactly if this class declares no field of the name, whatever
those above it declare, the read fails. -/
theorem session_reads (installed : Bool) (source : ClassSource) (console : Console)
    (address : ObjectId → Nat)
    (operations : List (Operation × Nat)) :
    let start := beginning installed source console address
    let accesses := sessionAccesses operations start
    Heap.Follows start.heap accesses (session operations start).heap ∧
      ∀ before id file middle name answer after,
        accesses = before ++ .created id file :: (middle ++ .read id name answer :: after) →
          (∀ value, lastStored id name middle = some value → answer = .ok value) ∧
          (lastStored id name middle = none → name ∈ file.fieldNames file.instanceFields →
            ∃ value, file.lastValue file.instanceFields name = some value ∧ answer = .ok value) ∧
          (lastStored id name middle = none → name ∉ file.fieldNames file.instanceFields →
            answer = .error (.fault (.resolution
              (.noSuchField file.displayName (Utf8.lenient name))))) := by
  intro start accesses
  have hfollows := follows_session operations start
  refine ⟨hfollows, fun before id file middle name answer after haccesses => ?_⟩
  rw [show sessionAccesses operations start = _ from haccesses] at hfollows
  obtain ⟨className, slots, hname, hslots, rfl⟩ := hfollows.read_eq
  have hdisplay : file.displayName = Utf8.lenient className := by
    rw [ClassFile.displayName, hname]
  have hdeclared := ClassFile.isSome_lastValue_iff hslots name
  refine ⟨fun value hstored => ?_, fun hstored hmem => ?_, fun hstored hmem => ?_⟩
  · rw [hstored]
    rfl
  · obtain ⟨value, hvalue⟩ := Option.isSome_iff_exists.1 (hdeclared.2 hmem)
    refine ⟨value, hvalue, ?_⟩
    rw [hstored, hvalue]
    rfl
  · have hnone : file.lastValue file.instanceFields name = none :=
      Option.not_isSome_iff_eq_none.1 fun h => hmem (hdeclared.1 h)
    rw [hstored, hnone, hdisplay]
    rfl

/-- The class A with a field f, which starts with 7. Its method m makes an object and reads the
field. -/
def ancestorBytes : Bytes :=
  [0xca, 0xfe, 0xba, 0xbe, 0x00, 0x00, 0x00, 0x34, 0x00, 0x0c, 0x01, 0x00, 0x01, 0x41, 0x07, 0x00,
    0x01, 0x03, 0x00, 0x00, 0x00, 0x07, 0x01, 0x00, 0x0d, 0x43, 0x6f, 0x6e, 0x73, 0x74, 0x61, 0x6e,
    0x74, 0x56, 0x61, 0x6c, 0x75, 0x65, 0x01, 0x00, 0x01, 0x66, 0x01, 0x00, 0x01, 0x49, 0x0c, 0x00,
    0x05, 0x00, 0x06, 0x09, 0x00, 0x02, 0x00, 0x07, 0x01, 0x00, 0x04, 0x43, 0x6f, 0x64, 0x65, 0x01,
    0x00, 0x01, 0x6d, 0x01, 0x00, 0x05, 0x28, 0x29, 0x4c, 0x41, 0x3b, 0x00, 0x21, 0x00, 0x02, 0x00,
    0x00, 0x00, 0x00, 0x00, 0x01, 0x00, 0x01, 0x00, 0x05, 0x00, 0x06, 0x00, 0x01, 0x00, 0x04, 0x00,
    0x00, 0x00, 0x02, 0x00, 0x03, 0x00, 0x01, 0x00, 0x09, 0x00, 0x0a, 0x00, 0x0b, 0x00, 0x01, 0x00,
    0x09, 0x00, 0x00, 0x00, 0x13, 0x00, 0x02, 0x00, 0x00, 0x00, 0x00, 0x00, 0x07, 0xbb, 0x00, 0x02,
    0xb4, 0x00, 0x08, 0xb0, 0x00, 0x00, 0x00, 0x00, 0x00, 0x00]

/-- The class B below A, without a field. Its method m makes an object and reads the field f of it;
the method k stores 9 there before it does so. -/
def heirBytes : Bytes :=
  [0xca, 0xfe, 0xba, 0xbe, 0x00, 0x00, 0x00, 0x34, 0x00, 0x0d, 0x01, 0x00, 0x01, 0x42, 0x07, 0x00,
    0x01, 0x01, 0x00, 0x01, 0x41, 0x07, 0x00, 0x03, 0x01, 0x00, 0x01, 0x66, 0x01, 0x00, 0x01, 0x49,
    0x0c, 0x00, 0x05, 0x00, 0x06, 0x09, 0x00, 0x02, 0x00, 0x07, 0x01, 0x00, 0x04, 0x43, 0x6f, 0x64,
    0x65, 0x01, 0x00, 0x01, 0x6d, 0x01, 0x00, 0x05, 0x28, 0x29, 0x4c, 0x41, 0x3b, 0x01, 0x00, 0x01,
    0x6b, 0x00, 0x21, 0x00, 0x02, 0x00, 0x04, 0x00, 0x00, 0x00, 0x00, 0x00, 0x02, 0x00, 0x09, 0x00,
    0x0a, 0x00, 0x0b, 0x00, 0x01, 0x00, 0x09, 0x00, 0x00, 0x00, 0x13, 0x00, 0x02, 0x00, 0x00, 0x00,
    0x00, 0x00, 0x07, 0xbb, 0x00, 0x02, 0xb4, 0x00, 0x08, 0xb0, 0x00, 0x00, 0x00, 0x00, 0x00, 0x09,
    0x00, 0x0c, 0x00, 0x0b, 0x00, 0x01, 0x00, 0x09, 0x00, 0x00, 0x00, 0x19, 0x00, 0x03, 0x00, 0x00,
    0x00, 0x00, 0x00, 0x0d, 0xbb, 0x00, 0x02, 0x59, 0x10, 0x09, 0xb5, 0x00, 0x08, 0xb4, 0x00, 0x08,
    0xb0, 0x00, 0x00, 0x00, 0x00, 0x00, 0x00]

def ancestorFile : ClassFile :=
  match ClassFile.parseChecked ancestorBytes with
  | .ok file => file
  | .error _ => default

def heirFile : ClassFile :=
  match ClassFile.parseChecked heirBytes with
  | .ok file => file
  | .error _ => default

def heritage : List (Operation × Nat) :=
  [(.define ancestorBytes, 1), (.define heirBytes, 1),
    (.invoke [65] [109] (Utf8.encode "()LA;") [], 3),
    (.invoke [66] [107] (Utf8.encode "()LA;") [], 3),
    (.invoke [66] [109] (Utf8.encode "()LA;") [], 3)]

theorem sessionAccesses_heritage : sessionAccesses heritage (beginning false .none {}) =
    [.created 0 ancestorFile, .read 0 [102] (.ok (.int 7)),
      .created 1 heirFile, .stored 1 [102] (.int 9), .read 1 [102] (.ok (.int 9)),
      .created 2 heirFile,
      .read 2 [102] (.error (.fault (.resolution (.noSuchField "B" "f"))))] := by
  decide +kernel

theorem session_reads_heritage :
    ∃ before id middle answer after, sessionAccesses heritage (beginning false .none {}) =
        before ++ .created id heirFile :: (middle ++ .read id [102] answer :: after) ∧
      lastStored id [102] middle = some (.int 9) ∧ answer = .ok (.int 9) := by
  have hstored : lastStored 1 [102] [.stored 1 [102] (.int 9)] = some (.int 9) := by decide
  have haccesses : sessionAccesses heritage (beginning false .none {}) =
      [.created 0 ancestorFile, .read 0 [102] (.ok (.int 7))] ++ .created 1 heirFile ::
        ([.stored 1 [102] (.int 9)] ++ .read 1 [102] (.ok (.int 9)) :: _) :=
    sessionAccesses_heritage
  have hread := (session_reads false .none {} Heap.spaced heritage).2 _ _ _ _ _ _ _ haccesses
  exact ⟨_, _, _, _, _, haccesses, hstored, hread.1 _ hstored⟩

/-- Both classes are done, and the one above declares f, but in the object that m makes of the class
below, in which nothing has been stored, there is no field f. -/
theorem exists_lost_inheritance :
    let last := session heritage (beginning false .none {})
    ClassFile.parseChecked ancestorBytes = .ok ancestorFile ∧
      ClassFile.parseChecked heirBytes = .ok heirFile ∧
      (last.table.get? [65]).map (fun c => (c.file, c.state)) = some (ancestorFile, .done) ∧
      (last.table.get? [66]).map (fun c => (c.file, c.state)) = some (heirFile, .done) ∧
      heirFile.superName = .ok (some [65]) ∧
      (∃ field ∈ ancestorFile.instanceFields, ancestorFile.pool.utf8 field.name = .ok [102] ∧
        ancestorFile.initialValue field = .ok (.int 7)) ∧
      ∃ before, sessionAccesses heritage (beginning false .none {}) = before ++
        [.created 2 heirFile,
          .read 2 [102] (.error (.fault (.resolution (.noSuchField "B" "f"))))] := by
  refine ⟨by decide +kernel, by decide +kernel, by decide +kernel, by decide +kernel,
    by decide +kernel, ?_, [_, _, _, _, _], sessionAccesses_heritage⟩
  have hfield : ∀ field ∈ ancestorFile.instanceFields,
      ancestorFile.pool.utf8 field.name = .ok [102] ∧
        ancestorFile.initialValue field = .ok (.int 7) := by decide +kernel
  have hany : ancestorFile.instanceFields ≠ [] := by decide +kernel
  obtain ⟨field, hmem⟩ := List.exists_mem_of_ne_nil _ hany
  exact ⟨field, hmem, hfield field hmem⟩

end ClassMachine.Lifecycle
