import ClassMachine.Proofs.ClassFile.Exactness
import ClassMachine.Proofs.Native.Installed
import ClassMachine.Proofs.Pool.References

/-!
# Methods have the signatures that their descriptors describe

This holds of a class that is read, since reading refuses any other. A draft of a native class begins
with its name and takes methods and static fields in any number and order; a method whose descriptor
is none is refused, but what it has added to the constants stays. Constants are only added, so the
descriptor of a method stays where it is.
-/

namespace ClassMachine

open Work

def Method.SignedBy (pool : ConstantPool) (method : Method) : Prop :=
  ∃ text, pool.utf8 method.descriptor = .ok text ∧
    MethodSignature.parse text = .ok method.signature

def ClassFile.Signed (file : ClassFile) : Prop :=
  ∀ method ∈ file.methods, method.SignedBy file.pool

theorem ClassFile.signed_of_parse {content : Bytes} {file : ClassFile}
    (h : parse content = .ok file) : file.Signed := by
  intro method hmethod
  obtain ⟨bytes, ⟨text, htext, hsignature⟩, -⟩ := layout_of_mem_methods h hmethod
  exact ⟨text, ConstantPool.utf8_eq_ok_iff.2 htext, hsignature⟩

namespace ConstantPool

def Grows (pool later : ConstantPool) : Prop :=
  ∀ (position : Nat) (constant : Constant), pool.constants[position]? = some constant →
    later.constants[position]? = some constant

variable {pool later : ConstantPool}

theorem Grows.utf8 (h : pool.Grows later) {position : Nat} {text : Bytes}
    (htext : pool.utf8 position = .ok text) : later.utf8 position = .ok text :=
  utf8_eq_ok_iff.2 (h _ _ (utf8_eq_ok_iff.1 htext))

theorem grows_push (constant : Constant) : pool.Grows (pool.push constant) := by
  intro position found hfound
  obtain ⟨hlt, -⟩ := Array.getElem?_eq_some_iff.1 hfound
  unfold push
  split
  · rw [Array.getElem?_push_lt (by rw [Array.size_push]; omega), ← hfound,
      Array.getElem_push_lt hlt, Array.getElem?_eq_getElem hlt]
  · rw [Array.getElem?_push_lt hlt, ← hfound, Array.getElem?_eq_getElem hlt]

theorem utf8_push (pool : ConstantPool) (text : Bytes) :
    (pool.push (.utf8 text)).utf8 pool.size = .ok text :=
  utf8_eq_ok_iff.2 Array.getElem?_push_size

end ConstantPool

theorem Method.SignedBy.grows {pool later : ConstantPool} {method : Method}
    (h : method.SignedBy pool) (hgrows : pool.Grows later) : method.SignedBy later := by
  obtain ⟨text, htext, hsignature⟩ := h
  exact ⟨text, hgrows.utf8 htext, hsignature⟩

/-- Each text that is noted is where it is said to be, and the methods have their signatures. -/
structure NativeDraft.Sound (draft : NativeDraft) : Prop where
  texts : ∀ content position, draft.texts.get? content = some position →
    draft.pool.utf8 position = .ok content
  signed : ∀ method ∈ draft.methods, method.SignedBy draft.pool

namespace Drafting

variable {draft : NativeDraft}

theorem sound_push (h : draft.Sound) (constant : Constant) :
    ({ draft with pool := draft.pool.push constant } : NativeDraft).Sound where
  texts _ _ hget := (ConstantPool.grows_push constant).utf8 (h.texts _ _ hget)
  signed method hmethod := (h.signed method hmethod).grows (ConstantPool.grows_push constant)

theorem run_text (h : draft.Sound) (content : Bytes) :
    ∃ position later, (text content).run draft = .ok position later ∧ later.Sound ∧
      later.pool.utf8 position = .ok content ∧ draft.pool.Grows later.pool := by
  simp only [text, EStateM.run_bind, EStateM.run_get]
  cases hget : draft.texts.get? content with
  | some position =>
    exact ⟨position, draft, rfl, h, h.texts _ _ hget, fun _ _ hconstant => hconstant⟩
  | none =>
    have hpushed := draft.pool.utf8_push content
    refine ⟨_, _, rfl, ⟨fun other position hother => ?_, ?_⟩, hpushed, ConstantPool.grows_push _⟩
    · simp only [NameMap.get?_insert] at hother
      split at hother
      next hsame =>
        obtain rfl := Option.some.inj hother
        rw [hsame]
        exact hpushed
      next => exact (sound_push h (.utf8 content)).texts _ _ hother
    · exact (sound_push h (.utf8 content)).signed

abbrev KeepsSound {α : Type} (work : Drafting α) : Prop :=
  Stays NativeDraft.Sound work fun _ => True

theorem keepsSound_text (content : Bytes) : KeepsSound (text content) := by
  intro draft hdraft
  obtain ⟨position, later, hrun, hlater, -⟩ := run_text hdraft content
  rw [hrun]
  exact ⟨hlater, fun _ _ _ => trivial⟩

theorem keepsSound_classEntry (name : Bytes) : KeepsSound (classEntry name) :=
  (keepsSound_text name).bind fun _ _ _ hdraft => ⟨sound_push hdraft _, fun _ _ _ => trivial⟩

theorem keepsSound_root (name : Bytes) : KeepsSound (root name) :=
  (keepsSound_classEntry name).bind fun _ _ =>
    stays_modify fun _ hdraft => ⟨hdraft.texts, hdraft.signed⟩

theorem keepsSound_derived (name : Bytes) : KeepsSound (derived name) :=
  (keepsSound_root name).bind fun _ _ => (keepsSound_classEntry objectName).bind fun _ _ =>
    stays_modify fun _ hdraft => ⟨hdraft.texts, hdraft.signed⟩

theorem keepsSound_staticField (name descriptor : Bytes) (value : Slot) :
    KeepsSound (staticField name descriptor value) :=
  (keepsSound_text name).bind fun _ _ => (keepsSound_text descriptor).bind fun _ _ =>
    stays_modify fun _ hdraft => ⟨hdraft.texts, hdraft.signed⟩

theorem keepsSound_method (name descriptor : Bytes) (actions : List NativeAction) :
    KeepsSound (method name descriptor actions) := by
  refine (keepsSound_text name).bind fun namePosition _ draft hdraft => ?_
  obtain ⟨position, later, hrun, hlater, htext, -⟩ := run_text hdraft descriptor
  rw [EStateM.run_bind, hrun]
  cases hparse : MethodSignature.parse descriptor with
  | error e =>
    -- The two texts have been added all the same.
    exact stays_throw e later hlater
  | ok signature =>
    refine ⟨⟨hlater.texts, fun method hmethod => ?_⟩, fun _ _ _ => trivial⟩
    rcases List.mem_append.1 hmethod with hmethod | hmethod
    · exact hlater.signed method hmethod
    · obtain rfl := List.mem_singleton.1 hmethod
      exact ⟨descriptor, htext, hparse⟩

/-- What a draft is told to take. -/
inductive Call where
  | method (name descriptor : Bytes) (actions : List NativeAction)
  | staticField (name descriptor : Bytes) (value : Slot)

def Call.work : Call → Drafting Unit
  | method name descriptor actions => Drafting.method name descriptor actions
  | staticField name descriptor value => Drafting.staticField name descriptor value

/-- Begins a class and takes one call after another, going on after those that are refused. -/
def assemble (start : Drafting Unit) (calls : List Call) : Drafting Unit := do
  start
  calls.forM fun call => discard (attempt call.work)

theorem keepsSound_call (call : Call) : KeepsSound call.work := by
  cases call with
  | method name descriptor actions => exact keepsSound_method name descriptor actions
  | staticField name descriptor value => exact keepsSound_staticField name descriptor value

theorem keepsSound_assemble {start : Drafting Unit} (hstart : KeepsSound start)
    (calls : List Call) : KeepsSound (assemble start calls) := by
  refine hstart.bind fun _ _ => ?_
  induction calls with
  | nil => exact stays_pure trivial
  | cons call calls ih =>
    exact (keepsSound_call call).attempt.discard.bind fun _ _ => ih

theorem sound_empty : ({} : NativeDraft).Sound where
  texts _ _ hget := nomatch hget
  signed _ hmethod := nomatch hmethod

theorem signed_of_build {work : Drafting Unit} {c : LoadedClass} (hwork : KeepsSound work)
    (hbuild : work.build = .ok c) : c.file.Signed := by
  have hsound := (hwork {} sound_empty).1
  unfold build at hbuild
  split at hbuild
  next => contradiction
  next draft hrun =>
    rw [hrun] at hsound
    obtain rfl := Except.ok.inj hbuild
    exact hsound.signed

end Drafting

namespace ClassFile

/-- Classes are read from files, or put together by hand. -/
inductive Built (file : ClassFile) : Prop where
  | read {content : Bytes} (h : parse content = .ok file)
  | root {name : Bytes} {calls : List Drafting.Call} {c : LoadedClass}
      (h : (Drafting.assemble (Drafting.root name) calls).build = .ok c) (hfile : c.file = file)
  | derived {name : Bytes} {calls : List Drafting.Call} {c : LoadedClass}
      (h : (Drafting.assemble (Drafting.derived name) calls).build = .ok c) (hfile : c.file = file)

theorem Built.signed {file : ClassFile} (h : file.Built) : file.Signed := by
  cases h with
  | read h => exact signed_of_parse h
  | root h hfile =>
    exact hfile ▸ Drafting.signed_of_build
      (Drafting.keepsSound_assemble (Drafting.keepsSound_root _) _) h
  | derived h hfile =>
    exact hfile ▸ Drafting.signed_of_build
      (Drafting.keepsSound_assemble (Drafting.keepsSound_derived _) _) h

end ClassFile

def ClassTable.Built (table : ClassTable) : Prop :=
  table.Each fun _ file => file.Built

theorem ClassTable.Grows.built {table later : ClassTable} (h : table.Grows later)
    (hbuilt : table.Built) : later.Built :=
  h.each (fun _ _ _ hparse _ => .read ((ClassFile.parseChecked_eq_ok_iff _ _).1 hparse).1) hbuilt

namespace Bootstrap

open Drafting

theorem objectClass_build :
    objectClass.build =
      (assemble (root objectName) [.method (Utf8.encode "<init>") (Utf8.encode "()V") []]).build := by
  decide +kernel

theorem stringClass_build :
    stringClass.build =
      (assemble (derived stringName)
        [.method (Utf8.encode "length") (Utf8.encode "()I") [.pushTextLength]]).build := by
  decide +kernel

theorem printStreamClass_build :
    printStreamClass.build =
      (assemble (derived printStreamName) (printed.map fun descriptor =>
        .method (Utf8.encode "println") (Utf8.encode descriptor) [.printLine])).build := by
  decide +kernel

theorem systemClass_build :
    (systemClass (.of (.object 0))).build =
      (assemble (derived systemName) [.staticField (Utf8.encode "out")
        (Utf8.encode "Ljava/io/PrintStream;") (.of (.object 0))]).build := by
  decide +kernel

/-- The classes that are there from the start are put together by hand. -/
theorem machine_built (source : ClassSource) (console : Console)
    (address : ObjectId → Nat) :
    (machine source console address).table.Built := by
  intro name c hget
  obtain ⟨work, hwork, hbuild⟩ := build_of_get? hget
  simp only [List.mem_cons, List.not_mem_nil, or_false] at hwork
  rcases hwork with rfl | rfl | rfl | rfl
  · exact .root (objectClass_build ▸ hbuild) rfl
  · exact .derived (stringClass_build ▸ hbuild) rfl
  · exact .derived (printStreamClass_build ▸ hbuild) rfl
  · exact .derived (systemClass_build ▸ hbuild) rfl

end Bootstrap

end ClassMachine
