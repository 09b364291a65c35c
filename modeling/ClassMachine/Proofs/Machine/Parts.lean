import ClassMachine.Machine.Interpreter
import ClassMachine.Proofs.Course

/-!
# Work that leaves classes alone

Most instructions only move values between the stack, the local variables and the fields of objects,
and the others do so before and after they have looked for a class. All of this work is put together
from a few simplest parts, which neither look at the class table nor make an object. What holds of
the parts and is kept in sequence therefore holds of the whole.
-/

namespace ClassMachine

open Work

/-- Work that changes nothing, and looks at nothing but the objects. -/
inductive Run.Still : {α : Type} → Run α → Prop
  | pure {α : Type} (a : α) : Still (pure a : Run α)
  | fail {α : Type} (fault : Fault) : Still (Run.fail fault : Run α)
  | bind {α β : Type} {work : Run α} {next : α → Run β} :
      Still work → (∀ a, Still (next a)) → Still (work >>= next)
  | heap {α : Type} {next : Heap → Run α} :
      (∀ heap, Still (next heap)) → Still (do next (← get).heap)

/-- Work that is put together from the simplest parts. It changes nothing but the stack unless it is
`outward`. -/
inductive Run.Plain (outward : Bool) : {α : Type} → Run α → Prop
  | pure {α : Type} (a : α) : Plain outward (pure a : Run α)
  | fail {α : Type} (fault : Fault) : Plain outward (Run.fail fault : Run α)
  | bind {α β : Type} {work : Run α} {next : α → Run β} :
      Plain outward work → (∀ a, Plain outward (next a)) → Plain outward (work >>= next)
  | push (value : Slot) : Plain outward (Run.push value)
  | pop : Plain outward Run.pop
  | heap {α : Type} {next : Heap → Run α} :
      (∀ heap, Plain outward (next heap)) → Plain outward (do next (← get).heap)
  | setField (id : ObjectId) (name : Bytes) (value : Slot) : outward = true →
      Plain outward
        (modify fun machine => { machine with heap := machine.heap.setField id name value })
  | print (text : String) : outward = true → Plain outward (Run.print text)

def Opcode.links : Opcode → Bool
  | getstatic | new | invokevirtual | invokespecial => true
  | _ => false

def Opcode.stores : Opcode → Bool
  | putfield => true
  | _ => false

def NativeAction.prints : NativeAction → Bool
  | printLine => true
  | _ => false

namespace Run.Still

theorem unchanged {α : Type} {work : Run α} (h : Still work) : Within Eq work := by
  induction h with
  | pure a => exact fun machine => rfl
  | fail fault => exact fun machine => rfl
  | bind _ _ ih ihnext => exact ih.bind (R := Eq) (fun _ _ _ => Eq.trans) ihnext
  | heap _ ih => exact fun machine => ih machine.heap machine

/-- What holds of the machine goes on holding. -/
theorem stays {I : Machine → Prop} {α : Type} {work : Run α} (h : Still work) :
    Stays I work fun _ => True := by
  intro machine hmachine
  have heq : machine = final (work.run machine) := h.unchanged machine
  exact ⟨heq ▸ hmachine, fun _ _ _ => trivial⟩

theorem structural {α : Type} (answer : Except StructuralError α) :
    Still (Run.structural answer) := by
  cases answer with
  | ok a => exact .pure a
  | error e => exact .fail _

theorem orFail (found : Option Slot) (fault : Fault) : Still (
    match found with
    | some value => Pure.pure value
    | none => Run.fail fault) := by
  cases found with
  | none => exact .fail fault
  | some value => exact .pure value

theorem shown (value : Slot) : Still (Run.shown value) :=
  .heap fun heap => .pure (value.value.display heap.label)

theorem getLocal (frame : Frame) (index : Nat) : Still (frame.getLocal index) := by
  unfold Frame.getLocal
  split
  · exact .pure _
  · exact .fail _

theorem setLocal (frame : Frame) (index : Nat) (value : Slot) :
    Still (frame.setLocal index value) := by
  unfold Frame.setLocal
  split
  · exact .pure _
  · exact .fail _

theorem position (operand : Nat) : Still (Instruction.position operand) := by
  cases operand with
  | zero => exact .fail _
  | succ place => exact .pure _

theorem memberRef (pool : ConstantPool) (operand : Nat) :
    Still (Instruction.memberRef pool operand) :=
  .bind (position operand) fun _ => structural _

theorem constant (pool : ConstantPool) (operand : Nat) :
    Still (Instruction.constant pool operand) := by
  apply bind (position operand)
  intro place
  cases pool.literal place with
  | error e => exact .fail _
  | ok value => exact .pure _

theorem wideConstant (pool : ConstantPool) (operand : Nat) :
    Still (Instruction.wideConstant pool operand) := by
  apply bind (position operand)
  intro place
  apply bind (structural _)
  intro found
  split
  · exact structural _
  · exact .fail _

theorem receiver (onNull : ExecutionError) (value : Slot) :
    Still (Instruction.receiver onNull value) := by
  unfold Instruction.receiver
  split
  · exact .pure _
  · exact .fail _
  · exact .bind (shown value) fun _ => .fail _

theorem getField (name : Bytes) (target : Slot) :
    Still (Instruction.getField name target) := by
  apply bind (receiver _ target)
  intro id
  have hfield (heap : Heap) := orFail ((heap.get? id).bind (·.fields.get? name))
    (.resolution (.noSuchField (Utf8.lenient (heap.className id)) (Utf8.lenient name)))
  exact heap hfield

theorem line (args : List Slot) : Still (NativeAction.line args) := by
  unfold NativeAction.line
  split
  · exact .bind (shown _) fun _ => .pure _
  · exact .pure _

end Run.Still

namespace Run.Plain

variable {outward : Bool}

theorem still {α : Type} {work : Run α} (h : Still work) : Plain outward work := by
  induction h with
  | pure a => exact .pure a
  | fail fault => exact .fail fault
  | bind _ _ ih ihnext => exact .bind ih ihnext
  | heap _ ih => exact .heap ih

theorem outwards {α : Type} {work : Run α} (h : Plain outward work) : Plain true work := by
  induction h with
  | pure a => exact .pure a
  | fail fault => exact .fail fault
  | bind _ _ ih ihnext => exact .bind ih ihnext
  | push value => exact .push value
  | pop => exact .pop
  | heap _ ih => exact .heap ih
  | setField id name value => exact .setField id name value rfl
  | print text => exact .print text rfl

section within

variable {R : Machine → Machine → Prop} (hrefl : ∀ machine, R machine machine)
  (htrans : ∀ first second third, R first second → R second third → R first third)
  (hstack : ∀ machine stack, R machine { machine with stack })

include hrefl htrans hstack

/-- Plain work stays within a relation that leaves room for values on the stack and for what is done
outward. -/
theorem within
    (hfield : outward = true → ∀ machine id name value,
      R machine { machine with heap := machine.heap.setField id name value })
    (hconsole : outward = true → ∀ machine content,
      R machine { machine with console := machine.console.write content })
    {α : Type} {work : Run α} (h : Plain outward work) : Within R work := by
  induction h with
  | pure a => exact within_pure hrefl a
  | fail fault => exact within_throw hrefl _
  | bind _ _ ih ihnext => exact ih.bind htrans ihnext
  | push value => exact fun machine => hstack machine _
  | pop =>
    intro machine
    simp only [Run.pop, EStateM.run_bind, EStateM.run_get]
    cases machine.stack.pop? with
    | none => exact hrefl machine
    | some found => exact hstack machine found.2
  | heap _ ih => exact (within_get hrefl).bind htrans fun machine => ih machine.heap
  | setField id name value houtward => exact fun machine => hfield houtward machine id name value
  | print text houtward =>
    intro machine
    have hwrite := hconsole houtward machine (Utf8.encode text)
    simp only [Run.print, EStateM.run_bind, EStateM.run_get, EStateM.run_modify]
    split
    · exact hwrite
    · exact hwrite

/-- Work that is not outward stays within every relation that leaves room for values on the stack.
-/
theorem within_of_inward {α : Type} {work : Run α} (h : Plain false work) : Within R work :=
  h.within hrefl htrans hstack (fun h => absurd h Bool.false_ne_true)
    fun h => absurd h Bool.false_ne_true

end within

theorem framePush (frame : Frame) (value : Slot) : Plain outward (frame.push value) :=
  .bind (.push value) fun _ => .pure _

theorem framePop (frame : Frame) : Plain outward frame.pop := by
  unfold Frame.pop
  split
  · exact .fail _
  · exact .bind .pop fun _ => .pure _

theorem popMany (count : Nat) (frame : Frame) (values : List Slot) :
    Plain outward (Frame.popMany count frame values) := by
  induction count generalizing frame values with
  | zero => exact .pure _
  | succ count ih => exact .bind (framePop frame) fun _ => ih _ _

theorem clear (frame : Frame) : Plain outward frame.clear :=
  .bind (popMany frame.owned frame []) fun _ => .pure _

theorem putField (name : Bytes) (target value : Slot) :
    Plain true (Instruction.putField name target value) :=
  .bind (.still (.receiver _ target)) fun id => .setField id name value rfl

theorem perform (args : List Slot) (action : NativeAction) :
    Plain action.prints (action.perform args) := by
  cases action with
  | discard => exact .bind .pop fun _ => .pure _
  | push value => exact .push value
  | pushArgument place => exact .push _
  | pushTextLength => exact .push _
  | printLine => exact .bind (.still (.line args)) fun text => .print text rfl
  | fail reason => exact .fail _

theorem performAll (args : List Slot) (actions : List NativeAction) :
    Plain true (NativeAction.performAll args actions) := by
  induction actions with
  | nil => exact .pure _
  | cons action actions ih => exact .bind (perform args action).outwards fun _ => ih

/-- An instruction that does not look for a class is plain, and only a store is outward. -/
theorem run (call : ResolvedMethod → List Slot → Run Unit) (depth : Nat) (pool : ConstantPool)
    (pc : Nat) {opcode : Opcode} (operand : Nat) (frame : Frame) (hopcode : opcode.links = false) :
    Plain opcode.stores (Instruction.run call depth pool pc opcode operand frame) := by
  have hpush (frame : Frame) (value : Slot) :
      Plain opcode.stores (do return some (← frame.push value)) :=
    .bind (framePush frame value) fun _ => .pure _
  have hset (frame : Frame) (index : Nat) (value : Slot) :
      Plain opcode.stores (do return some (← frame.setLocal index value)) :=
    .bind (.still (.setLocal frame index value)) fun _ => .pure _
  cases opcode with
  | nop => exact .pure _
  | iconst1 => exact hpush frame _
  | dconst1 => exact hpush frame _
  | bipush => exact hpush frame _
  | sipush => exact hpush frame _
  | ldc => exact .bind (.still (.constant pool operand)) (hpush frame)
  | ldc2w => exact .bind (.still (.wideConstant pool operand)) (hpush frame)
  | aload0 => exact .bind (.still (.getLocal frame 0)) (hpush frame)
  | aload1 => exact .bind (.still (.getLocal frame 1)) (hpush frame)
  | astore0 => exact .bind (framePop frame) fun answer => hset answer.2 0 answer.1
  | astore1 => exact .bind (framePop frame) fun answer => hset answer.2 1 answer.1
  | dup =>
    apply bind (framePop frame)
    intro answer
    exact .bind (framePush answer.2 answer.1) fun pushed => hpush pushed answer.1
  | getfield =>
    apply bind (still (.memberRef pool operand))
    intro member
    apply bind (framePop frame)
    intro target
    exact .bind (.still (.getField member.name target.1)) (hpush target.2)
  | putfield =>
    apply bind (still (.memberRef pool operand))
    intro member
    apply bind (framePop frame)
    intro value
    apply bind (framePop value.2)
    intro target
    exact .bind (putField member.name target.1 value.1) fun _ => .pure _
  | returnVoid => exact .pure _
  | areturn =>
    apply bind (framePop frame)
    intro result
    have hdiscard : Plain false (discard result.2.clear) := .bind (clear result.2) fun _ => .pure _
    exact .bind hdiscard fun _ => .bind (.push result.1) fun _ => .pure _
  | unsupported byte => exact .fail _
  | getstatic | new | invokevirtual | invokespecial => contradiction

end Run.Plain

end ClassMachine
