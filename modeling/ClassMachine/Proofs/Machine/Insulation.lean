import ClassMachine.Machine.Frame
import ClassMachine.Native.Perform
import ClassMachine.Proofs.ClassTable.Growth

/-!
# Work above other values

Other values may lie on the operand stack below those that a piece of work deals with. Work is
insulated from them if it does the same with and without them, and leaves them where they are. It
needs no more values than there are above them, which the conditions on the machine have to ensure.
-/

namespace ClassMachine

open Work

variable {α β : Type}

namespace OperandStack

/-- The stack with other values below its own. -/
def onto (stack below : OperandStack) : OperandStack :=
  ⟨stack.slots ++ below.slots, stack.size + below.size,
    by rw [stack.size_eq, below.size_eq, List.length_append]⟩

@[simp]
theorem slots_onto (stack below : OperandStack) :
    (stack.onto below).slots = stack.slots ++ below.slots :=
  rfl

@[simp]
theorem size_onto (stack below : OperandStack) :
    (stack.onto below).size = stack.size + below.size :=
  rfl

@[simp]
theorem size_push (stack : OperandStack) (value : Slot) : (stack.push value).size = stack.size + 1 :=
  rfl

theorem empty_onto (below : OperandStack) : empty.onto below = below :=
  eq_of_slots_eq rfl

theorem onto_onto (stack middle below : OperandStack) :
    (stack.onto middle).onto below = stack.onto (middle.onto below) :=
  eq_of_slots_eq (List.append_assoc ..)

theorem push_onto (stack below : OperandStack) (value : Slot) :
    (stack.onto below).push value = (stack.push value).onto below :=
  eq_of_slots_eq rfl

theorem top?_onto {stack : OperandStack} {value : Slot} (h : stack.top? = some value)
    (below : OperandStack) : (stack.onto below).top? = some value := by
  simp only [top?, slots_onto] at h ⊢
  rw [List.head?_append, h]
  rfl

theorem eq_push_of_size {stack : OperandStack} {n : Nat} (h : stack.size = n + 1) :
    ∃ value, ∃ rest : OperandStack, stack = rest.push value ∧ rest.size = n := by
  obtain ⟨slots, size, size_eq⟩ := stack
  simp only at h
  subst h
  cases slots with
  | nil => contradiction
  | cons value slots =>
    refine ⟨value, ⟨slots, n, Nat.succ.inj size_eq⟩, eq_of_slots_eq rfl, rfl⟩

theorem eq_empty_of_size {stack : OperandStack} (h : stack.size = 0) : stack = empty :=
  eq_of_slots_eq (List.length_eq_zero_iff.1 (stack.size_eq ▸ h))

end OperandStack

namespace Machine

def onto (machine : Machine) (below : OperandStack) : Machine :=
  { machine with stack := machine.stack.onto below }

theorem onto_onto (machine : Machine) (middle below : OperandStack) :
    (machine.onto middle).onto below = machine.onto (middle.onto below) := by
  simp [onto, OperandStack.onto_onto]

theorem empty_onto (machine : Machine) (stack : OperandStack) :
    ({ machine with stack := .empty } : Machine).onto stack = { machine with stack } :=
  congrArg (Machine.mk _ _ _) (OperandStack.empty_onto stack)

end Machine

namespace Run

/-- On a machine that meets the condition the work is insulated, and the machine after it meets
the other condition if it succeeds. -/
def Insulated (before : Machine → Prop) (work : Run α) (after : α → Machine → Prop) : Prop :=
  ∀ machine, before machine →
    (∀ below, work.run (machine.onto below) = onState (·.onto below) (work.run machine)) ∧
    ∀ a later, work.run machine = .ok a later → after a later

variable {before : Machine → Prop} {work : Run α} {after : α → Machine → Prop}

theorem Insulated.weaken {stronger : Machine → Prop} {weaker : α → Machine → Prop}
    (h : Insulated before work after) (hbefore : ∀ machine, stronger machine → before machine)
    (hafter : ∀ a machine, after a machine → weaker a machine) :
    Insulated stronger work weaker := by
  intro machine hmachine
  obtain ⟨hsame, hlater⟩ := h machine (hbefore machine hmachine)
  exact ⟨hsame, fun a later hrun => hafter a later (hlater a later hrun)⟩

theorem insulated_pure (a : α) : Insulated before (pure a) fun b machine =>
    b = a ∧ before machine := by
  intro machine hbefore
  refine ⟨fun below => rfl, fun b later h => ?_⟩
  rw [EStateM.run_pure, EStateM.Result.ok.injEq] at h
  obtain ⟨rfl, rfl⟩ := h
  exact ⟨rfl, hbefore⟩

theorem insulated_return (a : α) : Insulated before (pure a) fun _ => before :=
  (insulated_pure a).weaken (fun _ h => h) fun _ _ h => h.2

theorem insulated_throw (stop : Stop) : Insulated before (throw stop : Run α) after :=
  fun _ _ => ⟨fun _ => rfl, fun _ _ h => nomatch h⟩

theorem insulated_fail (fault : Fault) : Insulated before (fail fault : Run α) after :=
  insulated_throw _

theorem insulated_execution (error : ExecutionError) :
    Insulated before (execution error : Run α) after :=
  insulated_throw _

theorem Insulated.bind {next : α → Run β} {last : β → Machine → Prop}
    (h : Insulated before work after) (hnext : ∀ a, Insulated (after a) (next a) last) :
    Insulated before (work >>= next) last := by
  intro machine hbefore
  obtain ⟨hsame, hlater⟩ := h machine hbefore
  simp only [EStateM.run_bind]
  cases hrun : work.run machine with
  | error stop later =>
    refine ⟨fun below => ?_, fun _ _ h => nomatch h⟩
    rw [hsame below, hrun]
    rfl
  | ok a later =>
    obtain ⟨hsame', hlast⟩ := hnext a later (hlater a later hrun)
    refine ⟨fun below => ?_, hlast⟩
    rw [hsame below, hrun]
    exact hsame' below

theorem Insulated.map (f : α → β) (h : Insulated before work after) :
    Insulated before (f <$> work) fun b machine => ∃ a, f a = b ∧ after a machine := by
  intro machine hbefore
  obtain ⟨hsame, hlater⟩ := h machine hbefore
  simp only [run_map]
  constructor
  · intro below
    rw [hsame below]
    cases work.run machine <;> rfl
  · intro b later hrun
    cases hwork : work.run machine with
    | error stop s => rw [hwork] at hrun; contradiction
    | ok a s =>
      simp only [hwork, EStateM.Result.ok.injEq] at hrun
      obtain ⟨rfl, rfl⟩ := hrun
      exact ⟨a, rfl, hlater a s hwork⟩

theorem insulated_view {γ : Type} (view : Machine → γ) (next : γ → Run α)
    (hview : ∀ machine below, view (machine.onto below) = view machine)
    (hnext : ∀ x, Insulated before (next x) after) :
    Insulated before (do next (view (← get))) after := by
  intro machine hbefore
  obtain ⟨hsame, hlater⟩ := hnext (view machine) machine hbefore
  refine ⟨fun below => ?_, hlater⟩
  simp only [EStateM.run_bind, EStateM.run_get, hview]
  exact hsame below

theorem insulated_modify {f : Machine → Machine} {later : Machine → Prop}
    (hf : ∀ machine below, f (machine.onto below) = (f machine).onto below)
    (hlater : ∀ machine, before machine → later (f machine)) :
    Insulated before (modify f : Run Unit) fun _ => later := by
  intro machine hbefore
  constructor
  · intro below
    simp only [EStateM.run_modify, hf, onState]
  · intro a next hrun
    simp only [EStateM.run_modify, EStateM.Result.ok.injEq] at hrun
    exact hrun.2 ▸ hlater machine hbefore

/-- It is enough to look at machines on whose stack there is nothing else. -/
theorem Insulated.ofEmpty (tables : ClassTable → Prop) (last : α → ClassTable → Prop)
    (h : Insulated (fun machine => tables machine.table ∧ machine.stack.size = 0) work
      fun a machine => last a machine.table) :
    Insulated (fun machine => tables machine.table) work fun a machine => last a machine.table := by
  intro machine htable
  obtain ⟨hsame, hlater⟩ := h { machine with stack := .empty } ⟨htable, rfl⟩
  have hmachine := machine.empty_onto machine.stack
  have hrun := hsame machine.stack
  rw [hmachine] at hrun
  constructor
  · intro below
    have hbelow := hsame (machine.stack.onto below)
    rw [← Machine.onto_onto, hmachine] at hbelow
    rw [hbelow, hrun]
    cases work.run { machine with stack := .empty } <;> simp [onState, Machine.onto_onto]
  · intro a later hok
    rw [hrun] at hok
    cases hempty : work.run { machine with stack := .empty } with
    | error stop s => rw [hempty] at hok; contradiction
    | ok b s =>
      simp only [hempty, onState, EStateM.Result.ok.injEq] at hok
      obtain ⟨rfl, rfl⟩ := hok
      exact hlater b s hempty

/-- Insulated work takes none of the values that it finds. -/
theorem Insulated.stack_grows {tables : ClassTable → Prop} {last : α → Machine → Prop}
    (h : Insulated (fun machine => tables machine.table) work last) {machine later : Machine} {a : α}
    (htable : tables machine.table) (hrun : work.run machine = .ok a later) :
    ∃ stack : OperandStack, later.stack = stack.onto machine.stack := by
  have hmachine := machine.empty_onto machine.stack
  have hsame := (h { machine with stack := .empty } htable).1 machine.stack
  rw [hmachine, hrun] at hsame
  cases hempty : work.run { machine with stack := .empty } with
  | error stop s => rw [hempty] at hsame; contradiction
  | ok b s =>
    simp only [hempty, onState, EStateM.Result.ok.injEq] at hsame
    exact ⟨s.stack, by rw [hsame.2]; rfl⟩

theorem insulated_link {linking : Linking α} {tables : ClassTable → Prop}
    (stack : OperandStack → Prop) {answers : α → Prop}
    (htables : ∀ table a later, tables table → linking.run table = .ok a later →
      tables later ∧ answers a) :
    Insulated (fun machine => tables machine.table ∧ stack machine.stack) (link linking)
      fun a machine => answers a ∧ tables machine.table ∧ stack machine.stack := by
  intro machine ⟨htable, hstack⟩
  simp only [run_link]
  constructor
  · intro below
    simp only [Machine.onto]
    cases linking.run machine.table <;> rfl
  · intro a later hrun
    cases hlinking : linking.run machine.table with
    | error stop table => rw [hlinking] at hrun; contradiction
    | ok b table =>
      simp only [hlinking, EStateM.Result.ok.injEq] at hrun
      obtain ⟨rfl, rfl⟩ := hrun
      obtain ⟨hlater, hanswer⟩ := htables _ _ _ htable hlinking
      exact ⟨hanswer, hlater, hstack⟩

end Run

end ClassMachine
