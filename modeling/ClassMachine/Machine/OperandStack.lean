import ClassMachine.Value

/-!
# The operand stack

All methods share one stack of slots. It carries the number of its slots, so that a caller sees at
once by how many a call has made it grow.
-/

namespace ClassMachine

structure OperandStack where
  /-- The slots, the one pushed last first. -/
  slots : List Slot := []
  size : Nat := slots.length
  size_eq : size = slots.length := by rfl
deriving DecidableEq

namespace OperandStack

def empty : OperandStack := {}

instance : Inhabited OperandStack := ⟨empty⟩

variable (stack : OperandStack)

def isEmpty : Bool :=
  stack.slots.isEmpty

def push (value : Slot) : OperandStack :=
  ⟨value :: stack.slots, stack.size + 1, by simp [stack.size_eq]⟩

/-- The slot pushed last, and the stack without it. -/
def pop? : OperandStack → Option (Slot × OperandStack)
  | ⟨[], _, _⟩ => none
  | ⟨value :: slots, size, size_eq⟩ =>
    some (value, ⟨slots, size - 1, by rw [size_eq, List.length_cons, Nat.add_sub_cancel]⟩)

def top? : Option Slot :=
  stack.slots.head?

/-- A stack is known by its slots. -/
theorem eq_of_slots_eq {stack other : OperandStack} (h : stack.slots = other.slots) :
    stack = other := by
  obtain ⟨slots, size, size_eq⟩ := stack
  obtain ⟨_, _, other_eq⟩ := other
  subst h size_eq other_eq
  rfl

@[simp]
theorem slots_push (value : Slot) : (stack.push value).slots = value :: stack.slots :=
  rfl

@[simp]
theorem pop?_push (value : Slot) : (stack.push value).pop? = some (value, stack) :=
  rfl

end OperandStack

end ClassMachine
