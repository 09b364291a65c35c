import ClassMachine.Machine.Interpreter

/-!
# The instructions that an activation dispatches

Nothing jumps: each instruction stands right behind the operand of the one before it, and the first
one at the beginning of the code. So no byte of the code belongs to two of the instructions that an
activation dispatches, whatever they do and however the activation ends.
-/

namespace ClassMachine

/-- An instruction with its place in the code and the number that its operand writes. -/
structure Placed where
  pc : Nat
  opcode : Opcode
  operand : Nat
deriving Repr, DecidableEq

namespace Placed

def after (placed : Placed) : Nat :=
  placed.pc + 1 + placed.opcode.operandWidth

/-- The instruction is what the code has at its place. -/
def StandsIn (placed : Placed) (code : Bytes) : Prop :=
  ∃ front byte operand back, code = front ++ byte :: operand ++ back ∧
    front.length = placed.pc ∧ Opcode.ofByte byte = placed.opcode ∧
    operand.length = placed.opcode.operandWidth ∧ Bytes.toNat operand = placed.operand

theorem StandsIn.after_le {placed : Placed} {code : Bytes} (h : placed.StandsIn code) :
    placed.after ≤ code.length := by
  obtain ⟨front, byte, operand, back, rfl, hfront, -, hoperand, -⟩ := h
  simp only [after, List.length_append, List.length_cons]
  omega

/-- Instructions of the code from a place on, each of which stands where the one before it ends. -/
inductive Consecutive (code : Bytes) : Nat → List Placed → Prop
  | nil {pc} : Consecutive code pc []
  | cons {placed : Placed} {rest} : placed.StandsIn code → Consecutive code placed.after rest →
      Consecutive code placed.pc (placed :: rest)

namespace Consecutive

variable {code : Bytes} {pc : Nat} {placed other : List Placed}

theorem ofLeading (h : Consecutive code pc placed) (hleading : other <+: placed) :
    Consecutive code pc other := by
  induction h generalizing other with
  | nil =>
    obtain rfl := List.prefix_nil.1 hleading
    exact .nil
  | @cons first rest hfirst _ ih =>
    cases other with
    | nil => exact .nil
    | cons head tail =>
      obtain ⟨rfl, htail⟩ := List.cons_prefix_cons.1 hleading
      exact .cons hfirst (ih htail)

theorem le_pc (h : Consecutive code pc placed) : ∀ p ∈ placed, pc ≤ p.pc := by
  induction h with
  | nil => exact List.forall_mem_nil _
  | @cons first rest _ _ ih =>
    refine List.forall_mem_cons.2 ⟨Nat.le_refl _, fun p hp => Nat.le_trans ?_ (ih p hp)⟩
    rw [after]
    omega

theorem pairwise (h : Consecutive code pc placed) :
    placed.Pairwise fun p q => p.after ≤ q.pc := by
  induction h with
  | nil => exact .nil
  | cons _ hrest ih => exact .cons hrest.le_pc ih

theorem length_le (h : Consecutive code pc placed) : placed.length ≤ code.length - pc := by
  induction h with
  | nil => exact Nat.zero_le _
  | @cons first rest hfirst _ ih =>
    have hafter := hfirst.after_le
    have hnext : first.after = first.pc + 1 + first.opcode.operandWidth := rfl
    rw [List.length_cons]
    omega

end Consecutive

end Placed

namespace Listing

def instructions : Listing → List Placed
  | exhausted | truncated _ _ => []
  | instruction pc opcode operand next => ⟨pc, opcode, operand⟩ :: next.instructions

theorem Lists.consecutive {pc : Nat} {rest : Bytes} {listing : Listing}
    (h : Lists pc rest listing) (front : Bytes) (hfront : front.length = pc) :
    Placed.Consecutive (front ++ rest) pc listing.instructions := by
  induction h generalizing front with
  | exhausted => exact .nil
  | truncated _ => exact .nil
  | @instruction pc b operand rest next hoperand _ ih =>
    have hsplit : front ++ b :: (operand ++ rest) = front ++ b :: operand ++ rest := by simp
    have hafter : (front ++ b :: operand).length = pc + 1 + (Opcode.ofByte b).operandWidth := by
      rw [List.length_append, List.length_cons, hfront, hoperand]
      omega
    have hnext := ih (front ++ b :: operand) hafter
    rw [← hsplit] at hnext
    have hfirst : Placed.StandsIn ⟨pc, Opcode.ofByte b, Bytes.toNat operand⟩
        (front ++ b :: (operand ++ rest)) :=
      ⟨front, b, operand, rest, hsplit, hfront, rfl, hoperand, rfl⟩
    exact .cons hfirst hnext

theorem consecutive_ofBytes (code : Bytes) :
    Placed.Consecutive code 0 (ofBytes code).instructions :=
  (lists_ofBytes code).consecutive [] rfl

end Listing

namespace Machine

/-- The instructions that one activation dispatches itself, in order. -/
def dispatched (call : ResolvedMethod → List Slot → Run Unit) (depth : Nat) (pool : ConstantPool) :
    Listing → Frame → Machine → List Placed
  | .exhausted, _, _ | .truncated _ _, _, _ => []
  | .instruction pc opcode operand next, frame, machine =>
    ⟨pc, opcode, operand⟩ ::
      match (Instruction.run call depth pool pc opcode operand frame).run machine with
      | .ok (some frame) later => dispatched call depth pool next frame later
      | _ => []

variable {call : ResolvedMethod → List Slot → Run Unit} {depth : Nat} {pool : ConstantPool}

/-- The listed instructions are dispatched one after another until the activation ends. -/
theorem dispatched_leads (listing : Listing) (frame : Frame) (machine : Machine) :
    dispatched call depth pool listing frame machine <+: listing.instructions := by
  induction listing generalizing frame machine with
  | exhausted => exact List.prefix_rfl
  | truncated pc opcode => exact List.prefix_rfl
  | instruction pc opcode operand next ih =>
    simp only [dispatched, Listing.instructions]
    refine (List.prefix_cons_inj _).2 ?_
    split
    · exact ih _ _
    · exact List.nil_prefix

theorem consecutive_dispatched (code : Bytes) (frame : Frame) (machine : Machine) :
    Placed.Consecutive code 0
      (dispatched call depth pool (Listing.ofBytes code) frame machine) :=
  (Listing.consecutive_ofBytes code).ofLeading (dispatched_leads _ frame machine)

end Machine

end ClassMachine
