import ClassMachine.Bytes

/-!
# Instructions

There are twenty instructions; every other byte is an instruction that is not supported. An
instruction is a byte, followed by one or two bytes of operand for some. Nothing jumps, so code is
a list of instructions that ends by running out of bytes, at an instruction boundary or not.
-/

namespace ClassMachine

inductive Opcode where
  | nop
  | iconst1
  | dconst1
  | bipush
  | sipush
  | ldc
  | ldc2w
  | aload0
  | aload1
  | astore0
  | astore1
  | dup
  | areturn
  | returnVoid
  | getstatic
  | getfield
  | putfield
  | invokevirtual
  | invokespecial
  | new
  | unsupported (byte : UInt8)
deriving Repr, DecidableEq, Inhabited

namespace Opcode

def byte : Opcode → UInt8
  | nop => 0x00
  | iconst1 => 0x04
  | dconst1 => 0x0f
  | bipush => 0x10
  | sipush => 0x11
  | ldc => 0x12
  | ldc2w => 0x14
  | aload0 => 0x2a
  | aload1 => 0x2b
  | astore0 => 0x4b
  | astore1 => 0x4c
  | dup => 0x59
  | areturn => 0xb0
  | returnVoid => 0xb1
  | getstatic => 0xb2
  | getfield => 0xb4
  | putfield => 0xb5
  | invokevirtual => 0xb6
  | invokespecial => 0xb7
  | new => 0xbb
  | unsupported byte => byte

def supported : List Opcode :=
  [nop, iconst1, dconst1, bipush, sipush, ldc, ldc2w, aload0, aload1, astore0, astore1, dup,
    areturn, returnVoid, getstatic, getfield, putfield, invokevirtual, invokespecial, new]

def ofByte (b : UInt8) : Opcode :=
  (supported.find? (·.byte = b)).getD (unsupported b)

def isUnsupported : Opcode → Bool
  | unsupported _ => true
  | _ => false

def mnemonic : Opcode → String
  | nop => "nop"
  | iconst1 => "iconst_1"
  | dconst1 => "dconst_1"
  | bipush => "bipush"
  | sipush => "sipush"
  | ldc => "ldc"
  | ldc2w => "ldc2_w"
  | aload0 => "aload_0"
  | aload1 => "aload_1"
  | astore0 => "astore_0"
  | astore1 => "astore_1"
  | dup => "dup"
  | areturn => "areturn"
  | returnVoid => "return"
  | getstatic => "getstatic"
  | getfield => "getfield"
  | putfield => "putfield"
  | invokevirtual => "invokevirtual"
  | invokespecial => "invokespecial"
  | new => "new"
  | unsupported _ => "<unsupported>"

/-- Bytes of operand behind the instruction. -/
def operandWidth : Opcode → Nat
  | bipush | ldc => 1
  | sipush | ldc2w | getstatic | getfield | putfield | invokevirtual | invokespecial | new => 2
  | _ => 0

end Opcode

/-- Code as a list of instructions, each with its place and the number that its operand writes. -/
inductive Listing where
  /-- The bytes end behind an instruction. -/
  | exhausted
  /-- The bytes end inside an instruction. -/
  | truncated (pc : Nat) (opcode : Opcode)
  | instruction (pc : Nat) (opcode : Opcode) (operand : Nat) (next : Listing)
deriving Repr, DecidableEq, Inhabited

namespace Listing

/-- Reads code from the place `pc` on; `fuel` bounds the number of instructions. -/
def read : (fuel : Nat) → (pc : Nat) → Bytes → Listing
  | _, _, [] => exhausted
  | 0, _, _ => exhausted
  | fuel + 1, pc, b :: rest =>
    let opcode := Opcode.ofByte b
    match Bytes.split? opcode.operandWidth rest with
    | none => truncated pc opcode
    | some (operand, rest) =>
      instruction pc opcode (Bytes.toNat operand) (read fuel (pc + 1 + opcode.operandWidth) rest)

/-- The instructions of code, of which there are no more than bytes. -/
def ofBytes (code : Bytes) : Listing :=
  read code.length 0 code

/-- All bytes from a place on are listed: nothing but their end ends the listing. -/
inductive Lists : Nat → Bytes → Listing → Prop
  | exhausted {pc : Nat} : Lists pc [] exhausted
  | truncated {pc : Nat} {b : UInt8} {rest : Bytes} :
      rest.length < (Opcode.ofByte b).operandWidth →
      Lists pc (b :: rest) (truncated pc (Opcode.ofByte b))
  | instruction {pc : Nat} {b : UInt8} {operand rest : Bytes} {next : Listing} :
      operand.length = (Opcode.ofByte b).operandWidth →
      Lists (pc + 1 + (Opcode.ofByte b).operandWidth) rest next →
      Lists pc (b :: (operand ++ rest))
        (instruction pc (Opcode.ofByte b) (Bytes.toNat operand) next)

/-- Fuel for every byte reaches the end of the code. -/
theorem lists_read {fuel : Nat} (pc : Nat) {code : Bytes} (h : code.length ≤ fuel) :
    Lists pc code (read fuel pc code) := by
  induction fuel generalizing pc code with
  | zero =>
    obtain rfl := List.eq_nil_of_length_eq_zero (Nat.eq_zero_of_le_zero h)
    exact .exhausted
  | succ fuel ih =>
    cases code with
    | nil => exact .exhausted
    | cons b rest =>
      simp only [read, Bytes.split?_eq]
      by_cases hwidth : (Opcode.ofByte b).operandWidth ≤ rest.length
      · have hrest : (rest.drop (Opcode.ofByte b).operandWidth).length ≤ fuel := by
          rw [List.length_cons] at h
          rw [List.length_drop]
          omega
        have hlists := Lists.instruction (List.length_take_of_le hwidth)
          (ih (pc + 1 + (Opcode.ofByte b).operandWidth) hrest)
        rw [List.take_append_drop] at hlists
        simpa only [hwidth, if_true] using hlists
      · simpa only [hwidth, if_false] using Lists.truncated (Nat.lt_of_not_le hwidth)

theorem lists_ofBytes (code : Bytes) : Lists 0 code (ofBytes code) :=
  lists_read 0 (Nat.le_refl _)

end Listing

end ClassMachine
