import ClassMachine.Proofs.ClassFile.Overloads
import ClassMachine.Proofs.Machine.Calls

/-!
# Calls take what their descriptors say

A call takes as many values as the method has parameters that is found for it. That method takes
parameters of the types in the descriptor at the call, so the number can be told from there, before
any class is looked at; only whether there is a receiver depends on the method.
-/

namespace ClassMachine

open Work

namespace Linking

variable {table later : ClassTable} {className name descriptor : Bytes} {target : ResolvedMethod}

theorem overload_of_resolve (hrun : (resolve className name descriptor).run table = .ok target later) :
    ∃ place, target.file.overload name descriptor = .ok (target.method, place) := by
  obtain ⟨file, middle, -, hrun⟩ := (run_bind_eq_ok_iff _ _ _ _ _).1 hrun
  obtain ⟨⟨method, place⟩, last, hfound, hreturn⟩ := (run_bind_eq_ok_iff _ _ _ _ _).1 hrun
  obtain ⟨rfl, -⟩ := EStateM.Result.ok.inj hreturn
  refine ⟨place, ?_⟩
  cases hoverload : file.overload name descriptor with
  | error e =>
    rw [hoverload] at hfound
    contradiction
  | ok found =>
    rw [hoverload] at hfound
    rw [(EStateM.Result.ok.inj hfound).1]

theorem params_of_resolve (htable : table.Built) {signature : MethodSignature}
    (hparse : MethodSignature.parse descriptor = .ok signature)
    (hrun : (resolve className name descriptor).run table = .ok target later) :
    target.method.signature.params = signature.params := by
  have hlater := ((resolve_grows className name descriptor).ok hrun).built htable
  obtain ⟨registered, c, hget, hfile, hmethod⟩ := registered_of_resolve hrun
  obtain ⟨place, hfound⟩ := overload_of_resolve hrun
  have hsigned : target.file.Signed := hfile ▸ (hlater registered c hget).signed
  have hfits : target.file.fits name descriptor target.method = true := by
    have hmem := ClassFile.overload_eq_ok_iff.1 hfound
    exact (ClassFile.mem_fitting_iff.1 (hmem ▸ List.mem_singleton_self _)).2
  exact ((hsigned.fits_iff hparse (hfile ▸ hmethod)).1 hfits).2

end Linking

namespace Instruction

variable {call : ResolvedMethod → List Slot → Run Unit}

/-- A call of a method with those parameters: it takes one value for each of them, and the receiver
unless the method is static. -/
def invokeAs (call : ResolvedMethod → List Slot → Run Unit) (member : MemberRef)
    (params : List FieldType) (frame : Frame) : Run Frame := do
  let target ← Run.link (Linking.resolve member.className member.name member.descriptor)
  let (args, frame) ← frame.popMany (params.length + (if target.method.isStatic then 0 else 1)) []
  complete call target args frame

theorem run_invoke_eq {machine : Machine} (htable : machine.table.Built) {pool : ConstantPool}
    {place : Nat} {member : MemberRef} (hmember : pool.memberRef place = .ok member)
    {signature : MethodSignature}
    (hparse : MethodSignature.parse member.descriptor = .ok signature) (frame : Frame) :
    (invoke call pool (place + 1) frame).run machine =
      (invokeAs call member signature.params frame).run machine := by
  have hread := run_memberRef hmember machine
  simp only [invoke_eq, calling, invokeAs, bind_assoc, EStateM.run_bind, hread, Run.run_link]
  cases hrun : (Linking.resolve member.className member.name member.descriptor).run
      machine.table with
  | error stop table => rfl
  | ok target table =>
    simp only [argumentCount, Linking.params_of_resolve htable hparse hrun]
    rfl

/-- What an instruction that calls a method does. -/
theorem run_call (depth : Nat) (pool : ConstantPool) (pc : Nat) {opcode : Opcode}
    (hopcode : opcode = .invokevirtual ∨ opcode = .invokespecial) (operand : Nat) (frame : Frame) :
    run call depth pool pc opcode operand frame = some <$> invoke call pool operand frame := by
  rcases hopcode with rfl | rfl <;> exact (map_eq_pure_bind _ _).symm

/-- To choose a method by what its parameters are spelled like is to choose it by their types:
spellings and types determine each other; in a class that has been read or put together a call means
the only method of its name with parameters of the types in the descriptor, and there is none or
the call is ambiguous exactly if there is no such method or more than one; and an instruction takes
as many arguments as the descriptor at the call has parameters. -/
theorem choice_by_types :
    (∀ descriptor other signature found, MethodSignature.parse descriptor = .ok signature →
      MethodSignature.parse other = .ok found →
      (MethodSignature.paramsText descriptor = MethodSignature.paramsText other ↔
        signature.params = found.params)) ∧
    (∀ file : ClassFile, file.Built → ∀ name descriptor signature,
      MethodSignature.parse descriptor = .ok signature →
      file.ChoosesBy name descriptor (file.Offers name signature.params)) ∧
    ∀ machine : Machine, machine.table.Built → ∀ pool place member signature,
      ConstantPool.memberRef pool place = .ok member →
      MethodSignature.parse member.descriptor = .ok signature →
      ∀ call depth pc frame, ∀ opcode, opcode = .invokevirtual ∨ opcode = .invokespecial →
        (run call depth pool pc opcode (place + 1) frame).run machine =
          (some <$> invokeAs call member signature.params frame).run machine := by
  refine ⟨?_, ?_, ?_⟩
  · intro descriptor other signature found hparse hother
    exact MethodSignature.paramsText_eq_iff hparse hother
  · intro file hbuilt name descriptor signature hparse
    exact hbuilt.signed.choosesBy_offers hparse name
  · intro machine htable pool place member signature hmember hparse call depth pc frame opcode
      hopcode
    rw [run_call depth pool pc hopcode, run_map, run_map, run_invoke_eq htable hmember hparse]

def printingPool : ConstantPool :=
  ⟨#[.utf8 Bootstrap.printStreamName, .classEntry 0, .utf8 (Utf8.encode "println"),
    .utf8 (Utf8.encode "(I)V"), .nameAndType 2 3, .member .method 1 4]⟩

def printing : MemberRef where
  kind := .method
  className := Bootstrap.printStreamName
  name := Utf8.encode "println"
  descriptor := Utf8.encode "(I)V"

def printingMachine : Machine where
  table := (Bootstrap.machine .none {}).table
  heap := (Bootstrap.machine .none {}).heap
  stack := (OperandStack.empty.push (.of (.object 0))).push (.int 7)

theorem choice_by_types_println :
    let signature : MethodSignature := ⟨[.int], .void⟩
    let found : MethodSignature := ⟨[.int], .value .int⟩
    ∃ c, printingMachine.table.get? printing.className = some c ∧ c.file.Built ∧
      printingMachine.table.Built ∧
      MethodSignature.parse printing.descriptor = .ok signature ∧
      MethodSignature.parse (Utf8.encode "(I)I") = .ok found ∧
      printingPool.memberRef 5 = .ok printing ∧
      MethodSignature.paramsText printing.descriptor =
        MethodSignature.paramsText (Utf8.encode "(I)I") ∧
      c.file.ChoosesBy printing.name printing.descriptor (c.file.Offers printing.name [.int]) ∧
      (run (fun _ _ => pure ()) 0 printingPool 0 .invokevirtual 6 ⟨[], 2⟩).run printingMachine =
        (some <$> invokeAs (fun _ _ => pure ()) printing [.int] ⟨[], 2⟩).run printingMachine := by
  intro signature found
  obtain ⟨spelled, chosen, taken⟩ := choice_by_types
  have hbuilt : printingMachine.table.Built := by
    dsimp only [printingMachine]
    exact Bootstrap.machine_built .none {} Heap.spaced
  have hparse : MethodSignature.parse printing.descriptor = .ok signature := by decide +kernel
  have hfound : MethodSignature.parse (Utf8.encode "(I)I") = .ok found := by decide +kernel
  have hmember : printingPool.memberRef 5 = .ok printing := by decide +kernel
  have hthere : (printingMachine.table.get? printing.className).isSome = true := by decide +kernel
  obtain ⟨c, hc⟩ := Option.isSome_iff_exists.1 hthere
  exact ⟨c, hc, hbuilt _ c hc, hbuilt, hparse, hfound, hmember,
    (spelled _ _ _ _ hparse hfound).2 rfl, chosen c.file (hbuilt _ c hc) _ _ _ hparse,
    taken printingMachine hbuilt printingPool 5 printing signature hmember hparse _ 0 0 _ _
      (.inl rfl)⟩

end Instruction

end ClassMachine
