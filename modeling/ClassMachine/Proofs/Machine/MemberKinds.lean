import ClassMachine.Proofs.Machine.Handover
import ClassMachine.Proofs.Machine.Stability

/-!
# What a member reference is used for

A member reference tells of a field or of a method, and says which by its kind. No instruction looks
at the kind: a field is read or stored because the instruction is one that does so, and a method is
called because the instruction is one that calls. Only five instructions look at member references
at all. What keeps a reference to a field from being called is its descriptor, which spells no
parameters.
-/

namespace ClassMachine

open Work

/-- What a member reference consists of: its kind, and two positions. -/
abbrev Constant.Link :=
  MemberKind × Nat × Nat

/-- The constant with another member reference in its place if it is one. -/
def Constant.relink (change : Link → Link) : Constant → Constant
  | .member kind owner place =>
    let link := change (kind, owner, place)
    .member link.1 link.2.1 link.2.2
  | constant => constant

theorem Constant.isWide_relink (change : Link → Link) (constant : Constant) :
    (constant.relink change).isWide = constant.isWide := by
  cases constant <;> rfl

namespace ConstantPool

def relink (change : Constant.Link → Constant.Link) (pool : ConstantPool) : ConstantPool :=
  ⟨pool.constants.map (Constant.relink change)⟩

/-- The pool with member references of one and the same kind. -/
def unkinded : ConstantPool → ConstantPool :=
  relink fun link => (.field, link.2)

def unlinked : ConstantPool → ConstantPool :=
  relink fun _ => (.field, 0, 0)

section relink

variable (change : Constant.Link → Constant.Link) (pool : ConstantPool) (position : Nat)

theorem get_relink :
    (pool.relink change).get position = (pool.get position).map (Constant.relink change) := by
  simp only [get, relink, size, Array.getElem?_map, Array.size_map]
  cases pool.constants[position]? with
  | none => rfl
  | some constant => cases constant <;> rfl

theorem utf8_relink : (pool.relink change).utf8 position = pool.utf8 position := by
  simp only [utf8, get_relink]
  cases pool.get position with
  | error e => rfl
  | ok constant => cases constant <;> rfl

theorem className_relink : (pool.relink change).className position = pool.className position := by
  simp only [className, get_relink]
  cases pool.get position with
  | error e => rfl
  | ok constant =>
    cases constant with
    | classEntry name => exact utf8_relink change pool name
    | _ => rfl

theorem nameAndType_relink :
    (pool.relink change).nameAndType position = pool.nameAndType position := by
  simp only [nameAndType, get_relink]
  cases pool.get position with
  | error e => rfl
  | ok constant =>
    cases constant with
    | nameAndType name descriptor =>
      show (do return (← (pool.relink change).utf8 name, ← (pool.relink change).utf8 descriptor)) =
        (do return (← pool.utf8 name, ← pool.utf8 descriptor))
      rw [utf8_relink, utf8_relink]
    | _ => rfl

theorem literal_relink : (pool.relink change).literal position = pool.literal position := by
  simp only [literal, get_relink]
  cases pool.get position with
  | error e => rfl
  | ok constant =>
    cases constant with
    | string text =>
      show (do return Slot.of (.string (Utf8.lenient (← (pool.relink change).utf8 text)))) =
        (do return Slot.of (.string (Utf8.lenient (← pool.utf8 text))))
      rw [utf8_relink]
    | _ => rfl

theorem memberRef_unkinded :
    pool.unkinded.memberRef position =
      (pool.memberRef position).map fun member => { member with kind := .field } := by
  simp only [memberRef, unkinded, get_relink]
  cases pool.get position with
  | error e => rfl
  | ok constant =>
    cases constant with
    | member kind owner place =>
      show (do
          let className ← (pool.relink _).className owner
          let found ← (pool.relink _).nameAndType place
          return (⟨.field, className, found.1, found.2⟩ : MemberRef)) = Except.map _ (do
          let className ← pool.className owner
          let found ← pool.nameAndType place
          return (⟨kind, className, found.1, found.2⟩ : MemberRef))
      rw [className_relink, nameAndType_relink]
      cases pool.className owner with
      | error e => rfl
      | ok className => cases pool.nameAndType place <;> rfl
    | _ => rfl

end relink

end ConstantPool

/-- Instructions that look at a member reference. -/
def Opcode.refers : Opcode → Bool
  | getstatic | getfield | putfield | invokevirtual | invokespecial => true
  | _ => false

namespace Instruction

section relink

variable (change : Constant.Link → Constant.Link) (pool : ConstantPool) (operand : Nat)

theorem constant_relink : constant (pool.relink change) operand = constant pool operand := by
  simp only [constant, ConstantPool.literal_relink]

theorem wideConstant_relink :
    wideConstant (pool.relink change) operand = wideConstant pool operand := by
  simp only [wideConstant, ConstantPool.literal_relink, ConstantPool.get_relink]
  refine congrArg (position operand >>= ·) (funext fun place => ?_)
  cases pool.get place with
  | error e => rfl
  | ok found =>
    show (if (found.relink change).isWide then _ else _) = _
    rw [Constant.isWide_relink]
    rfl

theorem newObject_relink : newObject (pool.relink change) operand = newObject pool operand := by
  simp only [newObject, ConstantPool.className_relink]

/-- Other instructions do not look at member references. -/
theorem run_relink {opcode : Opcode} (hopcode : opcode.refers = false)
    (call : ResolvedMethod → List Slot → Run Unit) (depth pc : Nat) (frame : Frame) :
    run call depth (pool.relink change) pc opcode operand frame =
      run call depth pool pc opcode operand frame := by
  cases opcode with
  | ldc => simp only [run, constant_relink]
  | ldc2w => simp only [run, wideConstant_relink]
  | new => simp only [run, newObject_relink]
  | getstatic | getfield | putfield | invokevirtual | invokespecial => contradiction
  | _ => rfl

end relink

/-- What does not look at the kind of a reference is the same without it. -/
theorem memberRef_unkinded_bind {α : Type} (pool : ConstantPool) (operand : Nat)
    {next : MemberRef → Run α}
    (hnext : ∀ member, next { member with kind := .field } = next member) :
    memberRef pool.unkinded operand >>= next = memberRef pool operand >>= next := by
  simp only [memberRef, bind_assoc, ConstantPool.memberRef_unkinded]
  refine congrArg (position operand >>= ·) (funext fun place => ?_)
  cases pool.memberRef place with
  | error e => rfl
  | ok member => exact hnext member

/-- No instruction looks at the kind of a reference. -/
theorem run_unkinded (call : ResolvedMethod → List Slot → Run Unit) (depth : Nat)
    (pool : ConstantPool) (pc : Nat) (opcode : Opcode) (operand : Nat) (frame : Frame) :
    run call depth pool.unkinded pc opcode operand frame =
      run call depth pool pc opcode operand frame := by
  have hinvoke : invoke call pool.unkinded operand frame = invoke call pool operand frame :=
    memberRef_unkinded_bind pool operand fun _ => rfl
  cases opcode with
  | getstatic => exact memberRef_unkinded_bind pool operand fun _ => rfl
  | getfield => exact memberRef_unkinded_bind pool operand fun _ => rfl
  | putfield => exact memberRef_unkinded_bind pool operand fun _ => rfl
  | invokevirtual => simp only [run, hinvoke]
  | invokespecial => simp only [run, hinvoke]
  | _ => exact run_relink _ pool operand rfl call depth pc frame

end Instruction

namespace Machine

/-- A whole activation goes the same way whatever the kinds of the references. -/
theorem execute_unkinded (call : ResolvedMethod → List Slot → Run Unit) (depth : Nat)
    (pool : ConstantPool) (listing : Listing) (frame : Frame) :
    execute call depth pool.unkinded listing frame = execute call depth pool listing frame := by
  induction listing generalizing frame with
  | exhausted => rfl
  | truncated pc opcode => rfl
  | instruction pc opcode operand next ih => simp only [execute, Instruction.run_unkinded, ih]

end Machine

def ClassFile.unkinded (file : ClassFile) : ClassFile :=
  { file with pool := file.pool.unkinded }

theorem ClassFile.text?_unkinded (file : ClassFile) (position : Nat) :
    file.unkinded.text? position = file.text? position :=
  congrArg Except.toOption (ConstantPool.utf8_relink _ file.pool position)

theorem ClassFile.displayName_unkinded (file : ClassFile) :
    file.unkinded.displayName = file.displayName := by
  have hname : file.unkinded.name = file.name := ConstantPool.className_relink _ file.pool _
  simp only [displayName, hname]
  rfl

theorem Machine.runMethod_unkinded (depth : Nat) (file : ClassFile) (method : Method)
    (args : List Slot) :
    runMethod depth ⟨file.unkinded, method⟩ args = runMethod depth ⟨file, method⟩ args := by
  cases depth with
  | zero => rfl
  | succ depth =>
    have hpool : file.unkinded.pool = file.pool.unkinded := rfl
    simp only [runMethod, ClassFile.text?_unkinded, ClassFile.displayName_unkinded, hpool,
      execute_unkinded]

/-- Objects, console and all registered classes are as they were, with their states and static
fields. -/
structure Machine.Undisturbed (machine later : Machine) : Prop where
  heap : later.heap = machine.heap
  console : later.console = machine.console
  classes : ∀ name c, machine.table.get? name = some c → later.table.get? name = some c

namespace Machine.Undisturbed

theorem refl (machine : Machine) : machine.Undisturbed machine :=
  ⟨rfl, rfl, fun _ _ h => h⟩

theorem trans (first second third : Machine) (h : first.Undisturbed second)
    (hthird : second.Undisturbed third) : first.Undisturbed third where
  heap := hthird.heap.trans h.heap
  console := hthird.console.trans h.console
  classes name c hc := hthird.classes name c (h.classes name c hc)

theorem stack (machine : Machine) (stack : OperandStack) :
    machine.Undisturbed { machine with stack } :=
  ⟨rfl, rfl, fun _ _ h => h⟩

end Machine.Undisturbed

namespace Linking

/-- Finding a method adds a class at most. -/
theorem resolve_extends (className name descriptor : Bytes) :
    Within ClassTable.Extends (resolve className name descriptor) := by
  intro table
  have hload := load_extends className table
  simp only [resolve, EStateM.run_bind]
  cases hrun : (load className).run table with
  | error stop later =>
    rw [hrun] at hload
    exact hload
  | ok file later =>
    rw [hrun] at hload
    simp only [run_resolution]
    cases file.overload name descriptor <;> exact hload

/-- Finding a method does not use up any depth. -/
theorem fault_of_resolve {table later : ClassTable} {className name descriptor : Bytes}
    {stop : Stop} (hrun : (resolve className name descriptor).run table = .error stop later) :
    ∃ fault, stop = .fault fault := by
  have hresolution (file : ClassFile) (table : ClassTable) :
      (do
        let found ← resolution (file.overload name descriptor)
        return (⟨file, found.1⟩ : ResolvedMethod)).run table = .error stop later →
      ∃ fault, stop = .fault fault := by
    intro h
    simp only [EStateM.run_bind, run_resolution] at h
    cases hfound : file.overload name descriptor with
    | ok found => simp [hfound] at h
    | error e =>
      simp only [hfound, EStateM.Result.error.injEq] at h
      exact ⟨_, h.1.symm⟩
  rw [resolve, EStateM.run_bind, run_load] at hrun
  cases hget : table.get? className with
  | some c =>
    rw [hget] at hrun
    exact hresolution c.file table hrun
  | none =>
    rw [hget] at hrun
    cases hfetch : table.source.fetch className with
    | ok file =>
      rw [hfetch] at hrun
      exact hresolution file _ hrun
    | error fault =>
      rw [hfetch] at hrun
      exact ⟨fault, (EStateM.Result.error.inj hrun).1.symm⟩

theorem head?_of_resolve {table later : ClassTable} (htable : table.Built)
    {className name descriptor : Bytes} {target : ResolvedMethod}
    (hrun : (resolve className name descriptor).run table = .ok target later) :
    descriptor.head? = some Ascii.openParen := by
  have hlater := ((resolve_grows className name descriptor).ok hrun).built htable
  obtain ⟨registered, c, hget, hfile, hmethod⟩ := registered_of_resolve hrun
  obtain ⟨place, hfound⟩ := overload_of_resolve hrun
  obtain ⟨text, htext, hparse⟩ := (hlater registered c hget).signed target.method hmethod
  have hfits : target.file.fits name descriptor target.method = true := by
    have hmem := ClassFile.overload_eq_ok_iff.1 hfound
    exact (ClassFile.mem_fitting_iff.1 (hmem ▸ List.mem_singleton_self _)).2
  have hspelled : target.file.text? target.method.descriptor = some text := by
    rw [hfile, ClassFile.text?, htext]
    rfl
  simp only [ClassFile.fits, hspelled, Bool.and_eq_true, beq_iff_eq, Option.map_some,
    Option.some.injEq] at hfits
  obtain ⟨params, result, rfl, hclosed, -⟩ := MethodSignature.parse_iff_parts.1 hparse
  have hstart := hfits.2
  rw [MethodSignature.paramsText_of_parts hclosed] at hstart
  cases descriptor with
  | nil => contradiction
  | cons b rest =>
    rw [MethodSignature.paramsText, List.takeWhile_cons] at hstart
    split at hstart
    · exact congrArg some (List.cons.inj hstart).1.symm
    · contradiction

end Linking

namespace Instruction

/-- Before the method runs, a call takes its arguments and adds a class at most. -/
theorem calling_undisturbed (pool : ConstantPool) (operand : Nat) (frame : Frame) :
    Within Machine.Undisturbed (calling pool operand frame) := by
  have hinward {α : Type} {work : Run α} (h : Run.Plain false work) :
      Within Machine.Undisturbed work :=
    h.within_of_inward .refl .trans .stack
  have hresolve (className name descriptor : Bytes) :
      Within Machine.Undisturbed (Run.link (Linking.resolve className name descriptor)) := by
    intro machine
    have hextends := Linking.resolve_extends className name descriptor machine.table
    rw [Run.run_link]
    cases hrun : (Linking.resolve className name descriptor).run machine.table <;>
      rw [hrun] at hextends <;> exact ⟨rfl, rfl, hextends.kept⟩
  apply (hinward (.still (.memberRef pool operand))).bind .trans
  intro member
  apply (hresolve _ _ _).bind .trans
  intro target
  exact (hinward (.popMany _ frame [])).bind .trans fun _ => within_pure .refl _

/-- The arguments come off the values that the activation owns, and none of those below is touched.
Where the method is not found all values stay; if there are too few, those of the activation are
gone. -/
inductive TakesOwn (frame : Frame) (own below : OperandStack) :
    EStateM.Result Stop Machine (ResolvedMethod × List Slot × Frame) → Prop
  | takes {target : ResolvedMethod} {args : List Slot} {kept : OperandStack} {later : Machine} :
    args.length = argumentCount target.method → own.slots = args.reverse ++ kept.slots →
    later.stack = kept.onto below →
    TakesOwn frame own below (.ok (target, args, { frame with owned := kept.size }) later)
  | fails {stop : Stop} {later : Machine} :
    later.stack = own.onto below ∨ later.stack = below → TakesOwn frame own below (.error stop later)

theorem calling_takesOwn (pool : ConstantPool) (operand : Nat) {frame : Frame}
    {own below : OperandStack} {machine : Machine} (h : frame.Stands own below machine) :
    TakesOwn frame own below ((calling pool operand frame).run machine) := by
  have hmember := (Run.Still.memberRef pool operand).unchanged
  simp only [calling, EStateM.run_bind]
  cases hfound : (memberRef pool operand).run machine with
  | error stop later =>
    obtain rfl := hmember.error hfound
    exact .fails (.inl h.stack)
  | ok member later =>
    obtain rfl := hmember.ok hfound
    simp only [Run.run_link]
    cases (Linking.resolve member.className member.name member.descriptor).run machine.table with
    | error stop table => exact .fails (.inl h.stack)
    | ok target table =>
      have hstands : frame.Stands own below { machine with table } := ⟨h.stack, h.owned⟩
      by_cases hle : argumentCount target.method ≤ frame.owned
      · obtain ⟨args, kept, hlength, hslots, hrun⟩ := hstands.run_popMany hle []
        simp only [hrun, List.append_nil]
        exact .takes hlength hslots rfl
      · simp only [hstands.run_popMany_underflow (Nat.lt_of_not_le hle) []]
        exact .fails (.inr rfl)

theorem run_invoke_of_head? (call : ResolvedMethod → List Slot → Run Unit) {machine : Machine}
    (htable : machine.table.Built) {pool : ConstantPool} {place : Nat} {member : MemberRef}
    (hmember : pool.memberRef place = .ok member)
    (hdescriptor : member.descriptor.head? ≠ some Ascii.openParen) (frame : Frame) :
    ∃ fault table, machine.table.Extends table ∧
      (invoke call pool (place + 1) frame).run machine =
        .error (.fault fault) { machine with table } := by
  have hread := run_memberRef hmember machine
  have hextends := Linking.resolve_extends member.className member.name member.descriptor
    machine.table
  simp only [invoke, EStateM.run_bind, hread, Run.run_link]
  cases hrun : (Linking.resolve member.className member.name member.descriptor).run
      machine.table with
  | ok target table => exact absurd (Linking.head?_of_resolve htable hrun) hdescriptor
  | error stop table =>
    rw [hrun] at hextends
    obtain ⟨fault, rfl⟩ := Linking.fault_of_resolve hrun
    exact ⟨fault, table, hextends, rfl⟩

/-- What is done with a member reference goes by the instruction and never by the kind: every
instruction, and so every method, does the same with references of other kinds. Only the five
instructions for members look at references at all. Those for fields call no method; those that call
one leave all objects and classes as they are until the method runs, take its arguments off the
values of their activation, and do not come to that with a descriptor that does not begin like one of
a method. -/
theorem use_of_references :
    (∀ pool other, ConstantPool.unkinded pool = ConstantPool.unkinded other →
      ∀ call depth pc opcode operand frame,
        run call depth pool pc opcode operand frame =
          run call depth other pc opcode operand frame) ∧
    (∀ file other, ClassFile.unkinded file = ClassFile.unkinded other → ∀ depth method args,
      Machine.runMethod depth ⟨file, method⟩ args =
        Machine.runMethod depth ⟨other, method⟩ args) ∧
    (∀ pool other, ConstantPool.unlinked pool = ConstantPool.unlinked other →
      ∀ opcode, opcode.refers = false → ∀ call depth pc operand frame,
        run call depth pool pc opcode operand frame =
          run call depth other pc opcode operand frame) ∧
    (∀ opcode, opcode ≠ .invokevirtual → opcode ≠ .invokespecial →
      ∀ call twin depth pool pc operand frame,
        run call depth pool pc opcode operand frame =
          run twin depth pool pc opcode operand frame) ∧
    ∀ opcode, opcode = .invokevirtual ∨ opcode = .invokespecial → ∀ pool frame,
      (∀ operand, Within Machine.Undisturbed (calling pool operand frame) ∧
        (∀ own below machine, frame.Stands own below machine →
          TakesOwn frame own below ((calling pool operand frame).run machine)) ∧
        ∀ call depth pc,
          run call depth pool pc opcode operand frame =
            calling pool operand frame >>= fun (target, args, rest) =>
              some <$> complete call target args rest) ∧
      ∀ machine, machine.table.Built → ∀ place member, pool.memberRef place = .ok member →
        member.descriptor.head? ≠ some Ascii.openParen → ∀ call depth pc,
          ∃ fault table, machine.table.Extends table ∧
            (run call depth pool pc opcode (place + 1) frame).run machine =
              .error (.fault fault) { machine with table } := by
  refine ⟨?_, ?_, ?_, ?_, ?_⟩
  · intro pool other hkinds call depth pc opcode operand frame
    rw [← run_unkinded, hkinds, run_unkinded]
  · intro file other hkinds depth method args
    rw [← Machine.runMethod_unkinded, hkinds, Machine.runMethod_unkinded]
  · intro pool other hlinks opcode hopcode call depth pc operand frame
    rw [← run_relink _ pool operand hopcode, ← run_relink _ other operand hopcode]
    exact congrArg (run call depth · pc opcode operand frame) hlinks
  · intro opcode hvirtual hspecial call twin depth pool pc operand frame
    cases opcode <;> first | rfl | contradiction
  · intro opcode hopcode pool frame
    refine ⟨fun operand => ⟨calling_undisturbed pool operand frame,
      fun _ _ _ => calling_takesOwn pool operand, fun call depth pc => ?_⟩, ?_⟩
    · rw [run_call depth pool pc hopcode, invoke_eq, map_bind]
    · intro machine htable place member hmember hdescriptor call depth pc
      obtain ⟨fault, table, hextends, hrun⟩ :=
        run_invoke_of_head? call htable hmember hdescriptor frame
      refine ⟨fault, table, hextends, ?_⟩
      rw [run_call depth pool pc hopcode, run_map, hrun]

/-- A class with a field, which one of its methods reads by a reference to a method, and with a
method that another one calls by a reference to a field. -/
def crossedBytes : Bytes :=
  [0xca, 0xfe, 0xba, 0xbe, 0x00, 0x00, 0x00, 0x34, 0x00, 0x12, 0x01, 0x00, 0x04, 0x4d, 0x61, 0x69,
    0x6e, 0x07, 0x00, 0x01, 0x01, 0x00, 0x10, 0x6a, 0x61, 0x76, 0x61, 0x2f, 0x6c, 0x61, 0x6e, 0x67,
    0x2f, 0x4f, 0x62, 0x6a, 0x65, 0x63, 0x74, 0x07, 0x00, 0x03, 0x03, 0x00, 0x00, 0x00, 0x07, 0x01,
    0x00, 0x01, 0x78, 0x01, 0x00, 0x01, 0x49, 0x0c, 0x00, 0x06, 0x00, 0x07, 0x0a, 0x00, 0x02, 0x00,
    0x08, 0x01, 0x00, 0x03, 0x6f, 0x6e, 0x65, 0x01, 0x00, 0x14, 0x28, 0x29, 0x4c, 0x6a, 0x61, 0x76,
    0x61, 0x2f, 0x6c, 0x61, 0x6e, 0x67, 0x2f, 0x4f, 0x62, 0x6a, 0x65, 0x63, 0x74, 0x3b, 0x0c, 0x00,
    0x0a, 0x00, 0x0b, 0x09, 0x00, 0x02, 0x00, 0x0c, 0x01, 0x00, 0x0d, 0x43, 0x6f, 0x6e, 0x73, 0x74,
    0x61, 0x6e, 0x74, 0x56, 0x61, 0x6c, 0x75, 0x65, 0x01, 0x00, 0x04, 0x43, 0x6f, 0x64, 0x65, 0x01,
    0x00, 0x04, 0x72, 0x65, 0x61, 0x64, 0x01, 0x00, 0x05, 0x73, 0x74, 0x61, 0x72, 0x74, 0x00, 0x21,
    0x00, 0x02, 0x00, 0x04, 0x00, 0x00, 0x00, 0x01, 0x00, 0x01, 0x00, 0x06, 0x00, 0x07, 0x00, 0x01,
    0x00, 0x0e, 0x00, 0x00, 0x00, 0x02, 0x00, 0x05, 0x00, 0x03, 0x00, 0x09, 0x00, 0x0a, 0x00, 0x0b,
    0x00, 0x01, 0x00, 0x0f, 0x00, 0x00, 0x00, 0x0e, 0x00, 0x01, 0x00, 0x00, 0x00, 0x00, 0x00, 0x02,
    0x04, 0xb0, 0x00, 0x00, 0x00, 0x00, 0x00, 0x09, 0x00, 0x10, 0x00, 0x0b, 0x00, 0x01, 0x00, 0x0f,
    0x00, 0x00, 0x00, 0x13, 0x00, 0x01, 0x00, 0x00, 0x00, 0x00, 0x00, 0x07, 0xbb, 0x00, 0x02, 0xb4,
    0x00, 0x09, 0xb0, 0x00, 0x00, 0x00, 0x00, 0x00, 0x09, 0x00, 0x11, 0x00, 0x0b, 0x00, 0x01, 0x00,
    0x0f, 0x00, 0x00, 0x00, 0x10, 0x00, 0x01, 0x00, 0x00, 0x00, 0x00, 0x00, 0x04, 0xb6, 0x00, 0x0d,
    0xb0, 0x00, 0x00, 0x00, 0x00, 0x00, 0x00]

def crossedPool : ConstantPool :=
  match ClassFile.parseChecked crossedBytes with
  | .ok file => file.pool
  | .error _ => .empty

def crossedMachine : Machine :=
  final ((Run.link (Linking.define crossedBytes)).run (Bootstrap.machine .none {}))

def crossedObject : Machine :=
  final ((newObject crossedPool 2 >>= Run.push).run crossedMachine)

/-- The reference to a field that names a method. -/
def crossedCall : MemberRef where
  kind := .field
  className := Utf8.encode "Main"
  name := Utf8.encode "one"
  descriptor := Utf8.encode "()Ljava/lang/Object;"

theorem exists_crossedPool :
    ∃ file, ClassFile.parseChecked crossedBytes = .ok file ∧ file.pool = crossedPool := by
  have hok : (ClassFile.parseChecked crossedBytes).isOk = true := by decide +kernel
  cases hparse : ClassFile.parseChecked crossedBytes with
  | error e => simp [hparse, Except.isOk, Except.toBool] at hok
  | ok file => exact ⟨file, rfl, by rw [crossedPool, hparse]⟩

/-- The reference to a method that names a field. -/
def crossedField : MemberRef where
  kind := .method
  className := Utf8.encode "Main"
  name := Utf8.encode "x"
  descriptor := Utf8.encode "I"

theorem crossedMachine_built : crossedMachine.table.Built := by
  have hgrows := Linking.define_grows crossedBytes (Bootstrap.machine .none {}).table
  have htable : crossedMachine.table =
      final ((Linking.define crossedBytes).run (Bootstrap.machine .none {}).table) := by
    rw [crossedMachine, Run.run_link]
    cases (Linking.define crossedBytes).run (Bootstrap.machine .none {}).table <;> rfl
  exact htable ▸ hgrows.built (Bootstrap.machine_built .none {} Heap.spaced)

def crossedMethod : Method where
  flags := ⟨AccessFlags.staticBit⟩
  name := 0
  descriptor := 0
  attributes := [.code ⟨1, 0, [0x04, 0xb1], [], []⟩]
  signature := ⟨[], .void⟩
  body := .bytecode

theorem use_of_references_crossed :
    let pool := crossedPool.relink fun link => (.interfaceMethod, link.2)
    let file : ClassFile := { pool := crossedPool, thisClass := 0 }
    pool ≠ crossedPool ∧ pool.unkinded = crossedPool.unkinded ∧
      run (Machine.runMethod 1) 1 pool 3 .getfield 9 ⟨[], 1⟩ =
        run (Machine.runMethod 1) 1 crossedPool 3 .getfield 9 ⟨[], 1⟩ ∧
      Machine.runMethod 1 ⟨{ file with pool }, crossedMethod⟩ [] =
        Machine.runMethod 1 ⟨file, crossedMethod⟩ [] ∧
      run (Machine.runMethod 1) 1 crossedPool.unlinked 0 .ldc 5 ⟨[], 0⟩ =
        run (Machine.runMethod 1) 1 crossedPool 0 .ldc 5 ⟨[], 0⟩ ∧
      run (Machine.runMethod 1) 1 crossedPool 3 .getfield 9 ⟨[], 1⟩ =
        run (Machine.runMethod 0) 1 crossedPool 3 .getfield 9 ⟨[], 1⟩ ∧
      Within Machine.Undisturbed (calling crossedPool 13 ⟨[], 0⟩) ∧
      crossedMachine.table.Built ∧ crossedPool.memberRef 8 = .ok crossedField ∧
      ∃ fault table, crossedMachine.table.Extends table ∧
        (run (Machine.runMethod 1) 1 crossedPool 0 .invokevirtual 9 ⟨[], 0⟩).run crossedMachine =
          .error (.fault fault) { crossedMachine with table } := by
  intro pool file
  obtain ⟨hkinds, hmethods, hlinks, hcalls, hinvoke⟩ := use_of_references
  have hne : pool ≠ crossedPool := by decide +kernel
  have hsame : pool.unkinded = crossedPool.unkinded := by decide +kernel
  have hunlinked : crossedPool.unlinked.unlinked = crossedPool.unlinked := by decide +kernel
  have hfiles : ClassFile.unkinded { file with pool } = file.unkinded :=
    congrArg (fun pool => { file with pool }) hsame
  have hmember : crossedPool.memberRef 8 = .ok crossedField := by decide +kernel
  obtain ⟨hspares, hfails⟩ := hinvoke .invokevirtual (.inl rfl) crossedPool ⟨[], 0⟩
  exact ⟨hne, hsame, hkinds _ _ hsame _ _ _ _ _ _, hmethods _ _ hfiles _ _ _,
    hlinks _ _ hunlinked .ldc rfl _ _ _ _ _, hcalls .getfield (by decide) (by decide) _ _ _ _ _ _ _,
    (hspares 13).1, crossedMachine_built, hmember,
    hfails _ crossedMachine_built 8 _ hmember (by decide) _ _ _⟩

/-- A valid class reads a field by a reference to a method, and calls a method by a reference to a
field. -/
theorem exists_crossed_use :
    (∃ file, ClassFile.parseChecked crossedBytes = .ok file ∧ file.pool = crossedPool) ∧
      (crossedPool.memberRef 8).map MemberRef.kind = .ok .method ∧
      crossedPool.memberRef 12 = .ok crossedCall ∧ crossedCall.kind = .field ∧
      (∃ later, (run (Machine.runMethod 1) 1 crossedPool 3 .getfield 9 ⟨[], 1⟩).run crossedObject =
        .ok (some ⟨[], 1⟩) later ∧ later.stack.slots = [.int 7]) ∧
      ∃ later, (run (Machine.runMethod 1) 1 crossedPool 0 .invokevirtual 13 ⟨[], 0⟩).run
        crossedMachine = .ok (some ⟨[], 1⟩) later ∧ later.stack.slots = [.int 1] := by
  refine ⟨exists_crossedPool, by decide +kernel, by decide +kernel, rfl, ?_, ?_⟩
  · exact exists_of_outcome (by decide +kernel)
  · exact exists_of_outcome (by decide +kernel)

end Instruction

end ClassMachine
