import ClassMachine.Proofs.ClassFile.Coverage
import ClassMachine.Proofs.ClassFile.Slots
import ClassMachine.Proofs.ClassTable.Initialization

/-!
# What can be relied on after a class file has been checked

The accessors of the constant pool answer wherever there is a constant of their kind, and an error
is about the position that was asked for, not about one that a reference leads to. Names, initial
values and new objects of the class are therefore always there. The initialization of the class can
only fail because it has failed before, or because of the superclass.
-/

namespace ClassMachine

open Work

def StructuralError.position? : StructuralError → Option Nat
  | poolIndexOutOfRange position _ | emptyPoolSlot position | unexpectedConstant position _ =>
    some position
  | _ => none

namespace Constant

def isClassEntry : Constant → Bool
  | classEntry _ => true
  | _ => false

def isMember : Constant → Bool
  | member .. => true
  | _ => false

def isLiteral : Constant → Bool
  | integer _ | long _ | float _ | double _ | string _ => true
  | _ => false

end Constant

namespace ConstantPool

variable {pool : ConstantPool} {α : Type}

/-- The accessor answers exactly at the constants of the kind, and an error is about the position
itself. -/
structure Serves (pool : ConstantPool) (kind : Constant → Bool)
    (access : Nat → Except StructuralError α) : Prop where
  ok_iff : ∀ position, (∃ a, access position = .ok a) ↔
    ∃ constant, pool.constants[position]? = some constant ∧ kind constant = true
  blames : ∀ position e, access position = .error e → e.position? = some position

theorem position?_of_get {position : Nat} {e : StructuralError}
    (h : pool.get position = .error e) : e.position? = some position := by
  unfold get at h
  split at h <;> cases h <;> rfl

/-- An accessor serves a kind if it gives what the check has seen to be there, and refuses constants
of other kinds. -/
theorem serves_of_check {kind : Constant → Bool} {access : Nat → Except StructuralError α}
    {next : Nat → Constant → Except StructuralError α} (hcheck : pool.check = .ok ())
    (haccess : ∀ position, access position = pool.get position >>= next position)
    (hkind : ∀ position constant, kind constant = true → pool.Opens position constant →
      ∃ a, access position = .ok a)
    (hother : ∀ position constant, kind constant = false →
      ∃ expected, next position constant = .error (.unexpectedConstant position expected)) :
    pool.Serves kind access where
  ok_iff position := by
    constructor
    · rintro ⟨a, ha⟩
      rw [haccess, bind_eq_ok_iff] at ha
      obtain ⟨constant, hget, ha⟩ := ha
      refine ⟨constant, (get_eq_ok_iff.1 hget).1, ?_⟩
      by_contra hnot
      obtain ⟨expected, herror⟩ := hother position constant (Bool.eq_false_iff.2 hnot)
      exact nomatch herror.symm.trans ha
    · rintro ⟨constant, hconstant, h⟩
      exact hkind position constant h (opens_of_check hcheck hconstant)
  blames position e he := by
    cases hget : pool.get position with
    | error found =>
      rw [haccess, hget] at he
      obtain rfl := Except.error.inj he
      exact position?_of_get hget
    | ok constant =>
      have hconstant := (get_eq_ok_iff.1 hget).1
      cases h : kind constant with
      | true =>
        obtain ⟨a, ha⟩ := hkind position constant h (opens_of_check hcheck hconstant)
        exact nomatch ha.symm.trans he
      | false =>
        obtain ⟨expected, herror⟩ := hother position constant h
        rw [haccess, hget] at he
        obtain rfl := Except.error.inj (herror.symm.trans he)
        rfl

theorem className_serves (hcheck : pool.check = .ok ()) :
    pool.Serves Constant.isClassEntry pool.className := by
  refine serves_of_check hcheck (fun _ => rfl) (fun position constant hkind hopens => ?_)
    fun position constant hkind => ?_
  · cases constant <;> first | contradiction | exact hopens
  · cases constant <;> first | contradiction | exact ⟨_, rfl⟩

theorem memberRef_serves (hcheck : pool.check = .ok ()) :
    pool.Serves Constant.isMember pool.memberRef := by
  refine serves_of_check hcheck (fun _ => rfl) (fun position constant hkind hopens => ?_)
    fun position constant hkind => ?_
  · cases constant <;> first | contradiction | exact hopens
  · cases constant <;> first | contradiction | exact ⟨_, rfl⟩

theorem literal_serves (hcheck : pool.check = .ok ()) :
    pool.Serves Constant.isLiteral pool.literal := by
  refine serves_of_check hcheck (fun _ => rfl) (fun position constant hkind hopens => ?_)
    fun position constant hkind => ?_
  · cases constant <;> first | contradiction | exact hopens
  · cases constant <;> first | contradiction | exact ⟨_, rfl⟩

end ConstantPool

namespace ClassFile

/-- Everything that is looked up in the class file is there. -/
structure Reliable (file : ClassFile) : Prop where
  classNames : file.pool.Serves Constant.isClassEntry file.pool.className
  memberRefs : file.pool.Serves Constant.isMember file.pool.memberRef
  literals : file.pool.Serves Constant.isLiteral file.pool.literal
  name : ∃ name, file.name = .ok name
  superName : ∃ super, file.superName = .ok super
  methods : ∀ method ∈ file.methods, (∃ name, file.pool.utf8 method.name = .ok name) ∧
    ∃ descriptor, file.pool.utf8 method.descriptor = .ok descriptor
  initialValues : ∀ field ∈ file.fields, ∃ value, file.initialValue field = .ok value
  newInstance : ∃ fields, file.newInstance = .ok fields
  statics : ∀ statics, ∃ filled,
    (file.fillStatics file.staticFields).run statics = .ok () filled

variable {file : ClassFile}

theorem reliable_of_check {content : Bytes} (hparse : parse content = .ok file)
    (hcheck : file.check = .ok ()) : file.Reliable := by
  obtain ⟨hpool, hname, -, -, -, -, hmethods⟩ := check_eq_ok_iff_steps.1 hcheck
  exact {
    classNames := ConstantPool.className_serves hpool
    memberRefs := ConstantPool.memberRef_serves hpool
    literals := ConstantPool.literal_serves hpool
    name := ConstantPool.exists_className_iff.2 hname
    superName := superName_of_check hcheck
    methods := by
      intro method hmethod
      obtain ⟨hmethodName, -⟩ := (checkMethod_eq_ok_iff method).1 (hmethods method hmethod)
      exact ⟨ConstantPool.exists_utf8_iff.2 hmethodName,
        ConstantPool.exists_utf8_iff.2 (descriptor_of_parse hparse hmethod)⟩
    initialValues := fun _ => initialValue_of_check hcheck
    newInstance := (exists_newInstance hcheck).imp fun _ h => h.1
    statics := fun statics => ⟨_, run_fillStatics_staticFields hcheck statics⟩ }

end ClassFile

namespace Linking

/-- Why the initialization of a class that has been checked fails: the class has failed before, or
the superclass could not be loaded or initialized. Other classes need not have been checked. -/
theorem fault_of_initClass {depth : Nat} {name : Bytes} {table later : ClassTable}
    {c : LoadedClass} {fault : Fault} (hget : table.get? name = some c)
    (hcheck : c.file.check = .ok ())
    (hrun : (initClass depth name).run table = .error (.fault fault) later) :
    c.state = .failed ∧ fault = .noClassDefFound c.file.displayName ∨
      c.state = .verified ∧ ∃ cause, fault = .superclass c.file.displayName cause := by
  cases depth with
  | zero => exact nomatch hrun
  | succ depth =>
    cases hstate : c.state with
    | done =>
      rw [run_initClass_settled hget (.inl hstate)] at hrun
      contradiction
    | inProgress =>
      rw [run_initClass_settled hget (.inr hstate)] at hrun
      contradiction
    | failed =>
      rw [run_initClass_failed hget hstate] at hrun
      cases hrun
      exact .inl ⟨rfl, rfl⟩
    | verified =>
      rw [run_initClass_verified hget hstate] at hrun
      have hgrows := (ClassTable.grows_setState table name .inProgress).trans _ _ _
        (withSuperclass_grows depth c.file (table.setState name .inProgress))
      cases hsuper : (withSuperclass c.file (initClass depth)).run
          (table.setState name .inProgress) with
      | error stop middle =>
        rw [hsuper] at hrun
        cases stop with
        | tooDeep => exact nomatch hrun
        | fault cause =>
          cases hrun
          exact .inr ⟨rfl, cause, rfl⟩
      | ok _ middle =>
        -- The class is still there with its file, and filling in its statics cannot fail.
        rw [hsuper] at hgrows
        obtain ⟨d, hd, hfile⟩ : ∃ d, middle.get? name = some d ∧ d.file = c.file :=
          hgrows.kept name c hget
        have hprepare := run_prepareStatics hd (hfile ▸ hcheck)
        rw [hsuper] at hrun
        simp only [hprepare] at hrun
        contradiction

end Linking

namespace ClassFile

/-- In a class file that has been read and checked everything that is looked up is there, and in any
table that holds the class its initialization can only fail for one of two reasons. -/
theorem reliable_of_parseChecked {content : Bytes} {file : ClassFile}
    (h : parseChecked content = .ok file) :
    file.Reliable ∧ ∀ (table : ClassTable) (name : Bytes) (c : LoadedClass),
      table.get? name = some c → c.file = file → ∀ depth fault later,
        (Linking.initClass depth name).run table = .error (.fault fault) later →
          c.state = .failed ∧ fault = .noClassDefFound file.displayName ∨
            c.state = .verified ∧ ∃ cause, fault = .superclass file.displayName cause := by
  obtain ⟨hparse, hcheck⟩ := (parseChecked_eq_ok_iff content file).1 h
  refine ⟨reliable_of_check hparse hcheck, ?_⟩
  rintro table name c hget rfl depth fault later hrun
  exact Linking.fault_of_initClass hget hcheck hrun

/-- A class A with a superclass B and a static field that starts with 42. -/
def constantBytes : Bytes :=
  [0xca, 0xfe, 0xba, 0xbe, 0x00, 0x00, 0x00, 0x34, 0x00, 0x09, 0x01, 0x00, 0x01, 0x41, 0x07, 0x00,
    0x01, 0x01, 0x00, 0x01, 0x42, 0x07, 0x00, 0x03, 0x01, 0x00, 0x01, 0x66, 0x01, 0x00, 0x01, 0x49,
    0x01, 0x00, 0x0d, 0x43, 0x6f, 0x6e, 0x73, 0x74, 0x61, 0x6e, 0x74, 0x56, 0x61, 0x6c, 0x75, 0x65,
    0x03, 0x00, 0x00, 0x00, 0x2a, 0x00, 0x21, 0x00, 0x02, 0x00, 0x04, 0x00, 0x00, 0x00, 0x01, 0x00,
    0x08, 0x00, 0x05, 0x00, 0x06, 0x00, 0x01, 0x00, 0x07, 0x00, 0x00, 0x00, 0x02, 0x00, 0x08, 0x00,
    0x00, 0x00, 0x00]

def constantFile : ClassFile where
  majorVersion := 52
  pool := ⟨#[.utf8 [65], .classEntry 0, .utf8 [66], .classEntry 2, .utf8 [102],
    .utf8 [73], .utf8 (Utf8.encode "ConstantValue"), .integer 42]⟩
  flags := ⟨0x21⟩
  thisClass := 1
  superClass := some 3
  fields := [
    { flags := ⟨8⟩, name := 4, descriptor := 5, attributes := [.plain (.constantValue 7)] }]

theorem parseChecked_constant : parseChecked constantBytes = .ok constantFile :=
  Bootstrap.eq_ok_of_answers (by decide +kernel)

def constantTable : ClassTable where
  classes := NameMap.empty.insert [65] { file := constantFile }

theorem run_initClass_constantTable : ∃ later,
    (Linking.initClass 1 [65]).run constantTable =
      .error (.fault (.superclass "A" (.resolution (.classNotFound "B")))) later :=
  ⟨_, rfl⟩

theorem reliable_of_parseChecked_constant :
    constantFile.Reliable ∧ ∃ fault later,
      (Linking.initClass 1 [65]).run constantTable = .error (.fault fault) later ∧
        ∃ cause, fault = .superclass constantFile.displayName cause := by
  obtain ⟨hreliable, hinit⟩ := reliable_of_parseChecked parseChecked_constant
  obtain ⟨later, hrun⟩ := run_initClass_constantTable
  refine ⟨hreliable, _, later, hrun, ?_⟩
  rcases hinit constantTable [65] { file := constantFile } rfl rfl 1 _ later hrun with
    ⟨hfailed, -⟩ | ⟨-, hcause⟩
  · contradiction
  · exact hcause

end ClassFile

end ClassMachine
