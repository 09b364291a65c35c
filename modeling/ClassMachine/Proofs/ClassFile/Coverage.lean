import ClassMachine.Proofs.ClassFile.Exactness
import ClassMachine.Proofs.Native.Installed
import ClassMachine.Proofs.Pool.References

/-!
# What the check of a class file covers

A class file holds positions in its constant pool all over: for its name and those of the classes
above it, in fields and methods, and in attributes, also within code. Reading and checking together
look at each of them, the types of exceptions excepted. A class file is therefore accepted exactly
if it can be read, its pool is accepted, and these positions hold what they should.
-/

namespace ClassMachine

open Work

namespace PlainAttribute

/-- What the attribute refers to is there, and is of the right kind. -/
def RefersRightly (pool : ConstantPool) : PlainAttribute → Prop
  | sourceFile position | signature position => pool.HoldsText position
  | constantValue position => pool.HoldsLiteral position
  | lineNumberTable _ | raw _ _ => True

end PlainAttribute

namespace Attribute

def RefersRightly (pool : ConstantPool) : Attribute → Prop
  | plain content => content.RefersRightly pool
  | code content => ∀ held ∈ content.attributes, held.RefersRightly pool

/-- The type of each exception that code handles is a class, or is left open. -/
def CatchesClasses (pool : ConstantPool) : Attribute → Prop
  | plain _ => True
  | code content => ∀ range ∈ content.exceptions,
      range.catchType = 0 ∨ pool.HoldsClass (range.catchType.toNat - 1)

end Attribute

namespace ClassFile

def everyAttribute (file : ClassFile) : List Attribute :=
  file.attributes ++ file.fields.flatMap (·.attributes) ++ file.methods.flatMap (·.attributes)

/-- Every position that the class file holds has what it should, but for types of exceptions. -/
structure Covered (file : ClassFile) : Prop where
  name : file.pool.NamesClass file.thisClass
  super : ∀ position, file.superClass = some position → file.pool.NamesClass position
  interfaces : ∀ position ∈ file.interfaces, file.pool.NamesClass position
  fields : ∀ field ∈ file.fields,
    file.pool.HoldsText field.name ∧ file.pool.HoldsText field.descriptor
  methods : ∀ method ∈ file.methods,
    file.pool.HoldsText method.name ∧ file.pool.HoldsText method.descriptor
  attributes : ∀ held ∈ file.everyAttribute, held.RefersRightly file.pool

variable {pool : ConstantPool} {file : ClassFile}

theorem discard_utf8_iff {position : Nat} :
    discard (pool.utf8 position) = .ok () ↔ pool.HoldsText position := by
  rw [discard_eq_ok_iff, ConstantPool.exists_utf8_iff]

theorem discard_className_iff {position : Nat} :
    discard (pool.className position) = .ok () ↔ pool.NamesClass position := by
  rw [discard_eq_ok_iff, ConstantPool.exists_className_iff]

theorem checkPlainAttribute_eq_ok_iff (content : PlainAttribute) :
    checkPlainAttribute pool content = .ok () ↔ content.RefersRightly pool := by
  cases content with
  | sourceFile position => exact discard_utf8_iff
  | signature position => exact discard_utf8_iff
  | constantValue position =>
    exact (discard_eq_ok_iff _).trans ConstantPool.exists_literal_iff
  | lineNumberTable lines => exact iff_of_true rfl trivial
  | raw name content => exact iff_of_true rfl trivial

theorem checkAttribute_eq_ok_iff (held : Attribute) :
    checkAttribute pool held = .ok () ↔ held.RefersRightly pool := by
  cases held with
  | plain content => exact checkPlainAttribute_eq_ok_iff content
  | code content =>
    simp only [checkAttribute, forM_eq_ok_iff, checkPlainAttribute_eq_ok_iff,
      Attribute.RefersRightly]

theorem checkField_eq_ok_iff (field : Field) :
    checkField pool field = .ok () ↔
      (pool.HoldsText field.name ∧ pool.HoldsText field.descriptor) ∧
        ∀ held ∈ field.attributes, held.RefersRightly pool := by
  simp only [checkField, check_bind_eq_ok_iff, forM_eq_ok_iff, checkAttribute_eq_ok_iff,
    discard_utf8_iff, and_assoc]

theorem checkMethod_eq_ok_iff (method : Method) :
    checkMethod pool method = .ok () ↔
      pool.HoldsText method.name ∧ ∀ held ∈ method.attributes, held.RefersRightly pool := by
  simp only [checkMethod, check_bind_eq_ok_iff, forM_eq_ok_iff, checkAttribute_eq_ok_iff,
    discard_utf8_iff]

theorem descriptor_of_parse {content : Bytes} (h : parse content = .ok file) {method : Method}
    (hmethod : method ∈ file.methods) : file.pool.HoldsText method.descriptor := by
  obtain ⟨bytes, ⟨text, htext, -⟩, -⟩ := layout_of_mem_methods h hmethod
  exact ⟨text, htext⟩

theorem check_eq_ok_iff_steps :
    file.check = .ok () ↔ file.pool.check = .ok () ∧ file.pool.NamesClass file.thisClass ∧
      (∀ position, file.superClass = some position → file.pool.NamesClass position) ∧
      (∀ position ∈ file.interfaces, file.pool.NamesClass position) ∧
      (∀ held ∈ file.attributes, held.RefersRightly file.pool) ∧
      (∀ field ∈ file.fields, checkField file.pool field = .ok ()) ∧
      ∀ method ∈ file.methods, checkMethod file.pool method = .ok () := by
  simp only [check, check_bind_eq_ok_iff, forM_eq_ok_iff, discard_className_iff,
    checkAttribute_eq_ok_iff, Option.mem_toList]

theorem forall_mem_everyAttribute {p : Attribute → Prop} :
    (∀ held ∈ file.everyAttribute, p held) ↔ (∀ held ∈ file.attributes, p held) ∧
      (∀ field ∈ file.fields, ∀ held ∈ field.attributes, p held) ∧
      ∀ method ∈ file.methods, ∀ held ∈ method.attributes, p held := by
  simp only [everyAttribute, List.forall_mem_append, List.forall_mem_flatMap, and_assoc]

/-- A class file that can be read is accepted if its pool is and if it covers its positions. -/
theorem parse_check_iff_covered (content : Bytes) (file : ClassFile) :
    parse content = .ok file ∧ file.check = .ok () ↔
      parse content = .ok file ∧ file.pool.check = .ok () ∧ file.Covered := by
  refine and_congr_right fun hparse => check_eq_ok_iff_steps.trans (and_congr_right fun _ => ?_)
  simp only [checkField_eq_ok_iff, checkMethod_eq_ok_iff]
  constructor
  · rintro ⟨hname, hsuper, hinterfaces, hown, hfields, hmethods⟩
    exact {
      name := hname
      super := hsuper
      interfaces := hinterfaces
      fields := fun field hfield => (hfields field hfield).1
      methods := fun method hmethod =>
        ⟨(hmethods method hmethod).1, descriptor_of_parse hparse hmethod⟩
      attributes := forall_mem_everyAttribute.2 ⟨hown,
        fun field hfield => (hfields field hfield).2,
        fun method hmethod => (hmethods method hmethod).2⟩ }
  · intro h
    obtain ⟨hown, hfields, hmethods⟩ := forall_mem_everyAttribute.1 h.attributes
    exact ⟨h.name, h.super, h.interfaces, hown,
      fun field hfield => ⟨h.fields field hfield, hfields field hfield⟩,
      fun method hmethod => ⟨(h.methods method hmethod).1, hmethods method hmethod⟩⟩

/-- A class A whose method has code with a handler for the class at entry 9 of a pool of four. -/
def strayCatch : Bytes :=
  [0xca, 0xfe, 0xba, 0xbe, 0x00, 0x00, 0x00, 0x34, 0x00, 0x05, 0x01, 0x00, 0x01, 0x41, 0x07, 0x00,
    0x01, 0x01, 0x00, 0x03, 0x28, 0x29, 0x56, 0x01, 0x00, 0x04, 0x43, 0x6f, 0x64, 0x65, 0x00, 0x21,
    0x00, 0x02, 0x00, 0x00, 0x00, 0x00, 0x00, 0x00, 0x00, 0x01, 0x00, 0x08, 0x00, 0x01, 0x00, 0x03,
    0x00, 0x01, 0x00, 0x04, 0x00, 0x00, 0x00, 0x15, 0x00, 0x00, 0x00, 0x00, 0x00, 0x00, 0x00, 0x01,
    0xb1, 0x00, 0x01, 0x00, 0x00, 0x00, 0x01, 0x00, 0x00, 0x00, 0x09, 0x00, 0x00, 0x00, 0x00]

def strayCatchCode : Code :=
  { maxStack := 0, maxLocals := 0, bytes := [0xb1], exceptions := [⟨0, 1, 0, 9⟩], attributes := [] }

def strayCatchFile : ClassFile :=
  { majorVersion := 52
    pool := ⟨#[.utf8 [65], .classEntry 0, .utf8 [40, 41, 86], .utf8 [67, 111, 100, 101]]⟩
    flags := ⟨0x21⟩
    thisClass := 1
    methods := [
      { flags := ⟨8⟩, name := 0, descriptor := 2, attributes := [.code strayCatchCode]
        signature := ⟨[], .void⟩, body := .bytecode }] }

/-- A class file may be accepted although the type of an exception is not in its pool. -/
theorem exists_stray_catch :
    parse strayCatch = .ok strayCatchFile ∧ strayCatchFile.check = .ok () ∧
      ∃ held ∈ strayCatchFile.everyAttribute, ¬ held.CatchesClasses strayCatchFile.pool := by
  refine ⟨Bootstrap.eq_ok_of_answers (by decide +kernel), rfl, .code strayCatchCode,
    by decide +kernel, fun hcatches => ?_⟩
  have hrange : (⟨0, 1, 0, 9⟩ : ExceptionRange) ∈ strayCatchCode.exceptions := by decide
  rcases hcatches _ hrange with hany | ⟨name, hclass⟩
  · contradiction
  · exact nomatch hclass

end ClassFile

end ClassMachine
