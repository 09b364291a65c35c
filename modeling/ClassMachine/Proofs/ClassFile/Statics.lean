import ClassMachine.ClassFile.Allocation
import ClassMachine.ClassFile.Validity
import ClassMachine.Proofs.Course

/-!
# Static fields of a checked class

In a class file that has been checked the superclass and the static fields have names, and the
constant values of the fields can be loaded. Filling in the static fields therefore succeeds, and
gives a field that has no value yet the one that the first field of its name starts with.
-/

namespace ClassMachine.ClassFile

open Work

variable {file : ClassFile}

theorem superName_of_check (h : file.check = .ok ()) : ∃ super, file.superName = .ok super := by
  simp only [check, bind_eq_ok_iff] at h
  obtain ⟨_, _, _, _, _, hsuper, -⟩ := h
  unfold superName
  cases hposition : file.superClass with
  | none => exact ⟨none, rfl⟩
  | some position =>
    rw [hposition, forM_eq_ok_iff] at hsuper
    obtain ⟨name, hname⟩ := (discard_eq_ok_iff _).1 (hsuper position (List.mem_singleton_self _))
    exact ⟨some name, by simp only [hname]; rfl⟩

theorem checkField_of_check (h : file.check = .ok ()) {field : Field} (hfield : field ∈ file.fields) :
    checkField file.pool field = .ok () := by
  simp only [check, bind_eq_ok_iff] at h
  obtain ⟨_, _, _, _, _, _, _, _, _, _, _, hfields, -⟩ := h
  exact (forM_eq_ok_iff _ _).1 hfields field hfield

theorem fieldName_of_check (h : file.check = .ok ()) {field : Field} (hfield : field ∈ file.fields) :
    ∃ name, file.pool.utf8 field.name = .ok name := by
  have hchecked := checkField_of_check h hfield
  simp only [checkField, bind_eq_ok_iff] at hchecked
  obtain ⟨_, hname, -⟩ := hchecked
  exact (discard_eq_ok_iff _).1 hname

theorem initialValue_of_check (h : file.check = .ok ()) {field : Field}
    (hfield : field ∈ file.fields) : ∃ value, file.initialValue field = .ok value := by
  have hchecked := checkField_of_check h hfield
  simp only [checkField, bind_eq_ok_iff] at hchecked
  obtain ⟨_, -, _, -, hattributes⟩ := hchecked
  rw [forM_eq_ok_iff] at hattributes
  unfold initialValue Attribute.constantValue? Attribute.find?
  split
  next position hposition =>
    split at hposition <;> try contradiction
    next found hfind =>
      obtain rfl := Option.some.inj hposition
      exact (discard_eq_ok_iff _).1 (hattributes _ (List.mem_of_find?_eq_some hfind))
  next => exact ⟨.null, rfl⟩

theorem mem_of_mem_staticFields (field : Field) (h : field ∈ file.staticFields) :
    field ∈ file.fields :=
  (List.mem_filter.1 h).1

def isNamed (file : ClassFile) (name : Bytes) (field : Field) : Bool :=
  file.text? field.name == some name

def firstValue (file : ClassFile) (fields : List Field) (name : Bytes) : Option Slot :=
  (fields.find? (file.isNamed name)).bind fun field => (file.initialValue field).toOption

def initialStatic (file : ClassFile) (name : Bytes) : Option Slot :=
  file.firstValue file.staticFields name

theorem run_fillStatics_cons {field : Field} {found : Bytes} {value : Slot}
    (hfound : file.pool.utf8 field.name = .ok found) (hvalue : file.initialValue field = .ok value)
    (fields : List Field) (statics : FieldMap) :
    (file.fillStatics (field :: fields)).run statics =
      (file.fillStatics fields).run
        (if statics.contains found then statics else statics.insert found value) := by
  simp only [fillStatics, hfound, hvalue, EStateM.run_bind, EStateM.run_get]
  by_cases hcontains : statics.contains found = true <;> simp [hcontains]

theorem run_fillStatics (h : file.check = .ok ()) {fields : List Field}
    (hfields : ∀ field ∈ fields, field ∈ file.fields) (statics : FieldMap) :
    ∃ filled, (file.fillStatics fields).run statics = .ok () filled ∧
      ∀ name, filled.get? name = (statics.get? name).or (file.firstValue fields name) := by
  induction fields generalizing statics with
  | nil => exact ⟨statics, rfl, fun name => by simp [firstValue]⟩
  | cons field fields ih =>
    obtain ⟨hfield, hrest⟩ := List.forall_mem_cons.1 hfields
    obtain ⟨found, hfound⟩ := fieldName_of_check h hfield
    obtain ⟨value, hvalue⟩ := initialValue_of_check h hfield
    have hnamed (name : Bytes) : file.isNamed name field = (found == name) := by
      simp [isNamed, text?, hfound, Except.toOption]
    rw [run_fillStatics_cons hfound hvalue]
    obtain ⟨filled, hrun, hget⟩ :=
      ih hrest (if statics.contains found then statics else statics.insert found value)
    refine ⟨filled, hrun, fun name => ?_⟩
    rw [hget]
    by_cases hname : found = name
    · have hfirst : file.firstValue (field :: fields) name = some value := by
        simp [firstValue, hnamed, hname, hvalue, Except.toOption]
      rw [hfirst, NameMap.contains, hname]
      cases hold : statics.get? name <;> simp [hold]
    · have hfirst : file.firstValue (field :: fields) name = file.firstValue fields name := by
        simp [firstValue, hnamed, hname]
      rw [hfirst]
      split
      · rfl
      · simp [Ne.symm hname]

end ClassMachine.ClassFile
