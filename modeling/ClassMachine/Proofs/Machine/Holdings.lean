import ClassMachine.Proofs.Native.Installed

/-!
# Where objects are held

Slots hold objects, on the stack, among local variables, in fields and in static fields. A constant
is no object, so no class file that is read brings one along, and the fields of a new object and the
static fields of a class do not hold any at first. The native methods that are there from the start
bring none along either.
-/

namespace ClassMachine

open Work

variable {ids : ObjectId → Prop}

/-- If the slot holds an object, it is one of these. -/
def Slot.Inside (ids : ObjectId → Prop) (slot : Slot) : Prop :=
  ∀ id, slot.value = .object id → ids id

theorem Slot.inside_of_isObject {slot : Slot} (h : slot.value.isObject = false) :
    slot.Inside ids := by
  intro id hid
  rw [hid] at h
  contradiction

def FieldMap.Inside (ids : ObjectId → Prop) (fields : FieldMap) : Prop :=
  ∀ name slot, fields.get? name = some slot → slot.Inside ids

namespace FieldMap

theorem inside_empty : Inside ids .empty :=
  fun _ _ h => nomatch h

theorem Inside.insert {fields : FieldMap} (h : Inside ids fields) {value : Slot}
    (hvalue : value.Inside ids) (name : Bytes) : Inside ids (NameMap.insert fields name value) := by
  intro other slot hget
  rw [NameMap.get?_insert] at hget
  split at hget
  · exact Option.some.inj hget ▸ hvalue
  · exact h other slot hget

end FieldMap

section initial

theorem ConstantPool.isObject_literal {pool : ConstantPool} {position : Nat} {value : Slot}
    (h : pool.literal position = .ok value) : value.value.isObject = false := by
  simp only [literal, bind_eq_ok_iff] at h
  obtain ⟨constant, -, h⟩ := h
  cases constant <;> try contradiction
  case string text =>
    simp only [bind_eq_ok_iff] at h
    obtain ⟨bytes, -, hvalue⟩ := h
    obtain rfl := Except.ok.inj hvalue
    rfl
  all_goals
    obtain rfl := Except.ok.inj h
    rfl

namespace ClassFile

variable {file : ClassFile}

theorem isObject_initialValue {field : Field} {value : Slot}
    (h : file.initialValue field = .ok value) : value.value.isObject = false := by
  unfold initialValue at h
  split at h
  · exact ConstantPool.isObject_literal h
  · exact Except.ok.inj h ▸ rfl

theorem inside_fillInstance (fields : List Field) {slots filled : FieldMap}
    (h : FieldMap.Inside ids slots) (hfilled : file.fillInstance fields slots = .ok filled) :
    FieldMap.Inside ids filled := by
  induction fields generalizing slots with
  | nil => exact Except.ok.inj hfilled ▸ h
  | cons field fields ih =>
    simp only [fillInstance, bind_eq_ok_iff] at hfilled
    obtain ⟨name, -, value, hvalue, hfilled⟩ := hfilled
    exact ih (h.insert (Slot.inside_of_isObject (isObject_initialValue hvalue)) name) hfilled

theorem inside_newInstance {fields : FieldMap} (h : file.newInstance = .ok fields) :
    FieldMap.Inside ids fields :=
  inside_fillInstance file.instanceFields FieldMap.inside_empty h

theorem inside_fillStatics (file : ClassFile) (fields : List Field) {statics : FieldMap}
    (h : FieldMap.Inside ids statics) :
    FieldMap.Inside ids (final ((file.fillStatics fields).run statics)) := by
  induction fields generalizing statics with
  | nil => exact h
  | cons field fields ih =>
    simp only [fillStatics]
    cases file.pool.utf8 field.name with
    | error e => exact h
    | ok name =>
      simp only [EStateM.run_bind, EStateM.run_get]
      split
      · exact ih h
      · cases hvalue : file.initialValue field with
        | error e => exact h
        | ok value =>
          exact ih (h.insert (Slot.inside_of_isObject (isObject_initialValue hvalue)) name)

end ClassFile

end initial

namespace ClassTable

def StaticsInside (ids : ObjectId → Prop) (table : ClassTable) : Prop :=
  ∀ name c, table.get? name = some c → FieldMap.Inside ids c.statics

/-- Static fields do not get objects other than these if they had none. -/
def KeepsStatics (ids : ObjectId → Prop) (table later : ClassTable) : Prop :=
  table.StaticsInside ids → later.StaticsInside ids

theorem KeepsStatics.refl (table : ClassTable) : KeepsStatics ids table table :=
  id

theorem KeepsStatics.trans (first second third : ClassTable) (h : KeepsStatics ids first second)
    (hthird : KeepsStatics ids second third) : KeepsStatics ids first third :=
  fun hfirst => hthird (h hfirst)

theorem staticsInside_update {table : ClassTable} (h : table.StaticsInside ids) (name : Bytes)
    {change : LoadedClass → LoadedClass}
    (hchange : ∀ c, table.get? name = some c → FieldMap.Inside ids (change c).statics) :
    (table.update name change).StaticsInside ids := by
  intro other c hget
  rw [get?_update] at hget
  split at hget
  · obtain ⟨old, hold, rfl⟩ := Option.map_eq_some_iff.1 hget
    exact hchange old hold
  · exact h other c hget

end ClassTable

namespace Linking

open ClassTable

theorem load_keepsStatics (name : Bytes) : Within (KeepsStatics ids) (load name) := by
  intro table h other c hget
  rcases (load_extends name table).cases_get? hget with hbefore | ⟨hnew, -⟩
  · exact h other c hbefore
  · rw [hnew]
    exact FieldMap.inside_empty

theorem setState_keepsStatics (table : ClassTable) (name : Bytes) (state : InitState) :
    KeepsStatics ids table (table.setState name state) :=
  fun h => staticsInside_update h name fun c hget => h name c hget

theorem prepareStatics_keepsStatics (name : Bytes) :
    Within (KeepsStatics ids) (prepareStatics name) := by
  intro table h
  simp only [prepareStatics, EStateM.run_bind, run_lookup]
  cases hget : table.get? name with
  | none => exact h
  | some c =>
    have hfilled := c.file.inside_fillStatics c.file.staticFields (h name c hget)
    simp only
    cases hrun : (c.file.fillStatics c.file.staticFields).run c.statics with
    | ok _ statics =>
      rw [hrun] at hfilled
      exact staticsInside_update h name fun _ _ => hfilled
    | error e statics =>
      rw [hrun] at hfilled
      exact staticsInside_update h name fun _ _ => hfilled

theorem initClass_keepsStatics (depth : Nat) (name : Bytes) :
    Within (KeepsStatics ids) (initClass depth name) :=
  initClass_within KeepsStatics.refl KeepsStatics.trans load_keepsStatics
    (fun table name state _ => setState_keepsStatics table name state)
    prepareStatics_keepsStatics depth name

theorem resolve_keepsStatics (className name descriptor : Bytes) :
    Within (KeepsStatics ids) (resolve className name descriptor) :=
  resolve_within KeepsStatics.refl KeepsStatics.trans load_keepsStatics className name descriptor

theorem getStatic_keepsStatics (name field : Bytes) :
    Within (KeepsStatics ids) (getStatic name field) :=
  getStatic_within KeepsStatics.refl name field

theorem inside_of_getStatic {name field : Bytes} {table later : ClassTable} {value : Slot}
    (hlater : later.StaticsInside ids) (hrun : (getStatic name field).run table = .ok value later) :
    value.Inside ids := by
  rw [run_getStatic] at hrun
  split at hrun <;> try contradiction
  next c hget =>
    split at hrun <;> try contradiction
    next found hfound =>
      obtain ⟨rfl, rfl⟩ := EStateM.Result.ok.inj hrun
      exact hlater name c hget field found hfound

end Linking

/-- Whether a native action puts no object on the stack that is not an argument. -/
def NativeAction.bringsNothing : NativeAction → Bool
  | push value => !value.value.isObject
  | _ => true

def Method.BringsNothing (method : Method) : Prop :=
  ∀ actions, method.body = .native actions → ∀ action ∈ actions, action.bringsNothing = true

def ClassFile.BringsNothing (file : ClassFile) : Prop :=
  ∀ method ∈ file.methods, method.BringsNothing

def ClassTable.BringsNothing (table : ClassTable) : Prop :=
  table.Each fun _ file => file.BringsNothing

theorem bringsNothing_of_parseChecked {content : Bytes} {file : ClassFile}
    (h : ClassFile.parseChecked content = .ok file) : file.BringsNothing := by
  intro method hmethod actions hbody
  have hparse := ((ClassFile.parseChecked_eq_ok_iff content file).1 h).1
  rw [ClassFile.body_of_parse hparse method hmethod] at hbody
  contradiction

theorem ClassTable.Grows.bringsNothing {table later : ClassTable} (h : table.Grows later)
    (htable : table.BringsNothing) : later.BringsNothing :=
  h.each (fun _ _ _ hfile _ => bringsNothing_of_parseChecked hfile) htable

namespace Bootstrap

def bringsNothing (work : Drafting Unit) : Bool :=
  match work.build with
  | .error _ => true
  | .ok c => c.file.methods.all fun method => match method.body with
    | .bytecode => true
    | .native actions => actions.all NativeAction.bringsNothing

theorem bringsNothing_of_build {work : Drafting Unit} {c : LoadedClass}
    (h : bringsNothing work = true) (hbuild : work.build = .ok c) : c.file.BringsNothing := by
  intro method hmethod actions hbody action haction
  simp only [bringsNothing, hbuild, List.all_eq_true] at h
  have hactions := h method hmethod
  simp only [hbody, List.all_eq_true] at hactions
  exact hactions action haction

theorem drafts_bringNothing :
    [objectClass, stringClass, printStreamClass, systemClass (.of (.object 0))].all
      bringsNothing = true := by
  decide +kernel

theorem machine_bringsNothing (source : ClassSource) (console : Console)
    (address : ObjectId → Nat) :
    (machine source console address).table.BringsNothing := by
  intro name c hget
  obtain ⟨work, hwork, hbuild⟩ := build_of_get? hget
  exact bringsNothing_of_build (List.all_eq_true.1 drafts_bringNothing work hwork) hbuild

end Bootstrap

end ClassMachine
