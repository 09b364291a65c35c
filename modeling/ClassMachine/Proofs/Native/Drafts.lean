import ClassMachine.Proofs.ClassFile.Coverage
import ClassMachine.Proofs.ClassFile.Overloads
import ClassMachine.Proofs.ClassFile.Slots
import ClassMachine.Proofs.Native.Texts
import Mathlib.Data.List.Forall2

/-!
# What a draft comes to

Calls declare methods and static fields, in any number and order. Those that are refused leave texts
behind and nothing else. The class that a draft comes to is accepted like one that has been read. It
has the methods of the calls that are not refused, and its static fields hold what was given for
them last. A method is found by its own name and descriptor unless it shares its name and the
spelling of its parameters with another one.
-/

namespace ClassMachine.Drafting

open Work

structure DeclaredMethod where
  name : Bytes
  descriptor : Bytes
  signature : MethodSignature
  actions : List NativeAction

structure DeclaredField where
  name : Bytes
  descriptor : Bytes

namespace Call

def method? : Call → Option DeclaredMethod
  | method name descriptor actions =>
    match MethodSignature.parse descriptor with
    | .ok signature => some ⟨name, descriptor, signature, actions⟩
    | .error _ => none
  | staticField .. => none

def field? : Call → Option DeclaredField
  | method .. => none
  | staticField name descriptor _ => some ⟨name, descriptor⟩

def seed? (field : Bytes) : Call → Option Slot
  | method .. => none
  | staticField name _ value => if name = field then some value else none

end Call

/-- The value that the calls give last for a static field. -/
def lastSeed (calls : List Call) (field : Bytes) : Option Slot :=
  calls.reverse.findSome? (Call.seed? field)

/-- The method of a class file is the declared one: it has its name, descriptor, signature and body,
is public and native, and has no attributes. -/
structure DeclaredMethod.Describes (pool : ConstantPool) (declared : DeclaredMethod)
    (method : Method) : Prop where
  name : pool.utf8 method.name = .ok declared.name
  descriptor : pool.utf8 method.descriptor = .ok declared.descriptor
  signature : method.signature = declared.signature
  body : method.body = .native declared.actions
  flags : method.flags = methodFlags
  attributes : method.attributes = []

structure DeclaredField.Describes (pool : ConstantPool) (declared : DeclaredField)
    (field : Field) : Prop where
  name : pool.utf8 field.name = .ok declared.name
  descriptor : pool.utf8 field.descriptor = .ok declared.descriptor
  flags : field.flags = staticFlags
  attributes : field.attributes = []

/-- A draft begins at the root of the hierarchy or below the root class. -/
def opening (atRoot : Bool) (name : Bytes) : Drafting Unit :=
  if atRoot then root name else derived name

/-- What a draft holds when it has begun and the calls have been made. -/
structure Records (atRoot : Bool) (name : Bytes) (calls : List Call) (draft : NativeDraft) :
    Prop where
  interned : draft.Interned
  thisClass : draft.pool.className draft.thisClass = .ok name
  superClass : if atRoot then draft.superClass = none else
    ∃ position, draft.superClass = some position ∧
      draft.pool.className position = .ok objectName
  fields : List.Forall₂ (DeclaredField.Describes draft.pool) (calls.filterMap Call.field?)
    draft.fields
  methods : List.Forall₂ (DeclaredMethod.Describes draft.pool) (calls.filterMap Call.method?)
    draft.methods
  statics : ∀ field, draft.statics.get? field = lastSeed calls field

section lists

theorem filterMap_one {α : Type} (f : Call → Option α) (call : Call) :
    [call].filterMap f = (f call).toList := by
  rw [List.filterMap_eq_flatMap_toList, List.flatMap_singleton]

variable {α β : Type} {R : α → β → Prop} {as : List α} {bs : List β}

theorem getElem?_right (h : List.Forall₂ R as bs) {place : Nat} {a : α}
    (ha : as[place]? = some a) : ∃ b, bs[place]? = some b ∧ R a b := by
  obtain ⟨hplace, rfl⟩ := List.getElem?_eq_some_iff.1 ha
  have hother : place < bs.length := h.length_eq ▸ hplace
  exact ⟨bs[place], List.getElem?_eq_getElem hother, h.get hplace hother⟩

theorem getElem?_left (h : List.Forall₂ R as bs) {place : Nat} {b : β}
    (hb : bs[place]? = some b) : ∃ a, as[place]? = some a ∧ R a b :=
  getElem?_right h.flip hb

end lists

section records

variable {pool later : ConstantPool}

theorem DeclaredMethod.Describes.grows {declared : DeclaredMethod} {method : Method}
    (h : declared.Describes pool method) (hgrows : pool.Grows later) :
    declared.Describes later method :=
  { h with name := hgrows.utf8 h.name, descriptor := hgrows.utf8 h.descriptor }

theorem DeclaredField.Describes.grows {declared : DeclaredField} {field : Field}
    (h : declared.Describes pool field) (hgrows : pool.Grows later) :
    declared.Describes later field :=
  { h with name := hgrows.utf8 h.name, descriptor := hgrows.utf8 h.descriptor }

theorem lastSeed_append (calls : List Call) (call : Call) (field : Bytes) :
    lastSeed (calls ++ [call]) field = (call.seed? field).or (lastSeed calls field) := by
  simp [lastSeed, List.findSome?_cons]
  cases call.seed? field <;> rfl

variable {atRoot : Bool} {name : Bytes} {calls : List Call} {draft : NativeDraft}

theorem Records.extends {more : NativeDraft} (h : Records atRoot name calls draft)
    (hmore : draft.Extends more) : Records atRoot name calls more := by
  obtain ⟨hinterned, hgrows, hothers⟩ := hmore
  rw [hothers]
  refine ⟨hothers ▸ hinterned, hgrows.className h.thisClass, ?_,
    h.fields.imp fun _ _ hfield => hfield.grows hgrows,
    h.methods.imp fun _ _ hmethod => hmethod.grows hgrows, h.statics⟩
  have hsuper := h.superClass
  cases atRoot with
  | true => exact hsuper
  | false =>
    obtain ⟨position, hposition, hname⟩ := hsuper
    exact ⟨position, hposition, hgrows.className hname⟩

/-- What a call declares is added behind what there is. -/
theorem Records.add (h : Records atRoot name calls draft) (call : Call) (fields : List Field)
    (methods : List Method) (statics : FieldMap)
    (hfields : List.Forall₂ (DeclaredField.Describes draft.pool) call.field?.toList fields)
    (hmethods : List.Forall₂ (DeclaredMethod.Describes draft.pool) call.method?.toList methods)
    (hstatics : ∀ field, statics.get? field =
      (call.seed? field).or (draft.statics.get? field)) :
    Records atRoot name (calls ++ [call]) { draft with
      fields := draft.fields ++ fields, methods := draft.methods ++ methods, statics } where
  interned := ⟨h.interned.texts, h.interned.constants⟩
  thisClass := h.thisClass
  superClass := h.superClass
  fields := by
    rw [List.filterMap_append, filterMap_one]
    exact List.rel_append h.fields hfields
  methods := by
    rw [List.filterMap_append, filterMap_one]
    exact List.rel_append h.methods hmethods
  statics field := by
    rw [hstatics, h.statics, lastSeed_append]

theorem Records.method (h : Records atRoot name calls draft) (methodName descriptor : Bytes)
    (actions : List NativeAction) :
    Records atRoot name (calls ++ [.method methodName descriptor actions])
      (final ((Drafting.method methodName descriptor actions).run draft)) := by
  obtain ⟨namePosition, descriptorPosition, later, hlater, hname, hdescriptor, hrun⟩ :=
    run_texts h.interned methodName descriptor
  have hrecords := h.extends hlater
  rw [Drafting.method, hrun]
  cases hparse : MethodSignature.parse descriptor with
  | error e =>
    have hnothing : (Call.method methodName descriptor actions).method? = none := by
      rw [Call.method?, hparse]
    have hadd := hrecords.add (.method methodName descriptor actions) [] [] later.statics .nil
      (hnothing ▸ .nil) fun _ => rfl
    rwa [List.append_nil, List.append_nil] at hadd
  | ok signature =>
    have hdeclared : (Call.method methodName descriptor actions).method? =
        some ⟨methodName, descriptor, signature, actions⟩ := by
      rw [Call.method?, hparse]
    have hadd := hrecords.add (.method methodName descriptor actions) []
      [⟨methodFlags, namePosition, descriptorPosition, [], signature, .native actions⟩]
      later.statics .nil (hdeclared ▸ .cons ⟨hname, hdescriptor, rfl, rfl, rfl, rfl⟩ .nil)
      fun _ => rfl
    rwa [List.append_nil] at hadd

theorem Records.staticField (h : Records atRoot name calls draft)
    (fieldName descriptor : Bytes) (value : Slot) :
    Records atRoot name (calls ++ [.staticField fieldName descriptor value])
      (final ((Drafting.staticField fieldName descriptor value).run draft)) := by
  obtain ⟨namePosition, descriptorPosition, later, hlater, hname, hdescriptor, hrun⟩ :=
    run_texts h.interned fieldName descriptor
  have hstatics (field : Bytes) : (later.statics.insert fieldName value).get? field =
      ((Call.staticField fieldName descriptor value).seed? field).or
        (later.statics.get? field) := by
    rw [NameMap.get?_insert, Call.seed?]
    by_cases hfield : field = fieldName
    · simp [hfield]
    · simp [hfield, Ne.symm hfield]
  have hadd := (h.extends hlater).add (.staticField fieldName descriptor value)
    [⟨staticFlags, namePosition, descriptorPosition, []⟩] []
    (later.statics.insert fieldName value) (.cons ⟨hname, hdescriptor, rfl, rfl⟩ .nil) .nil hstatics
  rw [List.append_nil] at hadd
  rw [Drafting.staticField, hrun]
  exact hadd

theorem Records.call (h : Records atRoot name calls draft) (call : Call) :
    Records atRoot name (calls ++ [call]) (final (call.work.run draft)) := by
  cases call with
  | method methodName descriptor actions => exact h.method methodName descriptor actions
  | staticField fieldName descriptor value => exact h.staticField fieldName descriptor value

/-- Calls are recorded one after another, and none of them stops the work. -/
theorem Records.run_forM (h : Records atRoot name calls draft) (more : List Call) :
    ∃ later, (more.forM fun call => discard (attempt call.work)).run draft = .ok () later ∧
      Records atRoot name (calls ++ more) later := by
  induction more generalizing calls draft with
  | nil => exact ⟨draft, rfl, by rwa [List.append_nil]⟩
  | cons call more ih =>
    obtain ⟨later, hrun, hlater⟩ := ih (h.call call)
    refine ⟨later, ?_, by rwa [List.append_assoc] at hlater⟩
    have hcons : (call :: more).forM (fun call => discard (attempt call.work)) =
        discard (attempt call.work) >>= fun _ =>
          more.forM fun call => discard (attempt call.work) := rfl
    rw [hcons, EStateM.run_bind, run_discard, run_attempt]
    cases hcall : call.work.run draft <;> rw [hcall] at hrun <;> exact hrun

theorem run_root (name : Bytes) :
    ∃ draft, (root name).run {} = .ok () draft ∧ Records true name [] draft := by
  obtain ⟨position, later, hrun, hlater, hname⟩ := run_classEntry NativeDraft.interned_empty name
  refine ⟨{ later with thisClass := position }, ?_, ?_⟩
  · rw [root, EStateM.run_bind, hrun]
    rfl
  · rw [hlater.others]
    exact ⟨⟨hlater.interned.texts, hlater.interned.constants⟩, hname, rfl, .nil, .nil, fun _ => rfl⟩

theorem run_opening (atRoot : Bool) (name : Bytes) :
    ∃ draft, (opening atRoot name).run {} = .ok () draft ∧ Records atRoot name [] draft := by
  obtain ⟨draft, hroot, hdraft⟩ := run_root name
  cases atRoot with
  | true => exact ⟨draft, hroot, hdraft⟩
  | false =>
    obtain ⟨position, later, hrun, hlater, hsuper⟩ := run_classEntry hdraft.interned objectName
    have hrecords := hdraft.extends hlater
    refine ⟨{ later with superClass := some position }, ?_, { hrecords with
      interned := ⟨hlater.interned.texts, hlater.interned.constants⟩
      superClass := ⟨position, rfl, hsuper⟩ }⟩
    rw [opening, if_neg Bool.false_ne_true, derived, EStateM.run_bind, hroot]
    simp only [EStateM.run_bind, hrun]
    rfl

theorem run_assemble (atRoot : Bool) (name : Bytes) (calls : List Call) :
    ∃ draft, (assemble (opening atRoot name) calls).run {} = .ok () draft ∧
      Records atRoot name calls draft := by
  obtain ⟨begun, hopening, hbegun⟩ := run_opening atRoot name
  obtain ⟨draft, hrun, hdraft⟩ := hbegun.run_forM calls
  refine ⟨draft, ?_, hdraft⟩
  rw [assemble, EStateM.run_bind, hopening]
  exact hrun

/-- Apart from the texts that are added a call does something exactly if its descriptor is right. -/
theorem exists_run_method_iff (h : draft.Interned) (methodName descriptor : Bytes)
    (actions : List NativeAction) :
    (∃ later, (Drafting.method methodName descriptor actions).run draft = .ok () later) ↔
      ∃ signature, MethodSignature.parse descriptor = .ok signature := by
  obtain ⟨namePosition, descriptorPosition, later, -, -, -, hrun⟩ :=
    run_texts h methodName descriptor
  rw [Drafting.method, hrun]
  cases hparse : MethodSignature.parse descriptor with
  | error e => exact iff_of_false (fun ⟨_, h⟩ => nomatch h) fun ⟨_, h⟩ => nomatch h
  | ok signature => exact iff_of_true ⟨_, rfl⟩ ⟨signature, rfl⟩

theorem isSome_lastSeed_iff (calls : List Call) (field : Bytes) :
    (lastSeed calls field).isSome = true ↔
      ∃ descriptor value, .staticField field descriptor value ∈ calls := by
  rw [lastSeed, List.findSome?_isSome_iff]
  constructor
  · rintro ⟨call, hcall, hseed⟩
    cases call with
    | method => contradiction
    | staticField name descriptor value =>
      rw [Call.seed?] at hseed
      split at hseed
      next hname => exact ⟨descriptor, value, hname ▸ List.mem_reverse.1 hcall⟩
      next => contradiction
  · rintro ⟨descriptor, value, hcall⟩
    exact ⟨_, List.mem_reverse.2 hcall, by simp [Call.seed?]⟩

end records

section finished

variable {atRoot : Bool} {name : Bytes} {calls : List Call} {draft : NativeDraft}

def finished (draft : NativeDraft) : LoadedClass where
  file := {
    pool := draft.pool, thisClass := draft.thisClass, superClass := draft.superClass,
    fields := draft.fields, methods := draft.methods }
  state := .done
  statics := draft.statics

theorem build_eq_finished {work : Drafting Unit} (h : work.run {} = .ok () draft) :
    work.build = .ok (finished draft) := by
  rw [build, show EStateM.run work {} = .ok () draft from h]
  rfl

/-- All positions in the class have been filled by the draft. -/
theorem Records.check (h : Records atRoot name calls draft) :
    (finished draft).file.check = .ok () := by
  have hholds {position : Nat} {text : Bytes} (htext : draft.pool.utf8 position = .ok text) :
      draft.pool.HoldsText position := ⟨text, ConstantPool.utf8_eq_ok_iff.1 htext⟩
  refine ClassFile.check_eq_ok_iff_steps.2 ⟨h.interned.check,
    ConstantPool.exists_className_iff.1 ⟨name, h.thisClass⟩, fun position hposition => ?_,
    List.forall_mem_nil _, List.forall_mem_nil _, fun field hfield => ?_,
    fun method hmethod => ?_⟩
  · have hsuper := h.superClass
    cases atRoot with
    | true => exact nomatch hposition.symm.trans hsuper
    | false =>
      obtain ⟨place, hplace, hname⟩ := hsuper
      obtain rfl := Option.some.inj (hposition.symm.trans hplace)
      exact ConstantPool.exists_className_iff.1 ⟨_, hname⟩
  · obtain ⟨place, hplace⟩ := List.mem_iff_getElem?.1 hfield
    obtain ⟨declared, -, hdescribes⟩ := getElem?_left h.fields hplace
    refine (ClassFile.checkField_eq_ok_iff field).2 ⟨⟨hholds hdescribes.name,
      hholds hdescribes.descriptor⟩, ?_⟩
    rw [hdescribes.attributes]
    exact List.forall_mem_nil _
  · obtain ⟨place, hplace⟩ := List.mem_iff_getElem?.1 hmethod
    obtain ⟨declared, -, hdescribes⟩ := getElem?_left h.methods hplace
    refine (ClassFile.checkMethod_eq_ok_iff method).2 ⟨hholds hdescribes.name, ?_⟩
    rw [hdescribes.attributes]
    exact List.forall_mem_nil _

theorem Records.superName (h : Records atRoot name calls draft) :
    (finished draft).file.superName = .ok (if atRoot then none else some objectName) := by
  have hsuper := h.superClass
  cases atRoot with
  | true =>
    have hnone : (finished draft).file.superClass = none := hsuper
    rw [ClassFile.superName, hnone]
    rfl
  | false =>
    obtain ⟨place, hplace, hname⟩ := hsuper
    have hsome : (finished draft).file.superClass = some place := hplace
    rw [ClassFile.superName, hsome]
    exact congrArg (some <$> ·) hname

/-- A declared method fits its name and the spelling of its parameters. -/
theorem DeclaredMethod.Describes.fits_iff {file : ClassFile} {declared : DeclaredMethod}
    {method : Method} (h : declared.Describes file.pool method) (wanted descriptor : Bytes) :
    file.fits wanted descriptor method = true ↔ declared.name = wanted ∧
      MethodSignature.paramsText declared.descriptor = MethodSignature.paramsText descriptor := by
  rw [ClassFile.fits, ClassFile.text?_of_utf8 h.name, ClassFile.text?_of_utf8 h.descriptor]
  simp

theorem Records.exists_mem_fitting_iff (h : Records atRoot name calls draft)
    (wanted descriptor : Bytes) (place : Nat) :
    (∃ method, (method, place) ∈ (finished draft).file.fitting wanted descriptor) ↔
      ∃ declared, (calls.filterMap Call.method?)[place]? = some declared ∧
        declared.name = wanted ∧
        MethodSignature.paramsText declared.descriptor = MethodSignature.paramsText descriptor := by
  simp only [ClassFile.mem_fitting_iff]
  constructor
  · rintro ⟨method, hmethod, hfits⟩
    obtain ⟨declared, hdeclared, hdescribes⟩ := getElem?_left h.methods hmethod
    exact ⟨declared, hdeclared, (DeclaredMethod.Describes.fits_iff hdescribes _ _).1 hfits⟩
  · rintro ⟨declared, hdeclared, hfits⟩
    obtain ⟨method, hmethod, hdescribes⟩ := getElem?_right h.methods hdeclared
    exact ⟨method, hmethod, (DeclaredMethod.Describes.fits_iff hdescribes _ _).2 hfits⟩

/-- A declared method is what a call by its name and descriptor means, unless another one has its
name and the spelling of its parameters. -/
theorem Records.overload_iff (h : Records atRoot name calls draft) {place : Nat}
    {declared : DeclaredMethod}
    (hdeclared : (calls.filterMap Call.method?)[place]? = some declared) :
    (∃ method, (finished draft).file.overload declared.name declared.descriptor =
        .ok (method, place)) ↔
      ∀ other rival, (calls.filterMap Call.method?)[other]? = some rival →
        rival.name = declared.name →
        MethodSignature.paramsText rival.descriptor =
          MethodSignature.paramsText declared.descriptor → other = place := by
  have hchoice := ((finished draft).file.choosesBy_fitting declared.name declared.descriptor).found
  simp only [hchoice, h.exists_mem_fitting_iff]
  constructor
  · rintro ⟨method, -, hplaces⟩ other rival hrival hname hparams
    exact (hplaces other).1 ⟨rival, hrival, hname, hparams⟩
  · intro hunique
    obtain ⟨method, hmethod, -⟩ := getElem?_right h.methods hdeclared
    refine ⟨method, hmethod, fun other => ⟨?_, ?_⟩⟩
    · rintro ⟨rival, hrival, hname, hparams⟩
      exact hunique other rival hrival hname hparams
    · rintro rfl
      exact ⟨declared, hdeclared, rfl, rfl⟩

/-- The class is an ordinary one of its name, and has what the calls declare. -/
structure Accomplishes (atRoot : Bool) (name : Bytes) (calls : List Call) (draft : NativeDraft)
    (c : LoadedClass) : Prop where
  accepted : c.file.check = .ok ()
  name : c.file.name = .ok name
  superName : c.file.superName = .ok (if atRoot then none else some objectName)
  state : c.state = .done
  noted : ∀ content position, draft.texts.get? content = some position ↔
    c.file.pool.utf8 position = .ok content
  once : ∀ content position other, c.file.pool.utf8 position = .ok content →
    c.file.pool.utf8 other = .ok content → position = other
  staticNames : ∀ field, c.statics.contains field = true ↔
    ∃ descriptor value, .staticField field descriptor value ∈ calls
  statics : ∀ field, c.statics.get? field = lastSeed calls field
  fields : List.Forall₂ (DeclaredField.Describes c.file.pool) (calls.filterMap Call.field?)
    c.file.fields
  succeeds : ∀ methodName descriptor actions,
    (∃ later, (method methodName descriptor actions).run draft = .ok () later) ↔
      ∃ signature, MethodSignature.parse descriptor = .ok signature
  methods : List.Forall₂ (DeclaredMethod.Describes c.file.pool) (calls.filterMap Call.method?)
    c.file.methods
  overload : ∀ (place : Nat) declared, (calls.filterMap Call.method?)[place]? = some declared →
    ((∃ method, c.file.overload declared.name declared.descriptor = .ok (method, place)) ↔
      ∀ (other : Nat) rival, (calls.filterMap Call.method?)[other]? = some rival →
        rival.name = declared.name →
        MethodSignature.paramsText rival.descriptor =
          MethodSignature.paramsText declared.descriptor → other = place)

/-- Whatever calls are made, and whichever of them are refused, a draft comes to a class. The class
is accepted and initialized. Its texts are the noted ones and there is one of each; its methods are
those of the calls that have succeeded, in order; and its static fields hold what was given last. -/
theorem assemble_accomplishes (atRoot : Bool) (name : Bytes) (calls : List Call) :
    ∃ draft c, (assemble (opening atRoot name) calls).run {} = .ok () draft ∧
      (assemble (opening atRoot name) calls).build = .ok c ∧
      Accomplishes atRoot name calls draft c := by
  obtain ⟨draft, hrun, hdraft⟩ := run_assemble atRoot name calls
  refine ⟨draft, finished draft, hrun, build_eq_finished hrun, ?_⟩
  exact {
    accepted := hdraft.check
    name := hdraft.thisClass
    superName := hdraft.superName
    state := rfl
    noted := hdraft.interned.texts
    once := fun _ _ _ hposition hother => hdraft.interned.text_unique hposition hother
    staticNames := fun field => by
      rw [← isSome_lastSeed_iff, ← hdraft.statics field]
      rfl
    statics := hdraft.statics
    fields := hdraft.fields
    succeeds := exists_run_method_iff hdraft.interned
    methods := hdraft.methods
    overload := fun _ _ hdeclared => hdraft.overload_iff hdeclared }

end finished

end ClassMachine.Drafting
