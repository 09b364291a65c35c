import ClassMachine.Proofs.ClassFile.PoolExactness
import ClassMachine.Proofs.Pool.References

/-!
# Reading a class file is exact

Each decoder of a part of a class file reads the layout of that part. Reading a whole byte string
therefore succeeds exactly for the byte strings that write a class file, and gives that class file.
-/

namespace ClassMachine.ClassFile

open Decoder

variable {α : Type} {decoder : Decoder α} {form : Form α}

theorem ofBytes?_spelling (name : AttributeName) :
    AttributeName.ofBytes? (Utf8.encode name.spelling) = some name := by
  cases name with
  | raw name => cases name <;> rfl
  | _ => rfl

theorem ofBytes?_eq_some_iff (bytes : Bytes) (name : AttributeName) :
    AttributeName.ofBytes? bytes = some name ↔ bytes = Utf8.encode name.spelling := by
  constructor
  · intro h
    have hname := List.find?_some h
    exact (beq_iff_eq.1 hname).symm
  · rintro rfl
    exact ofBytes?_spelling name

theorem reads_nameOf (spelling : Bytes) : Reads
    (match AttributeName.ofBytes? spelling with
      | some name => pure name
      | none => throw (.unknownAttribute (Utf8.lenient spelling)))
    fun name bytes => spelling = Utf8.encode name.spelling ∧ bytes = [] := by
  cases h : AttributeName.ofBytes? spelling with
  | none =>
    refine (reads_throw _).congr fun name bytes => iff_of_false not_false ?_
    rintro ⟨hspelling, -⟩
    rw [(ofBytes?_eq_some_iff spelling name).2 hspelling] at h
    contradiction
  | some found =>
    refine (reads_pure found).congr fun name bytes => ?_
    rw [← ofBytes?_eq_some_iff, h, Option.some.injEq, eq_comm]

theorem reads_attributeNameDecoder (pool : ConstantPool) :
    Reads (attributeNameDecoder pool) fun name bytes => ∃ place, Form.position place bytes ∧
      Layout.textAt pool place (Utf8.encode name.spelling) := by
  refine (reads_poolIndex.bind fun place => (reads_lift (pool.utf8 place)).bind reads_nameOf).congr
    fun name bytes => ?_
  constructor
  · rintro ⟨place, front, _, hfront, ⟨spelling, _, _, ⟨htext, rfl⟩, ⟨rfl, rfl⟩, rfl⟩, rfl⟩
    rw [List.append_nil, List.append_nil]
    exact ⟨place, hfront, ConstantPool.utf8_eq_ok_iff.1 htext⟩
  · rintro ⟨place, hplace, htext⟩
    have hspelling := ConstantPool.utf8_eq_ok_iff.2 htext
    exact ⟨place, bytes, [], hplace, ⟨_, [], [], ⟨hspelling, rfl⟩, ⟨rfl, rfl⟩, rfl⟩,
      (List.append_nil bytes).symm⟩

theorem reads_wholeContent (name : AttributeName) (length : Nat) (content : Bytes)
    (h : UsesUp decoder form) : Reads
    (match decoder.runOn content with
      | .error e _ => throw e
      | .ok a cursor =>
        if cursor.isEmpty then pure a
        else throw (.attributeLength name.spelling length cursor.position))
    fun a bytes => form a content ∧ bytes = [] := by
  have hform := h content
  cases hrun : decoder.runOn content with
  | error e cursor =>
    refine (reads_throw e).congr fun a bytes => iff_of_false not_false ?_
    rintro ⟨ha, -⟩
    obtain ⟨after, hok, -⟩ := (hform a).2 ha
    rw [hrun] at hok
    contradiction
  | ok found cursor =>
    simp only [hrun, EStateM.Result.ok.injEq] at hform
    by_cases hempty : cursor.isEmpty
    · have hrest : cursor.rest = [] := List.isEmpty_iff.1 hempty
      simp only [hempty, if_true]
      refine (reads_pure found).congr fun a bytes => ?_
      rw [← hform a, eq_comm]
      simp [hrest]
    · have hrest : cursor.rest ≠ [] := fun he => hempty (List.isEmpty_iff.2 he)
      simp only [hempty]
      refine (reads_throw _).congr fun a bytes => iff_of_false not_false ?_
      rintro ⟨ha, -⟩
      obtain ⟨after, ⟨-, rfl⟩, hafter⟩ := (hform a).2 ha
      exact hrest hafter

theorem reads_contentDecoder (name : AttributeName) (h : UsesUp decoder form) :
    Reads (contentDecoder name decoder) fun a bytes => ∃ back, back.length < 2 ^ 32 ∧
      form a back ∧ bytes = Bytes.ofNat 4 back.length ++ back := by
  refine (reads_u32.bind fun length => (reads_bytes length.toNat).bind
    fun content => reads_wholeContent name length.toNat content h).congr fun a bytes => ?_
  constructor
  · rintro ⟨length, _, _, rfl, ⟨content, _, _, ⟨rfl, hlength⟩, ⟨ha, rfl⟩, rfl⟩, rfl⟩
    rw [List.append_nil]
    exact ⟨content, hlength ▸ length.toNat_lt, ha, by rw [hlength]⟩
  · rintro ⟨back, hlt, ha, rfl⟩
    have hlength := UInt32.toNat_ofNat_of_lt' hlt
    refine ⟨_, _, back, rfl, ⟨back, back, [], ⟨rfl, hlength.symm⟩, ⟨ha, rfl⟩, ?_⟩, by rw [hlength]⟩
    exact (List.append_nil back).symm

theorem reads_lineNumberDecoder : Reads lineNumberDecoder Layout.lineNumber := by
  refine (reads_u16.bind fun start => reads_u16.thenPure (LineNumber.mk start)).congr
    fun line bytes => ?_
  constructor
  · rintro ⟨start, _, _, rfl, ⟨number, rfl, rfl⟩, rfl⟩
    rfl
  · rintro rfl
    exact ⟨line.start, _, _, rfl, ⟨line.line, rfl, rfl⟩, rfl⟩

theorem reads_exceptionRangeDecoder : Reads exceptionRangeDecoder Layout.exceptionRange := by
  refine (reads_u16.bind fun start => reads_u16.bind fun stop => reads_u16.bind fun handler =>
    reads_u16.thenPure (ExceptionRange.mk start stop handler)).congr fun range bytes => ?_
  constructor
  · rintro ⟨start, _, _, rfl, ⟨stop, _, _, rfl, ⟨handler, _, _, rfl, ⟨catchType, rfl, rfl⟩, rfl⟩,
      rfl⟩, rfl⟩
    simp [Layout.exceptionRange]
  · rintro rfl
    exact ⟨range.start, _, _, rfl, ⟨range.stop, _, _, rfl, ⟨range.handler, _, _, rfl,
      ⟨range.catchType, rfl, rfl⟩, rfl⟩, rfl⟩, by simp⟩

theorem usesUp_plainContent {name : AttributeName} {content : Decoder PlainAttribute}
    (h : plainContent? name = some content) :
    UsesUp content fun a bytes => a.name = name ∧ Layout.plainContent a bytes := by
  have hplace (make : Nat → PlainAttribute) (hname : ∀ place, (make place).name = name)
      (hbody : ∀ place bytes, Layout.plainContent (make place) bytes ↔ Form.position place bytes)
      (honly : ∀ a : PlainAttribute, a.name = name → ∃ place, make place = a) :
      UsesUp (make <$> poolIndex) fun a bytes =>
        a.name = name ∧ Layout.plainContent a bytes := by
    refine (reads_poolIndex.map make).usesUp.congr fun a bytes => ?_
    constructor
    · rintro ⟨place, hform, rfl⟩
      exact ⟨hname place, (hbody place bytes).2 hform⟩
    · rintro ⟨ha, hcontent⟩
      obtain ⟨place, rfl⟩ := honly a ha
      exact ⟨place, (hbody place bytes).1 hcontent, rfl⟩
  cases name with
  | code => contradiction
  | constantValue =>
    obtain rfl := Option.some.inj h
    refine hplace _ (fun _ => rfl) (fun _ _ => Iff.rfl) fun a ha => ?_
    cases a <;> simp_all [PlainAttribute.name]
  | signature =>
    obtain rfl := Option.some.inj h
    refine hplace _ (fun _ => rfl) (fun _ _ => Iff.rfl) fun a ha => ?_
    cases a <;> simp_all [PlainAttribute.name]
  | sourceFile =>
    obtain rfl := Option.some.inj h
    refine hplace _ (fun _ => rfl) (fun _ _ => Iff.rfl) fun a ha => ?_
    cases a <;> simp_all [PlainAttribute.name]
  | lineNumberTable =>
    obtain rfl := Option.some.inj h
    refine (reads_lineNumberDecoder.table.map _).usesUp.congr fun a bytes => ?_
    cases a <;> simp [PlainAttribute.name, Layout.plainContent]
  | raw name =>
    obtain rfl := Option.some.inj h
    refine (usesUp_rest.map _).congr fun a bytes => ?_
    cases a <;> simp [PlainAttribute.name, Layout.plainContent, and_comm, eq_comm]

theorem plainName_ne_code (a : PlainAttribute) : a.name ≠ .code := by
  cases a <;> simp [PlainAttribute.name]

theorem plainContent?_eq_none {name : AttributeName} (h : plainContent? name = none) :
    name = .code := by
  cases name with
  | code => rfl
  | _ => contradiction

def lengthAndContent (content : Bytes → Prop) (bytes : Bytes) : Prop :=
  ∃ back, back.length < 2 ^ 32 ∧ content back ∧ bytes = Bytes.ofNat 4 back.length ++ back

/-- An attribute is read by reading its name and then what the name asks for. -/
theorem reads_named (pool : ConstantPool) {next : AttributeName → Decoder α}
    {nameOf : α → AttributeName} {content : α → Bytes → Prop}
    (h : ∀ name, Reads (next name) fun a bytes =>
      nameOf a = name ∧ lengthAndContent (content a) bytes) :
    Reads (attributeNameDecoder pool >>= next) fun a =>
      Layout.attributeNamed pool (nameOf a) (content a) := by
  refine ((reads_attributeNameDecoder pool).bind h).congr fun a bytes => ?_
  constructor
  · rintro ⟨_, front, _, ⟨place, hfront, htext⟩, ⟨rfl, back, hlt, hcontent, rfl⟩, rfl⟩
    exact ⟨place, front, back, hfront, htext, hlt, hcontent, (List.append_assoc ..).symm⟩
  · rintro ⟨place, front, back, hfront, htext, hlt, hcontent, rfl⟩
    exact ⟨_, front, _, ⟨place, hfront, htext⟩, ⟨rfl, back, hlt, hcontent, rfl⟩,
      List.append_assoc ..⟩

theorem reads_plainContent (name : AttributeName) : Reads
    (match plainContent? name with
      | some content => contentDecoder name content
      | none => throw .nestedCode)
    fun a bytes => a.name = name ∧ lengthAndContent (Layout.plainContent a) bytes := by
  cases h : plainContent? name with
  | none =>
    obtain rfl := plainContent?_eq_none h
    exact (reads_throw _).congr fun a bytes =>
      iff_of_false not_false fun ha => plainName_ne_code a ha.1
  | some content =>
    refine (reads_contentDecoder name (usesUp_plainContent h)).congr fun a bytes => ?_
    constructor
    · rintro ⟨back, hlt, ⟨hname, hcontent⟩, hbytes⟩
      exact ⟨hname, back, hlt, hcontent, hbytes⟩
    · rintro ⟨hname, back, hlt, hcontent, hbytes⟩
      exact ⟨back, hlt, ⟨hname, hcontent⟩, hbytes⟩

theorem reads_plainAttributeDecoder (pool : ConstantPool) :
    Reads (plainAttributeDecoder pool) (Layout.plainAttribute pool) :=
  reads_named pool reads_plainContent

theorem reads_codeDecoder (pool : ConstantPool) :
    Reads (codeDecoder pool) (Layout.code pool) := by
  refine (reads_u16.bind fun maxStack => reads_u16.bind fun maxLocals => reads_u32.bind
    fun length => (reads_bytes length.toNat).bind fun code =>
      reads_exceptionRangeDecoder.table.bind fun exceptions =>
        (reads_plainAttributeDecoder pool).table.thenPure
          (Code.mk maxStack maxLocals code exceptions)).congr fun code bytes => ?_
  constructor
  · rintro ⟨maxStack, _, _, rfl, ⟨maxLocals, _, _, rfl, ⟨length, _, _, rfl, ⟨content, _, _,
      ⟨rfl, hlength⟩, ⟨exceptions, front, back, hexceptions, ⟨attributes, hattributes, rfl⟩, rfl⟩,
      rfl⟩, rfl⟩, rfl⟩, rfl⟩
    refine ⟨front, back, hlength ▸ length.toNat_lt, hexceptions, hattributes, ?_⟩
    simp [hlength]
  · rintro ⟨exceptions, attributes, hlt, hexceptions, hattributes, rfl⟩
    have hlength := UInt32.toNat_ofNat_of_lt' hlt
    refine ⟨code.maxStack, _, _, rfl, ⟨code.maxLocals, _, _, rfl, ⟨_, _, _, rfl, ⟨code.bytes, _, _,
      ⟨rfl, hlength.symm⟩, ⟨code.exceptions, exceptions, attributes, hexceptions,
      ⟨code.attributes, hattributes, rfl⟩, rfl⟩, rfl⟩, rfl⟩, rfl⟩, ?_⟩
    simp [hlength]

theorem reads_content (pool : ConstantPool) (name : AttributeName) : Reads
    (match plainContent? name with
      | some content => do return Attribute.plain (← contentDecoder name content)
      | none => do return Attribute.code (← contentDecoder name (codeDecoder pool)))
    fun a bytes => a.name = name ∧ lengthAndContent (Layout.content pool a) bytes := by
  cases h : plainContent? name with
  | none =>
    obtain rfl := plainContent?_eq_none h
    refine ((reads_contentDecoder .code (reads_codeDecoder pool).usesUp).thenPure
      Attribute.code).congr fun a bytes => ?_
    cases a with
    | plain content => simp [Attribute.name, plainName_ne_code]
    | code content => simp [Attribute.name, Layout.content, lengthAndContent]
  | some content =>
    have hname : name ≠ .code := by
      rintro rfl
      contradiction
    refine ((reads_contentDecoder name (usesUp_plainContent h)).thenPure
      Attribute.plain).congr fun a bytes => ?_
    cases a with
    | plain content =>
      simp only [Attribute.plain.injEq, exists_eq_right, Attribute.name, Layout.content]
      constructor
      · rintro ⟨back, hlt, ⟨hname, hcontent⟩, hbytes⟩
        exact ⟨hname, back, hlt, hcontent, hbytes⟩
      · rintro ⟨hname, back, hlt, hcontent, hbytes⟩
        exact ⟨back, hlt, ⟨hname, hcontent⟩, hbytes⟩
    | code content => simp [Attribute.name, hname.symm]

theorem reads_attributeDecoder (pool : ConstantPool) :
    Reads (attributeDecoder pool) (Layout.anyAttribute pool) :=
  reads_named pool (reads_content pool)

theorem descriptor_eq_ok_iff (pool : ConstantPool) (place : Nat)
    (parse : Bytes → Except StructuralError α) (a : α) :
    (pool.utf8 place >>= parse) = .ok a ↔
      ∃ text, Layout.textAt pool place text ∧ parse text = .ok a := by
  simp only [Work.bind_eq_ok_iff, ConstantPool.utf8_eq_ok_iff, Layout.textAt]

theorem reads_fieldDecoder (pool : ConstantPool) :
    Reads (fieldDecoder pool) (Layout.field pool) := by
  refine (reads_u16.bind fun flags => reads_poolIndex.bind fun name => reads_poolIndex.bind
    fun descriptor => (reads_lift (pool.utf8 descriptor >>= FieldType.parse)).discard.bind fun _ =>
      (reads_attributeDecoder pool).table.thenPure
        (Field.mk ⟨flags⟩ name descriptor)).congr fun field bytes => ?_
  constructor
  · rintro ⟨flags, _, _, rfl, ⟨name, front, _, hname, ⟨descriptor, middle, back, hdescriptor, ⟨-, _, _,
      ⟨type, htype, rfl⟩, ⟨attributes, hattributes, rfl⟩, rfl⟩, rfl⟩, rfl⟩, rfl⟩
    obtain ⟨text, htext, htype⟩ := (descriptor_eq_ok_iff _ _ _ _).1 htype
    refine ⟨⟨text, type, htext, htype⟩, front, middle, back, hname, hdescriptor, hattributes, ?_⟩
    simp
  · rintro ⟨⟨text, type, htext, htype⟩, front, middle, back, hname, hdescriptor, hattributes, rfl⟩
    have htype := (descriptor_eq_ok_iff _ _ _ _).2 ⟨text, htext, htype⟩
    refine ⟨field.flags.bits, _, _, rfl, ⟨field.name, front, _, hname, ⟨field.descriptor, middle, _,
      hdescriptor, ⟨⟨⟩, _, back, ⟨type, htype, rfl⟩, ⟨field.attributes, hattributes, rfl⟩, rfl⟩, rfl⟩,
      rfl⟩, ?_⟩
    simp

theorem reads_methodDecoder (pool : ConstantPool) :
    Reads (methodDecoder pool) (Layout.method pool) := by
  refine (reads_u16.bind fun flags => reads_poolIndex.bind fun name => reads_poolIndex.bind
    fun descriptor => (reads_attributeDecoder pool).table.bind fun attributes =>
      (reads_lift (pool.utf8 descriptor >>= MethodSignature.parse)).thenPure fun signature =>
        Method.mk ⟨flags⟩ name descriptor attributes signature .bytecode).congr
    fun method bytes => ?_
  constructor
  · rintro ⟨flags, _, _, rfl, ⟨name, front, _, hname, ⟨descriptor, middle, _, hdescriptor,
      ⟨attributes, back, _, hattributes, ⟨signature, ⟨hsignature, rfl⟩, rfl⟩, rfl⟩, rfl⟩, rfl⟩, rfl⟩
    obtain ⟨text, htext, hsignature⟩ := (descriptor_eq_ok_iff _ _ _ _).1 hsignature
    refine ⟨⟨text, htext, hsignature⟩, rfl, front, middle, back, hname, hdescriptor, hattributes, ?_⟩
    simp
  · rintro ⟨⟨text, htext, hsignature⟩, hbody, front, middle, back, hname, hdescriptor, hattributes,
      rfl⟩
    have hsignature := (descriptor_eq_ok_iff _ _ _ _).2 ⟨text, htext, hsignature⟩
    refine ⟨method.flags.bits, _, _, rfl, ⟨method.name, front, _, hname, ⟨method.descriptor, middle,
      _, hdescriptor, ⟨method.attributes, back, [], hattributes, ⟨method.signature,
      ⟨hsignature, rfl⟩, ?_⟩, rfl⟩, rfl⟩, rfl⟩, ?_⟩
    · rw [← hbody]
    · simp

theorem reads_end (file : ClassFile) :
    ReadsIf (fun after => after.rest = [])
      (do
        let cursor ← get
        if cursor.remaining ≠ 0 then
          let _ ← (throw (.trailingBytes cursor.remaining) : Decoder Unit)
          pure file
        else pure file)
      fun a bytes => a = file ∧ bytes = [] := by
  intro cursor a after
  rw [EStateM.run_bind, EStateM.run_get]
  obtain ⟨place, rest⟩ := cursor
  obtain ⟨position, back⟩ := after
  cases rest with
  | nil =>
    simp only [Cursor.remaining, List.length_nil, ne_eq, not_true_eq_false, if_false,
      EStateM.run_pure]
    constructor
    · intro h
      simp only [EStateM.Result.ok.injEq, Cursor.mk.injEq] at h
      obtain ⟨rfl, rfl, rfl⟩ := h
      exact ⟨[], ⟨rfl, rfl⟩, rfl, rfl, rfl⟩
    · rintro ⟨_, ⟨rfl, rfl⟩, -, hposition, hback⟩
      simp only [List.length_nil, Nat.add_zero] at hposition hback
      rw [hposition, hback]
  | cons b rest =>
    refine iff_of_false (fun h => ?_) ?_
    · simp [Cursor.remaining] at h
    · rintro ⟨_, ⟨rfl, rfl⟩, hrest, -, hback⟩
      simp only at hrest hback
      rw [hback] at hrest
      contradiction

theorem magic_bytes (x : UInt32) :
    x = magic ↔ Bytes.ofNat 4 x.toNat = [0xca, 0xfe, 0xba, 0xbe] := by
  have hmagic : Bytes.ofNat 4 magic.toNat = [0xca, 0xfe, 0xba, 0xbe] := by decide
  constructor
  · rintro rfl
    exact hmagic
  · intro h
    exact UInt32.toNat_inj.1
      (Bytes.ofNat_injective x.toNat_lt magic.toNat_lt (h.trans hmagic.symm))

theorem reads_decoder :
    ReadsIf (fun after => after.rest = []) ClassFile.decoder Layout.classFile := by
  have hpieces := ReadsIf.bind reads_u16 fun minorVersion => ReadsIf.bind reads_u16
    fun majorVersion => ReadsIf.bind reads_poolDecoder fun pool => ReadsIf.bind reads_u16
    fun flags => ReadsIf.bind reads_poolIndex fun thisClass =>
    ReadsIf.bind reads_optionalPoolIndex fun superClass =>
    ReadsIf.bind reads_poolIndex.table fun interfaces =>
    ReadsIf.bind (reads_fieldDecoder pool).table fun fields =>
    ReadsIf.bind (reads_methodDecoder pool).table fun methods =>
    ReadsIf.bind (reads_attributeDecoder pool).table fun attributes => reads_end
      { minorVersion, majorVersion, pool, flags := ⟨flags⟩, thisClass, superClass, interfaces,
        fields, methods, attributes }
  have hcontents : ReadsIf (fun after => after.rest = []) _ Layout.contents :=
      hpieces.congr fun file bytes => by
    constructor
    · rintro ⟨minorVersion, _, _, rfl, ⟨majorVersion, _, _, rfl, ⟨pool, poolBytes, _, hpool, ⟨flags,
        _, _, rfl, ⟨thisClass, thisBytes, _, hthis, ⟨superClass, superBytes, _, hsuper,
        ⟨interfaces, interfaceBytes, _, hinterfaces, ⟨fields, fieldBytes, _, hfields,
        ⟨methods, methodBytes, _, hmethods, ⟨attributes, attributeBytes, _, hattributes,
        ⟨rfl, rfl⟩, rfl⟩, rfl⟩, rfl⟩, rfl⟩, rfl⟩, rfl⟩, rfl⟩, rfl⟩, rfl⟩, rfl⟩
      refine ⟨poolBytes, thisBytes, superBytes, interfaceBytes, fieldBytes, methodBytes,
        attributeBytes, hpool, hthis, hsuper, hinterfaces, hfields, hmethods, hattributes, ?_⟩
      simp
    · rintro ⟨poolBytes, thisBytes, superBytes, interfaceBytes, fieldBytes, methodBytes,
        attributeBytes, hpool, hthis, hsuper, hinterfaces, hfields, hmethods, hattributes, rfl⟩
      refine ⟨file.minorVersion, _, _, rfl, ⟨file.majorVersion, _, _, rfl, ⟨file.pool, poolBytes, _,
        hpool, ⟨file.flags.bits, _, _, rfl, ⟨file.thisClass, thisBytes, _, hthis, ⟨file.superClass,
        superBytes, _, hsuper, ⟨file.interfaces, interfaceBytes, _, hinterfaces, ⟨file.fields,
        fieldBytes, _, hfields, ⟨file.methods, methodBytes, _, hmethods, ⟨file.attributes,
        attributeBytes, _, hattributes, ⟨rfl, rfl⟩, rfl⟩, rfl⟩, rfl⟩, rfl⟩, rfl⟩, rfl⟩, rfl⟩, rfl⟩,
        rfl⟩, ?_⟩
      simp
  have hrefused (found : UInt32) := ReadsIf.bind (reads_throw (α := Unit) (.badMagic found))
    fun _ => hcontents
  have h := ReadsIf.bind reads_u32 fun found =>
    Decoder.ReadsIf.ite (p := found ≠ magic) (hrefused found) hcontents
  refine ReadsIf.congr h fun file bytes => ?_
  constructor
  · rintro ⟨found, _, back, rfl, hback, rfl⟩
    split at hback
    next => obtain ⟨_, _, _, hfalse, _⟩ := hback; contradiction
    next hmagic => exact ⟨back, hback, by rw [(magic_bytes found).1 (not_not.1 hmagic)]⟩
  · rintro ⟨back, hback, rfl⟩
    refine ⟨magic, _, back, ((magic_bytes magic).1 rfl).symm, ?_, rfl⟩
    rwa [if_neg (not_not.2 rfl)]

theorem layout_of_parse {content : Bytes} {file : ClassFile} (h : parse content = .ok file) :
    Layout.classFile file content := by
  unfold parse at h
  cases hrun : ClassFile.decoder.runOn content with
  | error e after => rw [hrun] at h; contradiction
  | ok found after =>
    rw [hrun] at h
    obtain rfl := Except.ok.inj h
    obtain ⟨bytes, hform, hrest, -, hafter⟩ := (reads_decoder _ _ _).1 hrun
    rw [hafter, List.append_nil] at hrest
    obtain rfl : content = bytes := hrest
    exact hform

theorem parse_of_layout {content : Bytes} {file : ClassFile}
    (h : Layout.classFile file content) : parse content = .ok file := by
  have hrun := (reads_decoder (Cursor.ofBytes content) file ⟨content.length, []⟩).2
    ⟨content, h, (List.append_nil content).symm, (Nat.zero_add _).symm, rfl⟩
  rw [parse, runOn, hrun]

theorem layout_of_mem_methods {content : Bytes} {file : ClassFile} (h : parse content = .ok file)
    {method : Method} (hmethod : method ∈ file.methods) :
    ∃ bytes, Layout.method file.pool method bytes := by
  obtain ⟨back, hcontents, -⟩ := layout_of_parse h
  obtain ⟨_, _, _, _, _, _, _, _, _, _, _, _, ⟨_, _, hmethods, _⟩, _⟩ := hcontents
  exact hmethods.exists_item method hmethod

theorem body_of_parse {content : Bytes} {file : ClassFile} (h : parse content = .ok file) :
    ∀ method ∈ file.methods, method.body = .bytecode := by
  intro method hmethod
  obtain ⟨bytes, -, hbody, -⟩ := layout_of_mem_methods h hmethod
  exact hbody

/-- Reading succeeds for exactly the byte strings that write a class file. -/
theorem parse_eq_ok_iff (content : Bytes) (file : ClassFile) :
    parse content = .ok file ↔ Layout.classFile file content :=
  ⟨layout_of_parse, parse_of_layout⟩

end ClassMachine.ClassFile
