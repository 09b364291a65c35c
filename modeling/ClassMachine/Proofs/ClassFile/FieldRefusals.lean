import ClassMachine.Proofs.ClassFile.Exactness
import ClassMachine.Proofs.Descriptor.Refusals

/-!
# Class files whose field descriptors are refused

The descriptor of a field is looked at while the file is read, so a file that is all there may be
refused because of one. The first field whose descriptor is refused settles the error, and if that
descriptor is the beginning of a type, the file fails as if it had been cut off.
-/

namespace ClassMachine

namespace Form

variable {α : Type} {strict loose : Form α} {p : α → Prop}

theorem sequence_and_iff (h : ∀ a part, strict a part ↔ loose a part ∧ p a) {items : List α}
    {bytes : Bytes} :
    sequence strict items bytes ↔ sequence loose items bytes ∧ ∀ a ∈ items, p a := by
  constructor
  · intro hitems
    induction hitems with
    | nil => exact ⟨.nil, by simp⟩
    | cons hfirst _ ih =>
      obtain ⟨hloose, hp⟩ := (h _ _).1 hfirst
      exact ⟨.cons hloose ih.1, List.forall_mem_cons.2 ⟨hp, ih.2⟩⟩
  · rintro ⟨hitems, hall⟩
    induction hitems with
    | nil => exact .nil
    | cons hfirst _ ih =>
      obtain ⟨hp, hothers⟩ := List.forall_mem_cons.1 hall
      exact .cons ((h _ _).2 ⟨hfirst, hp⟩) (ih hothers)

theorem table_and_iff (h : ∀ a part, strict a part ↔ loose a part ∧ p a) {items : List α}
    {bytes : Bytes} : table strict items bytes ↔ table loose items bytes ∧ ∀ a ∈ items, p a := by
  simp only [table, sequence_and_iff h]
  grind

end Form

namespace Decoder

variable {α β : Type} {e : StructuralError} {decoder : Decoder α} {form : Form α}

/-- The decoder fails with this error at the bytes, whatever follows them. -/
def FailsAt (e : StructuralError) (decoder : Decoder α) (read : Bytes) : Prop :=
  ∀ position rest, ∃ after, decoder.run ⟨position, read ++ rest⟩ = .error e after

theorem FailsAt.append {read : Bytes} (h : FailsAt e decoder read) (more : Bytes) :
    FailsAt e decoder (read ++ more) := by
  intro position rest
  rw [List.append_assoc]
  exact h position (more ++ rest)

theorem FailsAt.bind {read : Bytes} (h : FailsAt e decoder read) (next : α → Decoder β) :
    FailsAt e (decoder >>= next) read := by
  intro position rest
  obtain ⟨after, hrun⟩ := h position rest
  exact ⟨after, by rw [EStateM.run_bind, hrun]⟩

theorem Reads.failsAt_bind (h : Reads decoder form) {a : α} {front back : Bytes} (ha : form a front)
    {next : α → Decoder β} (hnext : FailsAt e (next a) back) :
    FailsAt e (decoder >>= next) (front ++ back) := by
  intro position rest
  rw [EStateM.run_bind, List.append_assoc, h.run ha]
  exact hnext _ rest

theorem failsAt_discard_lift {answer : Except StructuralError α} (h : answer = .error e)
    (read : Bytes) : FailsAt e (discard (lift answer)) read := by
  subst h
  exact fun position rest => ⟨⟨position, read ++ rest⟩, rfl⟩

/-- Items are read up to the first one whose check fails, and no further. -/
theorem failsAt_times {loose : Form α} {check : α → Except StructuralError Unit}
    (hread : Reads decoder form) (hgood : ∀ a part, loose a part → check a = .ok () → form a part)
    (hbad : ∀ a part, loose a part → check a = .error e → FailsAt e decoder part)
    {items : List α} {bytes : Bytes} (hitems : Form.sequence loose items bytes)
    (h : items.forM check = .error e) : FailsAt e (times items.length decoder) bytes := by
  induction hitems with
  | nil => contradiction
  | @cons first front others back hfirst _ ih =>
    rw [List.length_cons, times]
    have hcons : check first >>= (fun _ => others.forM check) = .error e := h
    cases hcheck : check first with
    | error found =>
      rw [hcheck] at hcons
      obtain rfl := Except.error.inj hcons
      exact ((hbad first front hfirst hcheck).bind _).append back
    | ok done =>
      rw [hcheck] at hcons
      exact hread.failsAt_bind (hgood first front hfirst hcheck) ((ih hcons).bind _)

theorem failsAt_table {loose : Form α} {check : α → Except StructuralError Unit}
    (hread : Reads decoder form) (hgood : ∀ a part, loose a part → check a = .ok () → form a part)
    (hbad : ∀ a part, loose a part → check a = .error e → FailsAt e decoder part)
    {items : List α} {bytes : Bytes} (hitems : Form.table loose items bytes)
    (h : items.forM check = .error e) : FailsAt e (table decoder) bytes := by
  obtain ⟨back, hlength, hsequence, rfl⟩ := hitems
  have hcount := UInt16.toNat_ofNat_of_lt' hlength
  refine reads_u16.failsAt_bind (a := .ofNat items.length) (by rw [hcount]) ?_
  rw [hcount]
  exact failsAt_times hread hgood hbad hsequence h

end Decoder

namespace Layout

open Form

/-- A field as it is written, whatever its descriptor says. -/
def looseField (pool : ConstantPool) : Form Field :=
  fun field => memberBytes pool field.flags field.name field.descriptor field.attributes

/-- Every byte of a class file, whatever the descriptors of its fields say. -/
def complete : Form ClassFile :=
  fun file bytes => ∃ poolBytes back, pool file.pool poolBytes ∧
    behindPool looseField file back ∧ bytes = head file ++ (poolBytes ++ back)

end Layout

namespace ClassFile

open Decoder

def checkDescriptor (pool : ConstantPool) (field : Field) : Except StructuralError Unit :=
  discard (pool.utf8 field.descriptor >>= FieldType.parse)

theorem layout_field_iff (pool : ConstantPool) (field : Field) (bytes : Bytes) :
    Layout.field pool field bytes ↔
      Layout.looseField pool field bytes ∧ checkDescriptor pool field = .ok () := by
  rw [checkDescriptor, Work.discard_eq_ok_iff, and_comm]
  simp only [descriptor_eq_ok_iff]
  exact and_congr_left' exists_comm

theorem behindPool_iff {file : ClassFile} {bytes : Bytes} :
    Layout.behindPool Layout.field file bytes ↔ Layout.behindPool Layout.looseField file bytes ∧
      ∀ field ∈ file.fields, checkDescriptor file.pool field = .ok () := by
  unfold Layout.behindPool
  simp only [Form.table_and_iff (layout_field_iff file.pool)]
  constructor
  · rintro ⟨thisBytes, superBytes, interfaceBytes, fieldBytes, methodBytes, attributeBytes, hthis,
      hsuper, hinterfaces, ⟨hfields, hcheck⟩, hrest⟩
    exact ⟨⟨thisBytes, superBytes, interfaceBytes, fieldBytes, methodBytes, attributeBytes, hthis,
      hsuper, hinterfaces, hfields, hrest⟩, hcheck⟩
  · rintro ⟨⟨thisBytes, superBytes, interfaceBytes, fieldBytes, methodBytes, attributeBytes, hthis,
      hsuper, hinterfaces, hfields, hrest⟩, hcheck⟩
    exact ⟨thisBytes, superBytes, interfaceBytes, fieldBytes, methodBytes, attributeBytes, hthis,
      hsuper, hinterfaces, ⟨hfields, hcheck⟩, hrest⟩

theorem classFile_iff_complete {file : ClassFile} {content : Bytes} :
    Layout.classFile file content ↔ Layout.complete file content ∧
      file.fields.forM (checkDescriptor file.pool) = .ok () := by
  simp only [Layout.classFile_iff_parts, behindPool_iff, Layout.complete, Work.forM_eq_ok_iff]
  constructor
  · rintro ⟨poolBytes, back, hpool, ⟨hback, hcheck⟩, hcontent⟩
    exact ⟨⟨poolBytes, back, hpool, hback, hcontent⟩, hcheck⟩
  · rintro ⟨⟨poolBytes, back, hpool, hback, hcontent⟩, hcheck⟩
    exact ⟨poolBytes, back, hpool, ⟨hback, hcheck⟩, hcontent⟩

theorem failsAt_fieldDecoder {pool : ConstantPool} {field : Field} {bytes : Bytes}
    {e : StructuralError} (hbytes : Layout.looseField pool field bytes)
    (h : checkDescriptor pool field = .error e) : FailsAt e (fieldDecoder pool) bytes := by
  obtain ⟨nameBytes, descriptorBytes, attributeBytes, hname, hdescriptor, -, rfl⟩ := hbytes
  rw [List.append_assoc, List.append_assoc]
  refine reads_u16.failsAt_bind rfl (reads_poolIndex.failsAt_bind hname
    (reads_poolIndex.failsAt_bind hdescriptor ((failsAt_discard_lift ?_ _).bind _)))
  exact (Work.map_eq_error_iff _ _ _).1 h

theorem failsAt_decoder {file : ClassFile} {content : Bytes} {e : StructuralError}
    (hcontent : Layout.complete file content)
    (h : file.fields.forM (checkDescriptor file.pool) = .error e) :
    FailsAt e ClassFile.decoder content := by
  obtain ⟨poolBytes, _, hpool, ⟨thisBytes, superBytes, interfaceBytes, fieldBytes, methodBytes,
    attributeBytes, hthis, hsuper, hinterfaces, hfields, -, -, rfl⟩, rfl⟩ := hcontent
  have htable : FailsAt e (table (fieldDecoder file.pool)) fieldBytes :=
    failsAt_table (reads_fieldDecoder file.pool)
      (fun field part hpart hcheck => (layout_field_iff _ _ _).2 ⟨hpart, hcheck⟩)
      (fun field part hpart hcheck => failsAt_fieldDecoder hpart hcheck) hfields h
  simp only [Layout.head, List.append_assoc]
  refine reads_u32.failsAt_bind (a := magic) ((magic_bytes magic).1 rfl).symm ?_
  rw [if_neg (not_not.2 rfl)]
  exact reads_u16.failsAt_bind rfl (reads_u16.failsAt_bind rfl (reads_poolDecoder.failsAt_bind hpool
    (reads_u16.failsAt_bind rfl (reads_poolIndex.failsAt_bind hthis
    (reads_optionalPoolIndex.failsAt_bind hsuper (reads_poolIndex.table.failsAt_bind hinterfaces
    ((htable.bind _).append _)))))))

/-- A class file of which every byte is there is read as far as its field descriptors allow. -/
theorem parse_of_complete {file : ClassFile} {content : Bytes}
    (hcontent : Layout.complete file content) :
    parse content = (fun _ => file) <$> file.fields.forM (checkDescriptor file.pool) := by
  cases h : file.fields.forM (checkDescriptor file.pool) with
  | ok done => exact parse_of_layout (classFile_iff_complete.2 ⟨hcontent, h⟩)
  | error e =>
    obtain ⟨after, hrun⟩ := failsAt_decoder hcontent h 0 []
    rw [List.append_nil] at hrun
    rw [parse, runOn, Cursor.ofBytes, hrun]
    rfl

def Described (pool : ConstantPool) (field : Field) : Prop :=
  ∃ text type, pool.utf8 field.descriptor = .ok text ∧ FieldType.spelling type text

theorem checkDescriptor_eq_ok_iff {pool : ConstantPool} {field : Field} :
    checkDescriptor pool field = .ok () ↔ Described pool field := by
  simp only [checkDescriptor, Work.discard_eq_ok_iff, Work.bind_eq_ok_iff, Described,
    FieldType.parse_iff_spelling]
  exact exists_comm

theorem utf8_ne_unexpectedEnd (pool : ConstantPool) (place offset wanted : Nat) :
    pool.utf8 place ≠ .error (.unexpectedEnd offset wanted) := by
  unfold ConstantPool.utf8 ConstantPool.get
  cases pool.constants[place]? with
  | none => exact fun h => nomatch h
  | some constant => cases constant <;> exact fun h => nomatch h

theorem checkDescriptor_eq_unexpectedEnd_iff {pool : ConstantPool} {field : Field}
    {offset wanted : Nat} : checkDescriptor pool field = .error (.unexpectedEnd offset wanted) ↔
      ∃ text, pool.utf8 field.descriptor = .ok text ∧ FieldType.Unfinished text ∧
        offset = text.length ∧ wanted = 1 := by
  refine (Work.map_eq_error_iff _ _ _).trans ?_
  cases htext : pool.utf8 field.descriptor with
  | error e =>
    refine iff_of_false (fun h => ?_) (by simp)
    obtain rfl := Except.error.inj h
    exact utf8_ne_unexpectedEnd pool _ _ _ htext
  | ok text =>
    refine FieldType.parse_eq_unexpectedEnd_iff.trans ?_
    simp

/-- What becomes of a field descriptor, and of a class file of which every byte is there: the
descriptor that is the beginning of another one is missed at its end, and if it is the first to be
refused, the class file fails as if it had been cut off. -/
theorem fieldDescriptor_refusals (descriptor : Bytes) {file : ClassFile} {content : Bytes}
    (hcontent : Layout.complete file content) :
    ((∀ type, FieldType.parse descriptor = .ok type ↔ FieldType.spelling type descriptor) ∧
      (∀ offset wanted, FieldType.parse descriptor = .error (.unexpectedEnd offset wanted) ↔
        FieldType.Unfinished descriptor ∧ offset = descriptor.length ∧ wanted = 1) ∧
      ((∃ shown, FieldType.parse descriptor = .error (.malformedDescriptor shown)) ↔
        (∀ type, ¬ FieldType.spelling type descriptor) ∧ ¬ FieldType.Unfinished descriptor)) ∧
    (parse content = .ok file ↔ ∀ field ∈ file.fields, Described file.pool field) ∧
    ∀ offset wanted, parse content = .error (.unexpectedEnd offset wanted) ↔
      ∃ front field back text, file.fields = front ++ field :: back ∧
        (∀ earlier ∈ front, Described file.pool earlier) ∧
        file.pool.utf8 field.descriptor = .ok text ∧ FieldType.Unfinished text ∧
        offset = text.length ∧ wanted = 1 := by
  refine ⟨⟨fun type => FieldType.parse_iff_spelling, fun offset wanted =>
    FieldType.parse_eq_unexpectedEnd_iff, FieldType.parse_eq_malformed_iff⟩, ?_⟩
  rw [parse_of_complete hcontent]
  constructor
  · rw [map_eq_pure_bind, Work.check_bind_eq_ok_iff, Work.forM_eq_ok_iff]
    simp only [checkDescriptor_eq_ok_iff, and_iff_left_iff_imp]
    exact fun _ => rfl
  · intro offset wanted
    rw [Work.map_eq_error_iff, Work.forM_eq_error_iff]
    simp only [checkDescriptor_eq_ok_iff, checkDescriptor_eq_unexpectedEnd_iff, ← exists_and_left]

def letterClass (letter : UInt8) : ClassFile where
  majorVersion := 52
  pool := ⟨#[.utf8 [0x41], .classEntry 0, .utf8 [letter]]⟩
  thisClass := 1
  fields := [⟨⟨0⟩, 0, 2, []⟩]

def letterContent (letter : UInt8) : Bytes :=
  [0xca, 0xfe, 0xba, 0xbe, 0, 0, 0, 52, 0, 4, 1, 0, 1, 0x41, 7, 0, 1, 1, 0, 1, letter, 0, 1, 0, 2,
    0, 0, 0, 0, 0, 1, 0, 0, 0, 1, 0, 3, 0, 0, 0, 0, 0, 0]

theorem complete_letter (letter : UInt8) :
    Layout.complete (letterClass letter) (letterContent letter) := by
  have hpool := (reads_poolDecoder.usesUp [0, 4, 1, 0, 1, 0x41, 7, 0, 1, 1, 0, 1, letter] _).1
    ⟨_, rfl, rfl⟩
  have hplace (place : Nat) (hlt : place + 1 < 2 ^ 16) :
      Form.position place (Bytes.ofNat 2 (place + 1)) := ⟨hlt, rfl⟩
  have hnone {α : Type} (item : Form α) : Form.table item [] [0, 0] :=
    ⟨[], by simp, .nil, by simp [Bytes.ofNat]⟩
  have hfield : Layout.looseField (letterClass letter).pool ⟨⟨0⟩, 0, 2, []⟩
      [0, 0, 0, 1, 0, 3, 0, 0] :=
    ⟨_, _, _, hplace 0 (by decide), hplace 2 (by decide), hnone _, rfl⟩
  refine ⟨_, _, hpool, ⟨_, _, _, _, _, _, hplace 1 (by decide), ⟨by simp [letterClass], rfl⟩,
    hnone _, ⟨_, by simp [letterClass], .cons hfield .nil, rfl⟩, hnone _, hnone _, rfl⟩, ?_⟩
  simp [letterContent, letterClass, Layout.head, Bytes.ofNat, AccessFlags.publicBit]

theorem fieldDescriptor_refusals_letter :
    Layout.complete (letterClass 0x4c) (letterContent 0x4c) ∧
      FieldType.Unfinished [0x4c] ∧ parse (letterContent 0x4c) = .error (.unexpectedEnd 1 1) := by
  have hcomplete := complete_letter 0x4c
  obtain ⟨⟨-, hends, -⟩, -, hrefused⟩ := fieldDescriptor_refusals [0x4c] hcomplete
  have hparse : FieldType.parse [0x4c] = .error (.unexpectedEnd 1 1) := by decide +kernel
  have hunfinished := ((hends 1 1).1 hparse).1
  exact ⟨hcomplete, hunfinished, (hrefused 1 1).2
    ⟨[], _, [], _, rfl, by simp, rfl, hunfinished, rfl, rfl⟩⟩

/-- A descriptor that lacks its end, and two class files that differ in the letter that is the
descriptor of their only field. -/
theorem parse_cut_descriptor :
    FieldType.parse (Utf8.encode "Ljava/lang/Object") = .error (.unexpectedEnd 17 1) ∧
      parse (letterContent 0x49) = .ok (letterClass 0x49) ∧
      parse (letterContent 0x4c) = .error (.unexpectedEnd 1 1) := by
  decide +kernel

end ClassFile

end ClassMachine
