import ClassMachine.Proofs.ClassFile.Exactness

/-!
# Class files that are cut off or go on

A decoder that succeeds has read some bytes, and it does the same wherever they stand at the same
position. If they are cut off anywhere, it asks for bytes that lie behind the cut and fails for that
reason alone: the content of an attribute is only looked into when all of it is there. So no class
file begins with another one, and the error for a part of it says where it ends.
-/

namespace ClassMachine

namespace Decoder

variable {α β : Type}

/-- The decoder has asked for bytes that go beyond this position. -/
def Lacks (stop : Nat) (result : EStateM.Result StructuralError Cursor α) : Prop :=
  ∃ offset wanted after, result = .error (.unexpectedEnd offset wanted) after ∧
    offset ≤ stop ∧ stop < offset + wanted

/-- What a decoder comes to behind the bytes of a value, from their end and what follows them. -/
abbrev Outcome (α : Type) := (place : Nat) → α → (rest : Bytes) →
  EStateM.Result StructuralError Cursor α

def leaves : Outcome α :=
  fun place a rest => .ok a ⟨place, rest⟩

def concludes : Outcome α :=
  fun place a rest =>
    if rest = [] then .ok a ⟨place, []⟩ else .error (.trailingBytes rest.length) ⟨place, rest⟩

/-- The decoder reads these bytes, whatever follows them, and misses any that are cut off. -/
structure Takes (outcome : Bytes → EStateM.Result StructuralError Cursor α) (decoder : Decoder α)
    (position : Nat) (read : Bytes) : Prop where
  whole : ∀ rest, decoder.run ⟨position, read ++ rest⟩ = outcome rest
  cut : ∀ n < read.length, Lacks (position + n) (decoder.run ⟨position, read.take n⟩)

/-- Where the decoder succeeds it takes the bytes that it has read. -/
def SequentialTo (outcome : Outcome α) (decoder : Decoder α) : Prop :=
  ∀ cursor a after, decoder.run cursor = .ok a after → ∃ read, cursor.rest = read ++ after.rest ∧
    Takes (outcome (cursor.position + read.length) a) decoder cursor.position read

abbrev Sequential (decoder : Decoder α) : Prop :=
  SequentialTo leaves decoder

variable {outcome : Outcome β} {decoder : Decoder α} {next : α → Decoder β}

theorem Takes.bind {position : Nat} {front back : Bytes} {a : α}
    {last : Bytes → EStateM.Result StructuralError Cursor β}
    (h : Takes (leaves (position + front.length) a) decoder position front)
    (hnext : Takes last (next a) (position + front.length) back) :
    Takes last (decoder >>= next) position (front ++ back) where
  whole rest := by
    rw [EStateM.run_bind, List.append_assoc, h.whole]
    exact hnext.whole rest
  cut n hn := by
    rw [EStateM.run_bind]
    rcases Nat.lt_or_ge n front.length with hlt | hge
    · rw [List.take_append_of_le_length (Nat.le_of_lt hlt)]
      obtain ⟨offset, wanted, after, hrun, hlacks⟩ := h.cut n hlt
      rw [hrun]
      exact ⟨offset, wanted, after, rfl, hlacks⟩
    · rw [List.take_append, List.take_of_length_le hge, h.whole]
      have hback : n - front.length < back.length := by
        rw [List.length_append] at hn
        omega
      have hlacks := hnext.cut (n - front.length) hback
      have hplace : position + front.length + (n - front.length) = position + n := by omega
      rwa [hplace] at hlacks

theorem SequentialTo.bind (h : Sequential decoder) (hnext : ∀ a, SequentialTo outcome (next a)) :
    SequentialTo outcome (decoder >>= next) := by
  intro cursor b after hrun
  obtain ⟨a, middle, hfirst, hsecond⟩ := (Work.run_bind_eq_ok_iff _ _ _ _ _).1 hrun
  obtain ⟨front, hfront, htakes⟩ := h cursor a middle hfirst
  obtain ⟨back, hback, hlast⟩ := hnext a middle b after hsecond
  have hplace : middle.position = cursor.position + front.length := by
    have hwhole := htakes.whole middle.rest
    rw [← hfront] at hwhole
    exact congrArg Cursor.position (EStateM.Result.ok.inj (hfirst.symm.trans hwhole)).2
  refine ⟨front ++ back, by rw [hfront, hback, List.append_assoc], ?_⟩
  rw [hplace, Nat.add_assoc, ← List.length_append] at hlast
  exact htakes.bind hlast

theorem sequential_pure (a : α) : Sequential (pure a) := by
  intro cursor b after hrun
  obtain ⟨rfl, rfl⟩ := EStateM.Result.ok.inj hrun
  exact ⟨[], rfl, fun rest => rfl, fun n hn => absurd hn (Nat.not_lt_zero n)⟩

theorem sequential_throw (outcome : Outcome α) (e : StructuralError) :
    SequentialTo outcome (throw e) :=
  fun _ _ _ hrun => nomatch hrun

theorem Sequential.map (f : α → β) (h : Sequential decoder) : Sequential (f <$> decoder) := by
  rw [map_eq_pure_bind]
  exact h.bind fun a => sequential_pure (f a)

theorem Sequential.discard (h : Sequential decoder) : Sequential (discard decoder) :=
  h.map fun _ => PUnit.unit

theorem sequential_lift (answer : Except StructuralError α) : Sequential (lift answer) := by
  cases answer with
  | error e => exact sequential_throw leaves e
  | ok a => exact sequential_pure a

theorem sequential_bytes (width : Nat) : Sequential (bytes width) := by
  intro cursor a after hrun
  rw [run_bytes] at hrun
  split at hrun
  next hle =>
    obtain ⟨rfl, rfl⟩ := EStateM.Result.ok.inj hrun
    have hlength : (cursor.rest.take width).length = width := List.length_take_of_le hle
    refine ⟨cursor.rest.take width, (List.take_append_drop width cursor.rest).symm, ?_, ?_⟩
    · intro rest
      generalize cursor.rest.take width = read at hlength
      subst hlength
      simp [run_bytes, Cursor.remaining, leaves]
    · intro n hn
      have hshort : ¬ width ≤ ((cursor.rest.take width).take n).length := by
        rw [List.length_take]
        omega
      rw [run_bytes, Cursor.remaining, if_neg hshort]
      exact ⟨_, _, _, rfl, by simp only; omega, by simp only; omega⟩
  next => contradiction

theorem sequential_u8 : Sequential u8 :=
  ((sequential_bytes 1).map _).map _

theorem sequential_u16 : Sequential u16 :=
  ((sequential_bytes 2).map _).map _

theorem sequential_u32 : Sequential u32 :=
  ((sequential_bytes 4).map _).map _

theorem sequential_u64 : Sequential u64 :=
  ((sequential_bytes 8).map _).map _

theorem sequential_optionalPoolIndex : Sequential optionalPoolIndex := by
  refine sequential_u16.bind fun index => ?_
  split <;> exact sequential_pure _

theorem sequential_poolIndex : Sequential poolIndex := by
  refine sequential_optionalPoolIndex.bind fun place => ?_
  cases place with
  | none => exact sequential_throw leaves _
  | some place => exact sequential_pure place

theorem Sequential.thenPure (h : Sequential decoder) (f : α → β) :
    Sequential (do return f (← decoder)) :=
  h.bind fun a => sequential_pure (f a)

theorem Sequential.times (h : Sequential decoder) (count : Nat) :
    Sequential (times count decoder) := by
  induction count with
  | zero => exact sequential_pure []
  | succ count ih => exact h.bind fun first => ih.thenPure (first :: ·)

theorem Sequential.table (h : Sequential decoder) : Sequential (table decoder) :=
  sequential_u16.bind fun count => h.times count.toNat

end Decoder

namespace ClassFile

open Decoder

theorem sequential_memberDecoder (kind : MemberKind) : Sequential (memberDecoder kind) :=
  sequential_poolIndex.bind fun owner => sequential_poolIndex.thenPure (Constant.member kind owner)

theorem sequential_constantDecoder (entry : Nat) : Sequential (constantDecoder entry) := by
  rw [constantDecoder_eq]
  refine sequential_u8.bind fun tag => ?_
  unfold bodyDecoder
  split
  · exact sequential_u16.bind fun length => (sequential_bytes length.toNat).thenPure _
  · exact sequential_u32.thenPure _
  · exact sequential_u32.thenPure _
  · exact sequential_u64.thenPure _
  · exact sequential_u64.thenPure _
  · exact sequential_poolIndex.thenPure _
  · exact sequential_poolIndex.thenPure _
  · exact sequential_memberDecoder .field
  · exact sequential_memberDecoder .method
  · exact sequential_memberDecoder .interfaceMethod
  · exact sequential_poolIndex.bind fun name => sequential_poolIndex.thenPure _
  · exact sequential_throw leaves _

theorem sequential_constantsDecoder (missing : Nat) (pool : ConstantPool) :
    Sequential (constantsDecoder missing pool) := by
  induction missing, pool using constantsDecoder.induct with
  | case1 pool => exact sequential_pure pool
  | case2 pool => exact (sequential_constantDecoder _).thenPure pool.push
  | case3 missing pool ihWide ihNarrow =>
    refine (sequential_constantDecoder _).bind fun constant => ?_
    split
    · exact ihWide constant
    · exact ihNarrow constant

theorem sequential_poolDecoder : Sequential poolDecoder :=
  sequential_u16.bind fun count => sequential_constantsDecoder (count.toNat - 1) .empty

theorem sequential_attributeNameDecoder (pool : ConstantPool) :
    Sequential (attributeNameDecoder pool) := by
  refine sequential_poolIndex.bind fun place => (sequential_lift _).bind fun spelling => ?_
  split
  · exact sequential_pure _
  · exact sequential_throw leaves _

/-- All of the content is there when it is looked into, so how it is read does not matter. -/
theorem sequential_contentDecoder {α : Type} (name : AttributeName) (content : Decoder α) :
    Sequential (contentDecoder name content) := by
  refine sequential_u32.bind fun length => (sequential_bytes length.toNat).bind fun found => ?_
  split
  · exact sequential_throw leaves _
  · split
    · exact sequential_pure _
    · exact sequential_throw leaves _

theorem sequential_attributeDecoder (pool : ConstantPool) : Sequential (attributeDecoder pool) := by
  refine (sequential_attributeNameDecoder pool).bind fun name => ?_
  split
  · exact (sequential_contentDecoder name _).thenPure Attribute.plain
  · exact (sequential_contentDecoder name _).thenPure Attribute.code

theorem sequential_fieldDecoder (pool : ConstantPool) : Sequential (fieldDecoder pool) :=
  sequential_u16.bind fun flags => sequential_poolIndex.bind fun name =>
    sequential_poolIndex.bind fun descriptor => (sequential_lift _).discard.bind fun _ =>
      (sequential_attributeDecoder pool).table.thenPure (Field.mk ⟨flags⟩ name descriptor)

theorem sequential_methodDecoder (pool : ConstantPool) : Sequential (methodDecoder pool) :=
  sequential_u16.bind fun flags => sequential_poolIndex.bind fun name =>
    sequential_poolIndex.bind fun descriptor =>
      (sequential_attributeDecoder pool).table.bind fun attributes =>
        (sequential_lift _).thenPure fun signature =>
          Method.mk ⟨flags⟩ name descriptor attributes signature .bytecode

theorem sequential_end (file : ClassFile) : SequentialTo concludes (do
    let cursor ← get
    if cursor.remaining ≠ 0 then
      let _ ← (throw (.trailingBytes cursor.remaining) : Decoder Unit)
      pure file
    else pure file) := by
  intro cursor found after hrun
  refine ⟨[], ?_, fun rest => ?_, fun n hn => absurd hn (Nat.not_lt_zero n)⟩
  · rw [EStateM.run_bind, EStateM.run_get] at hrun
    simp only at hrun
    split at hrun
    · contradiction
    · rw [← (EStateM.Result.ok.inj hrun).2]
      rfl
  · rw [EStateM.run_bind, EStateM.run_get] at hrun ⊢
    simp only at hrun
    split at hrun
    · contradiction
    · obtain ⟨rfl, -⟩ := EStateM.Result.ok.inj hrun
      cases rest <;> rfl

theorem sequential_decoder : SequentialTo concludes ClassFile.decoder := by
  have hcontents := sequential_u16.bind fun minorVersion => sequential_u16.bind
    fun majorVersion => sequential_poolDecoder.bind fun pool => sequential_u16.bind
    fun flags => sequential_poolIndex.bind fun thisClass =>
    sequential_optionalPoolIndex.bind fun superClass =>
    sequential_poolIndex.table.bind fun interfaces =>
    (sequential_fieldDecoder pool).table.bind fun fields =>
    (sequential_methodDecoder pool).table.bind fun methods =>
    (sequential_attributeDecoder pool).table.bind fun attributes => sequential_end
      { minorVersion, majorVersion, pool, flags := ⟨flags⟩, thisClass, superClass, interfaces,
        fields, methods, attributes }
  refine sequential_u32.bind fun found => ?_
  split
  · exact SequentialTo.bind (sequential_throw leaves _) fun _ => hcontents
  · exact hcontents

/-- The bytes of a class file are all that its decoder takes. -/
theorem takes_of_parse {content : Bytes} {file : ClassFile} (h : parse content = .ok file) :
    Takes (concludes content.length file) ClassFile.decoder 0 content := by
  unfold parse runOn at h
  cases hrun : ClassFile.decoder.run (Cursor.ofBytes content) with
  | error e after => rw [hrun] at h; contradiction
  | ok found after =>
    rw [hrun] at h
    obtain rfl := Except.ok.inj h
    obtain ⟨-, -, -, -, hafter⟩ := (reads_decoder _ _ _).1 hrun
    obtain ⟨read, hread, htakes⟩ := sequential_decoder _ _ _ hrun
    rw [hafter, List.append_nil] at hread
    obtain rfl : content = read := hread
    rwa [Cursor.ofBytes, Nat.zero_add] at htakes

/-- A part of a class file is not read, because bytes are missing where it ends; and a class file
with more bytes behind it is not read because of them. -/
theorem parse_take_append {content : Bytes} {file : ClassFile} (h : parse content = .ok file) :
    (∀ n < content.length, ∃ offset wanted,
      parse (content.take n) = .error (.unexpectedEnd offset wanted) ∧
        offset ≤ n ∧ n < offset + wanted) ∧
      ∀ extra, extra ≠ [] → parse (content ++ extra) = .error (.trailingBytes extra.length) := by
  have htakes := takes_of_parse h
  constructor
  · intro n hn
    obtain ⟨offset, wanted, after, hrun, hle, hlt⟩ := htakes.cut n hn
    rw [Nat.zero_add] at hle hlt
    refine ⟨offset, wanted, ?_, hle, hlt⟩
    rw [parse, runOn, Cursor.ofBytes, hrun]
  · intro extra hextra
    have hrun := htakes.whole extra
    rw [concludes, if_neg hextra] at hrun
    rw [parse, runOn, Cursor.ofBytes, hrun]

/-- A class A with a static method for the long 7, which comes from the pool. There is a handler for
the instruction that loads it, and a line number. -/
def sevenBytes : Bytes :=
  [0xca, 0xfe, 0xba, 0xbe, 0x00, 0x00, 0x00, 0x34, 0x00, 0x08, 0x01, 0x00, 0x01, 0x41, 0x07, 0x00,
    0x01, 0x01, 0x00, 0x03, 0x28, 0x29, 0x4a, 0x01, 0x00, 0x04, 0x43, 0x6f, 0x64, 0x65, 0x05, 0x00,
    0x00, 0x00, 0x00, 0x00, 0x00, 0x00, 0x07, 0x01, 0x00, 0x0f, 0x4c, 0x69, 0x6e, 0x65, 0x4e, 0x75,
    0x6d, 0x62, 0x65, 0x72, 0x54, 0x61, 0x62, 0x6c, 0x65, 0x00, 0x21, 0x00, 0x02, 0x00, 0x00, 0x00,
    0x00, 0x00, 0x00, 0x00, 0x01, 0x00, 0x09, 0x00, 0x01, 0x00, 0x03, 0x00, 0x01, 0x00, 0x04, 0x00,
    0x00, 0x00, 0x24, 0x00, 0x02, 0x00, 0x00, 0x00, 0x00, 0x00, 0x04, 0x14, 0x00, 0x05, 0xad, 0x00,
    0x01, 0x00, 0x00, 0x00, 0x03, 0x00, 0x03, 0x00, 0x00, 0x00, 0x01, 0x00, 0x07, 0x00, 0x00, 0x00,
    0x06, 0x00, 0x01, 0x00, 0x00, 0x00, 0x03, 0x00, 0x00]

def sevenCode : Code where
  maxStack := 2
  maxLocals := 0
  bytes := [0x14, 0x00, 0x05, 0xad]
  exceptions := [⟨0, 3, 3, 0⟩]
  attributes := [.lineNumberTable [⟨0, 3⟩]]

def sevenFile : ClassFile where
  majorVersion := 52
  pool := ⟨#[.utf8 [65], .classEntry 0, .utf8 [40, 41, 74], .utf8 (Utf8.encode "Code"), .long 7,
    .empty, .utf8 (Utf8.encode "LineNumberTable")]⟩
  flags := ⟨0x21⟩
  thisClass := 1
  methods := [
    { flags := ⟨9⟩, name := 0, descriptor := 2, attributes := [.code sevenCode]
      signature := ⟨[], .value .long⟩, body := .bytecode }]

theorem parse_take_append_seven :
    parse sevenBytes = .ok sevenFile ∧
      (∀ n < sevenBytes.length, ∃ offset wanted,
        parse (sevenBytes.take n) = .error (.unexpectedEnd offset wanted) ∧
          offset ≤ n ∧ n < offset + wanted) ∧
      ∀ extra, extra ≠ [] →
        parse (sevenBytes ++ extra) = .error (.trailingBytes extra.length) := by
  have hparse : parse sevenBytes = .ok sevenFile := by decide +kernel
  exact ⟨hparse, parse_take_append hparse⟩

end ClassFile

end ClassMachine
