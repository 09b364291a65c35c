import ClassMachine.Proofs.Descriptor.Spelling

/-!
# A cursor divides its byte string

Whatever has been read, with or without success, a cursor stands somewhere in its byte string and has
the rest of it before it. What a read comes to is told by the byte string and the position alone: a
read of a fixed number of bytes answers by the bytes that stand there, or leaves the cursor where it
is if they are too few; a read up to a delimiter passes over the first one, or over everything.
-/

namespace ClassMachine

namespace Bytes

/-- The number that is written in base 256: a byte counts by how many bytes stand behind it. -/
def magnitude : Bytes → Nat
  | [] => 0
  | b :: rest => b.toNat * 256 ^ rest.length + magnitude rest

/-- The number that is written in two's complement: the upper half of the range is negative. -/
def signedMagnitude (bytes : Bytes) : Int :=
  if 2 * magnitude bytes < 256 ^ bytes.length then magnitude bytes
  else magnitude bytes - (256 ^ bytes.length : Nat)

theorem foldl_eq_magnitude (bytes : Bytes) (start : Nat) :
    bytes.foldl (fun n b => n * 256 + b.toNat) start =
      start * 256 ^ bytes.length + magnitude bytes := by
  induction bytes generalizing start with
  | nil => simp [magnitude]
  | cons b rest ih =>
    rw [List.foldl_cons, ih, magnitude, List.length_cons, Nat.pow_succ', Nat.add_mul, Nat.mul_assoc,
      Nat.add_assoc]

theorem toNat_eq_magnitude (bytes : Bytes) : toNat bytes = magnitude bytes := by
  rw [toNat, foldl_eq_magnitude, Nat.zero_mul, Nat.zero_add]

/-- These bytes stand in the byte string, the first of them at the position. -/
def StandsAt (part : Bytes) (buffer : Bytes) (position : Nat) : Prop :=
  ∃ front back, buffer = front ++ part ++ back ∧ front.length = position

end Bytes

namespace Cursor

/-- The cursor stands in the byte string, and has before it what follows there. -/
structure Over (buffer : Bytes) (cursor : Cursor) : Prop where
  position_le : cursor.position ≤ buffer.length
  rest_eq : cursor.rest = buffer.drop cursor.position

namespace Over

variable {buffer : Bytes} {cursor : Cursor}

theorem position_add_remaining (h : cursor.Over buffer) :
    cursor.position + cursor.remaining = buffer.length := by
  have := h.position_le
  rw [remaining, h.rest_eq, List.length_drop]
  omega

theorem length_eq (h : cursor.Over buffer) : cursor.length = buffer.length :=
  h.position_add_remaining

theorem isEmpty_iff (h : cursor.Over buffer) :
    cursor.isEmpty = true ↔ cursor.position = buffer.length := by
  have := h.position_add_remaining
  rw [isEmpty, List.isEmpty_iff_length_eq_zero]
  simp only [remaining] at this
  omega

theorem take_append_rest (h : cursor.Over buffer) :
    buffer = buffer.take cursor.position ++ cursor.rest := by
  rw [h.rest_eq, List.take_append_drop]

theorem advance (h : cursor.Over buffer) {width : Nat} (hwidth : width ≤ cursor.remaining) :
    Over buffer ⟨cursor.position + width, cursor.rest.drop width⟩ where
  position_le := by
    have := h.position_add_remaining
    simp only
    omega
  rest_eq := by rw [h.rest_eq, List.drop_drop]

theorem standsAt_iff (h : cursor.Over buffer) (part : Bytes) :
    part.StandsAt buffer cursor.position ↔ part <+: cursor.rest := by
  constructor
  · rintro ⟨front, back, hbuffer, hfront⟩
    refine ⟨back, ?_⟩
    rw [h.rest_eq, hbuffer, ← hfront, List.append_assoc, List.drop_left]
  · rintro ⟨back, hback⟩
    refine ⟨buffer.take cursor.position, back, ?_, List.length_take_of_le h.position_le⟩
    rw [List.append_assoc, hback]
    exact h.take_append_rest

end Over

theorem over_ofBytes (buffer : Bytes) : (ofBytes buffer).Over buffer :=
  ⟨Nat.zero_le _, rfl⟩

inductive Word where
  | u8
  | i8
  | u16
  | i16
  | u32
  | u64
deriving DecidableEq

namespace Word

def width : Word → Nat
  | u8 | i8 => 1
  | u16 | i16 => 2
  | u32 => 4
  | u64 => 8

def isSigned : Word → Bool
  | i8 | i16 => true
  | u8 | u16 | u32 | u64 => false

def decoder : Word → Decoder Int
  | u8 => (fun x => (x.toNat : Int)) <$> Decoder.u8
  | i8 => Int8.toInt <$> Decoder.i8
  | u16 => (fun x => (x.toNat : Int)) <$> Decoder.u16
  | i16 => Int16.toInt <$> Decoder.i16
  | u32 => (fun x => (x.toNat : Int)) <$> Decoder.u32
  | u64 => (fun x => (x.toNat : Int)) <$> Decoder.u64

def meaning (kind : Word) (part : Bytes) : Int :=
  if kind.isSigned then part.signedMagnitude else part.magnitude

end Word

inductive Answer where
  | number (n : Int)
  | position (place : Nat)
  | optionalPosition (place : Option Nat)
  | bytes (content : Bytes)
deriving DecidableEq

/-- Reads of a number of bytes that is fixed beforehand. -/
inductive FixedRead where
  | word (kind : Word)
  | poolIndex
  | optionalPoolIndex
  | bytes (count : Nat)

namespace FixedRead

def width : FixedRead → Nat
  | word kind => kind.width
  | poolIndex | optionalPoolIndex => 2
  | bytes count => count

def decoder : FixedRead → Decoder Answer
  | word kind => .number <$> kind.decoder
  | poolIndex => .position <$> Decoder.poolIndex
  | optionalPoolIndex => .optionalPosition <$> Decoder.optionalPoolIndex
  | bytes count => .bytes <$> Decoder.bytes count

/-- An index is one more than the position that it stands for; 0 stands for none. -/
def place? (index : Nat) : Option Nat :=
  if index = 0 then none else some (index - 1)

def meaning : FixedRead → Bytes → Except StructuralError Answer
  | word kind, part => .ok (.number (kind.meaning part))
  | poolIndex, part =>
    match place? part.magnitude with
    | some place => .ok (.position place)
    | none => .error .reservedPoolIndex
  | optionalPoolIndex, part => .ok (.optionalPosition (place? part.magnitude))
  | bytes _, part => .ok (.bytes part)

end FixedRead

inductive Operation where
  | fixed (read : FixedRead)
  | upTo (delimiter : UInt8)

def Operation.decoder : Operation → Decoder Answer
  | fixed read => read.decoder
  | upTo delimiter => .bytes <$> Decoder.upTo delimiter

def perform (cursor : Cursor) (operation : Operation) : Except StructuralError Answer × Cursor :=
  match operation.decoder.run cursor with
  | .ok answer later => (.ok answer, later)
  | .error e later => (.error e, later)

/-- The cursor when the operations have been performed, whether or not they have succeeded. -/
def afterAll (cursor : Cursor) (operations : List Operation) : Cursor :=
  operations.foldl (fun cursor operation => (cursor.perform operation).2) cursor

/-- What an operation at a position of a byte string comes to: its answer or error, and the position
behind it. -/
inductive Outcome (buffer : Bytes) (position : Nat) :
    Operation → Except StructuralError Answer → Nat → Prop
  | read {read : FixedRead} {part : Bytes} (hpart : part.StandsAt buffer position)
      (hwidth : part.length = read.width) :
      Outcome buffer position (.fixed read) (read.meaning part) (position + part.length)
  | short {read : FixedRead} (hshort : buffer.length < position + read.width) :
      Outcome buffer position (.fixed read) (.error (.unexpectedEnd position read.width)) position
  | found {delimiter : UInt8} {part : Bytes}
      (hpart : (part ++ [delimiter]).StandsAt buffer position) (hfirst : delimiter ∉ part) :
      Outcome buffer position (.upTo delimiter) (.ok (.bytes part)) (position + part.length + 1)
  | missing {delimiter : UInt8} (hmissing : delimiter ∉ buffer.drop position) :
      Outcome buffer position (.upTo delimiter) (.error (.unexpectedEnd buffer.length 1))
        buffer.length

namespace Word

def ofBits : Word → Nat → Int
  | u8, bits => bits.toUInt8.toNat
  | i8, bits => bits.toUInt8.toInt8.toInt
  | u16, bits => bits.toUInt16.toNat
  | i16, bits => bits.toUInt16.toInt16.toInt
  | u32, bits => bits.toUInt32.toNat
  | u64, bits => bits.toUInt64.toNat

theorem decoder_eq (kind : Word) : kind.decoder = kind.ofBits <$> Decoder.unsigned kind.width := by
  cases kind <;>
    simp only [decoder, Decoder.u8, Decoder.i8, Decoder.u16, Decoder.i16, Decoder.u32, Decoder.u64,
      Functor.map_map] <;> rfl

theorem toInt_toInt8 (x : UInt8) :
    x.toInt8.toInt = if 2 * x.toNat < 256 then (x.toNat : Int) else x.toNat - 256 :=
  BitVec.toInt_eq_toNat_cond x.toBitVec

theorem toInt_toInt16 (x : UInt16) :
    x.toInt16.toInt = if 2 * x.toNat < 65536 then (x.toNat : Int) else x.toNat - 65536 :=
  BitVec.toInt_eq_toNat_cond x.toBitVec

theorem ofBits_toNat (kind : Word) {part : Bytes} (h : part.length = kind.width) :
    kind.ofBits part.toNat = kind.meaning part := by
  have hlt := part.toNat_lt
  rw [h, Bytes.toNat_eq_magnitude] at hlt
  rw [Bytes.toNat_eq_magnitude]
  cases kind with
  | u8 => exact congrArg Nat.cast (UInt8.toNat_ofNat_of_lt' hlt)
  | u16 => exact congrArg Nat.cast (UInt16.toNat_ofNat_of_lt' hlt)
  | u32 => exact congrArg Nat.cast (UInt32.toNat_ofNat_of_lt' hlt)
  | u64 => exact congrArg Nat.cast (UInt64.toNat_ofNat_of_lt' hlt)
  | i8 =>
    have hbits : part.magnitude.toUInt8.toNat = part.magnitude := UInt8.toNat_ofNat_of_lt' hlt
    rw [ofBits, toInt_toInt8, hbits, meaning, isSigned, if_pos rfl, Bytes.signedMagnitude, h]
    rfl
  | i16 =>
    have hbits : part.magnitude.toUInt16.toNat = part.magnitude := UInt16.toNat_ofNat_of_lt' hlt
    rw [ofBits, toInt_toInt16, hbits, meaning, isSigned, if_pos rfl, Bytes.signedMagnitude, h]
    rfl

theorem run_decoder (kind : Word) (cursor : Cursor) :
    kind.decoder.run cursor =
      if kind.width ≤ cursor.remaining then
        .ok (kind.meaning (cursor.rest.take kind.width))
          ⟨cursor.position + kind.width, cursor.rest.drop kind.width⟩
      else .error (.unexpectedEnd cursor.position kind.width) cursor := by
  rw [decoder_eq, Decoder.unsigned, Functor.map_map, Work.run_map, Decoder.run_bytes]
  by_cases h : kind.width ≤ cursor.remaining
  · simp only [if_pos h, kind.ofBits_toNat (List.length_take_of_le h)]
  · simp only [if_neg h]

end Word

theorem run_optionalPoolIndex (cursor : Cursor) :
    Decoder.optionalPoolIndex.run cursor =
      if 2 ≤ cursor.remaining then
        .ok (FixedRead.place? (Bytes.magnitude (cursor.rest.take 2)))
          ⟨cursor.position + 2, cursor.rest.drop 2⟩
      else .error (.unexpectedEnd cursor.position 2) cursor := by
  rw [Decoder.optionalPoolIndex, EStateM.run_bind, Decoder.u16, Decoder.unsigned, Functor.map_map,
    Work.run_map, Decoder.run_bytes]
  by_cases h : 2 ≤ cursor.remaining
  · have hbits := Word.ofBits_toNat .u16 (List.length_take_of_le h)
    have hindex : (Bytes.toNat (cursor.rest.take 2)).toUInt16.toNat =
        Bytes.magnitude (cursor.rest.take 2) := Int.ofNat.inj hbits
    simp only [if_pos h, hindex]
    cases Bytes.magnitude (cursor.rest.take 2) <;> rfl
  · simp only [if_neg h]

theorem FixedRead.perform_eq (read : FixedRead) (cursor : Cursor) :
    cursor.perform (.fixed read) =
      if read.width ≤ cursor.remaining then
        (read.meaning (cursor.rest.take read.width),
          ⟨cursor.position + read.width, cursor.rest.drop read.width⟩)
      else (.error (.unexpectedEnd cursor.position read.width), cursor) := by
  cases read with
  | word kind =>
    by_cases h : kind.width ≤ cursor.remaining <;>
      simp [perform, Operation.decoder, decoder, kind.run_decoder, width, meaning, h]
  | bytes count =>
    by_cases h : count ≤ cursor.remaining <;>
      simp [perform, Operation.decoder, decoder, Decoder.run_bytes, width, meaning, h]
  | optionalPoolIndex =>
    by_cases h : 2 ≤ cursor.remaining <;>
      simp [perform, Operation.decoder, decoder, run_optionalPoolIndex, width, meaning, h]
  | poolIndex =>
    simp only [perform, Operation.decoder, decoder, Decoder.poolIndex, Work.run_map,
      EStateM.run_bind, run_optionalPoolIndex, width, meaning]
    by_cases h : 2 ≤ cursor.remaining
    · cases place? (Bytes.magnitude (cursor.rest.take 2)) <;> simp [h]
    · simp [h]

theorem perform_upTo (cursor : Cursor) (delimiter : UInt8) :
    cursor.perform (.upTo delimiter) =
      match Bytes.cut? delimiter cursor.rest with
      | some (front, back) => (.ok (.bytes front), ⟨cursor.position + front.length + 1, back⟩)
      | none => (.error (.unexpectedEnd cursor.length 1), ⟨cursor.length, []⟩) := by
  rw [perform, Operation.decoder, Work.run_map, Decoder.run_upTo]
  cases Bytes.cut? delimiter cursor.rest <;> rfl

variable {buffer : Bytes} {cursor : Cursor}

theorem Over.perform (h : cursor.Over buffer) (operation : Operation) :
    (cursor.perform operation).2.Over buffer := by
  cases operation with
  | fixed read =>
    rw [read.perform_eq]
    split
    next hwidth => exact h.advance hwidth
    next => exact h
  | upTo delimiter =>
    rw [perform_upTo]
    cases hcut : Bytes.cut? delimiter cursor.rest with
    | none => exact ⟨Nat.le_of_eq h.length_eq, by simp [h.length_eq]⟩
    | some parts =>
      obtain ⟨front, back⟩ := parts
      obtain ⟨hrest, -⟩ := Bytes.cut?_eq_some_iff.1 hcut
      have hwidth : front.length + 1 ≤ cursor.remaining := by simp [remaining, hrest]
      have hback : cursor.rest.drop (front.length + 1) = back := by simp [hrest]
      exact hback ▸ h.advance hwidth

theorem Over.afterAll (h : cursor.Over buffer) (operations : List Operation) :
    (cursor.afterAll operations).Over buffer := by
  induction operations generalizing cursor with
  | nil => exact h
  | cons operation rest ih => exact ih (h.perform operation)

/-- What an operation comes to is what it should come to at the position of the cursor. -/
theorem Over.outcome (h : cursor.Over buffer) (operation : Operation) :
    Outcome buffer cursor.position operation (cursor.perform operation).1
      (cursor.perform operation).2.position := by
  have hplace := h.position_add_remaining
  cases operation with
  | fixed read =>
    rw [read.perform_eq]
    split
    next hwidth =>
      have hlength : (cursor.rest.take read.width).length = read.width :=
        List.length_take_of_le hwidth
      have hread := Outcome.read ((h.standsAt_iff _).2 (List.take_prefix read.width cursor.rest))
        hlength
      rwa [hlength] at hread
    next hwidth => exact .short (by omega)
  | upTo delimiter =>
    rw [perform_upTo]
    cases hcut : Bytes.cut? delimiter cursor.rest with
    | none =>
      rw [h.length_eq]
      exact .missing (h.rest_eq ▸ Bytes.cut?_eq_none_iff.1 hcut)
    | some parts =>
      obtain ⟨front, back⟩ := parts
      obtain ⟨hrest, hfirst⟩ := Bytes.cut?_eq_some_iff.1 hcut
      exact .found ((h.standsAt_iff _).2 ⟨back, by simp [hrest]⟩) hfirst

/-- Nothing else comes of an operation. -/
theorem Outcome.perform_eq {operation : Operation} {answer : Except StructuralError Answer}
    {place : Nat} (hcursor : cursor.Over buffer)
    (h : Outcome buffer cursor.position operation answer place) :
    (cursor.perform operation).1 = answer ∧ (cursor.perform operation).2.position = place := by
  have hremaining := hcursor.position_add_remaining
  cases h with
  | @read read part hpart hwidth =>
    obtain ⟨back, hrest⟩ := (hcursor.standsAt_iff part).1 hpart
    have hle : read.width ≤ cursor.remaining := by
      rw [remaining, ← hrest, List.length_append, hwidth]
      exact Nat.le_add_right _ _
    have hnext : cursor.rest.take read.width = part := by
      rw [← hrest, ← hwidth, List.take_left]
    rw [read.perform_eq, if_pos hle, hnext, hwidth]
    exact ⟨rfl, rfl⟩
  | @short read hshort =>
    rw [read.perform_eq, if_neg (by omega)]
    exact ⟨rfl, rfl⟩
  | @found delimiter part hpart hfirst =>
    obtain ⟨back, hrest⟩ := (hcursor.standsAt_iff _).1 hpart
    rw [List.append_assoc] at hrest
    rw [perform_upTo, Bytes.cut?_eq_some_iff.2 ⟨hrest.symm, hfirst⟩]
    exact ⟨rfl, rfl⟩
  | @missing delimiter hmissing =>
    rw [← hcursor.rest_eq] at hmissing
    rw [perform_upTo, Bytes.cut?_eq_none_iff.2 hmissing, ← hcursor.length_eq]
    exact ⟨rfl, rfl⟩

/-- Operations on a byte string, of which any may fail, leave the cursor somewhere in it: what lies
before the position and what remains are the whole, and their lengths add up to its length. The next
operation comes to what stands at the position, and to nothing else. -/
theorem afterAll_divides (buffer : Bytes) (operations : List Operation) :
    let cursor := (ofBytes buffer).afterAll operations
    cursor.position ≤ buffer.length ∧ cursor.length = buffer.length ∧
      cursor.position + cursor.remaining = buffer.length ∧
      (cursor.isEmpty = true ↔ cursor.position = buffer.length) ∧
      buffer = buffer.take cursor.position ++ cursor.rest ∧
      ∀ operation answer place,
        ((cursor.perform operation).1 = answer ∧ (cursor.perform operation).2.position = place) ↔
          Outcome buffer cursor.position operation answer place := by
  intro cursor
  have hcursor : cursor.Over buffer := (over_ofBytes buffer).afterAll operations
  refine ⟨hcursor.position_le, hcursor.length_eq, hcursor.position_add_remaining,
    hcursor.isEmpty_iff, hcursor.take_append_rest, fun operation answer place => ⟨?_, ?_⟩⟩
  · rintro ⟨rfl, rfl⟩
    exact hcursor.outcome operation
  · exact Outcome.perform_eq hcursor

end Cursor

end ClassMachine
