import ClassMachine.Descriptor.Parser
import ClassMachine.Proofs.ClassFile.Reading

/-!
# Descriptors spell their types

A type is read from exactly its own descriptor, if the class name in it can be told from what
follows. The decoder moves behind the brackets at once, but they can be taken off one by one, and so
the proofs follow the bytes from the front. A list of types is read from the descriptors of its
members up to the end.
-/

namespace ClassMachine

open Decoder

namespace Bytes

theorem cut?_eq_some_iff {delimiter : UInt8} {bytes front back : Bytes} :
    cut? delimiter bytes = some (front, back) ↔
      bytes = front ++ delimiter :: back ∧ delimiter ∉ front := by
  induction bytes generalizing front with
  | nil => simp [cut?]
  | cons b rest ih =>
    rw [cut?]
    split
    next hb =>
      cases front with
      | nil => simp [hb]
      | cons first front => simp [hb]; grind
    next hb =>
      cases front with
      | nil => simp [hb]
      | cons first front => simp [ih]; grind

theorem cut?_eq_none_iff {delimiter : UInt8} {bytes : Bytes} :
    cut? delimiter bytes = none ↔ delimiter ∉ bytes := by
  induction bytes with
  | nil => simp [cut?]
  | cons b rest ih =>
    rw [cut?]
    split
    next hb => simp [hb]
    next hb => simp [ih, Ne.symm hb]

end Bytes

theorem Decoder.run_upTo (delimiter : UInt8) (position : Nat) (rest : Bytes) :
    (upTo delimiter).run ⟨position, rest⟩ =
      match Bytes.cut? delimiter rest with
      | some (front, back) => .ok front ⟨position + front.length + 1, back⟩
      | none =>
        .error (.unexpectedEnd (position + rest.length) 1) ⟨position + rest.length, []⟩ := by
  simp only [upTo, EStateM.run_bind, EStateM.run_get]
  cases Bytes.cut? delimiter rest <;> rfl

theorem Decoder.reads_upTo (delimiter : UInt8) : Reads (upTo delimiter) fun text bytes =>
    delimiter ∉ text ∧ bytes = text ++ [delimiter] := by
  intro cursor text after
  obtain ⟨position, rest⟩ := cursor
  obtain ⟨place, back⟩ := after
  rw [run_upTo]
  constructor
  · intro h
    split at h
    next front rest' hcut =>
      obtain ⟨rfl, hafter⟩ := EStateM.Result.ok.inj h
      obtain ⟨rfl, rfl⟩ := Cursor.mk.inj hafter
      obtain ⟨rfl, hnot⟩ := Bytes.cut?_eq_some_iff.1 hcut
      exact ⟨_, ⟨hnot, rfl⟩, by simp, by simp [Nat.add_assoc], trivial⟩
    next => contradiction
  · rintro ⟨_, ⟨hnot, rfl⟩, hrest, hposition, -⟩
    have hcut : Bytes.cut? delimiter rest = some (text, back) :=
      Bytes.cut?_eq_some_iff.2 ⟨by simpa using hrest, hnot⟩
    simp only [List.length_append, List.length_singleton] at hposition
    rw [hcut, hposition]
    rfl

namespace FieldType

def Names (demand : Bytes → Prop) : FieldType → Prop
  | object className => demand className
  | array element => element.Names demand
  | _ => True

/-- The class name in the type is not empty, and the delimiter behind it ends it. -/
def Spellable (type : FieldType) : Prop :=
  type.Names fun className => className ≠ [] ∧ Ascii.semicolon ∉ className

def spelling : Form FieldType :=
  fun type bytes => type.Spellable ∧ bytes = type.descriptor

variable {type : FieldType}

theorem toUInt8_charOfNat (b : UInt8) : (Char.ofNat b.toNat).toNat.toUInt8 = b := by
  have hvalid : b.toNat.isValidChar := by
    have hlt := b.toNat_lt
    exact .inl (by omega)
  have hchar : (Char.ofNat b.toNat).toNat = b.toNat := by
    rw [Char.ofNat, dif_pos hvalid]
    rfl
  rw [hchar]
  exact UInt8.ofNat_toNat

theorem descriptor_of_primitive? {b : UInt8} (h : primitive? (Char.ofNat b.toNat) = some type) :
    type.descriptor = [b] := by
  have hb := toUInt8_charOfNat b
  unfold primitive? at h
  split at h
  case h_9 => contradiction
  all_goals
    next hletter =>
      rw [hletter] at hb
      subst hb
      obtain rfl := Option.some.inj h
      rfl

theorem spellable_of_primitive? {c : Char} (h : primitive? c = some type) : type.Spellable := by
  unfold primitive? at h
  split at h
  case h_9 => contradiction
  all_goals
    obtain rfl := Option.some.inj h
    trivial

theorem descriptor_object (className : Bytes) :
    (object className).descriptor = 'L'.toNat.toUInt8 :: (className ++ [Ascii.semicolon]) :=
  rfl

theorem descriptor_array (element : FieldType) :
    (array element).descriptor = Ascii.openBracket :: element.descriptor :=
  rfl

theorem spelling_cons_iff {b : UInt8} {bytes : Bytes} (hb : b ≠ Ascii.openBracket) :
    spelling type (b :: bytes) ↔ primitive? (Char.ofNat b.toNat) = some type ∧ bytes = [] ∨
      Char.ofNat b.toNat = 'L' ∧ ∃ className, type = object className ∧ className ≠ [] ∧
        Ascii.semicolon ∉ className ∧ bytes = className ++ [Ascii.semicolon] := by
  constructor
  · rintro ⟨hspellable, hbytes⟩
    cases type with
    | object className =>
      rw [descriptor_object] at hbytes
      obtain ⟨rfl, rfl⟩ := List.cons.inj hbytes
      exact .inr ⟨rfl, className, rfl, hspellable.1, hspellable.2, rfl⟩
    | array element => exact absurd (List.cons.inj hbytes).1 hb
    | _ =>
      obtain ⟨rfl, rfl⟩ := List.cons.inj hbytes
      exact .inl ⟨rfl, rfl⟩
  · rintro (⟨hprimitive, rfl⟩ | ⟨hletter, className, rfl, hne, hnot, rfl⟩)
    · exact ⟨spellable_of_primitive? hprimitive, (descriptor_of_primitive? hprimitive).symm⟩
    · refine ⟨⟨hne, hnot⟩, ?_⟩
      rw [descriptor_object, ← hletter, toUInt8_charOfNat]

def classDecoder : Decoder FieldType := do
  let className ← upTo Ascii.semicolon
  if className.isEmpty then throw (.malformedDescriptor "L;")
  return object className

/-- Reads what follows the first byte of a type that is no array. -/
def letterDecoder (letter : Char) : Decoder FieldType :=
  match primitive? letter with
  | some type => return type
  | none =>
    if letter = 'L' then classDecoder
    else throw (.malformedDescriptor (String.singleton letter))

theorem elementDecoder_eq :
    elementDecoder = u8 >>= fun b => letterDecoder (Char.ofNat b.toNat) :=
  rfl

theorem reads_classDecoder : Reads classDecoder fun type bytes => ∃ className,
    type = object className ∧ className ≠ [] ∧ Ascii.semicolon ∉ className ∧
      bytes = className ++ [Ascii.semicolon] := by
  have hname (className : Bytes) : Reads
      (do
        if className.isEmpty then throw (.malformedDescriptor "L;")
        return object className)
      fun type bytes => className ≠ [] ∧ type = object className ∧ bytes = [] := by
    cases className with
    | nil => exact ((reads_throw (α := Unit) _).bind fun _ => reads_pure _).congr (by simp)
    | cons b rest => exact (reads_pure _).congr (by simp)
  refine ((reads_upTo Ascii.semicolon).bind hname).congr fun type bytes => ?_
  constructor
  · rintro ⟨className, _, _, ⟨hnot, rfl⟩, ⟨hne, rfl, rfl⟩, rfl⟩
    exact ⟨className, rfl, hne, hnot, List.append_nil _⟩
  · rintro ⟨className, rfl, hne, hnot, rfl⟩
    exact ⟨className, _, [], ⟨hnot, rfl⟩, ⟨hne, rfl, rfl⟩, (List.append_nil _).symm⟩

theorem reads_letterDecoder {b : UInt8} (hb : b ≠ Ascii.openBracket) :
    Reads (letterDecoder (Char.ofNat b.toNat)) fun type bytes => spelling type (b :: bytes) := by
  unfold letterDecoder
  cases hprimitive : primitive? (Char.ofNat b.toNat) with
  | some found =>
    have hletter : Char.ofNat b.toNat ≠ 'L' := by
      rintro hletter
      rw [hletter] at hprimitive
      contradiction
    refine (reads_pure found).congr fun type bytes => ?_
    simp [spelling_cons_iff hb, hprimitive, hletter, eq_comm]
  | none =>
    refine (reads_classDecoder.ite (reads_throw _)).congr fun type bytes => ?_
    simp [spelling_cons_iff hb, hprimitive]

theorem run_decoder (cursor : Cursor) : FieldType.decoder.run cursor =
    (arrays (cursor.rest.takeWhile (· == Ascii.openBracket)).length <$> elementDecoder).run
      ⟨cursor.position + (cursor.rest.takeWhile (· == Ascii.openBracket)).length,
        cursor.rest.dropWhile (· == Ascii.openBracket)⟩ := by
  rw [map_eq_pure_bind]
  rfl

theorem run_decoder_bracket (position : Nat) (rest : Bytes) :
    FieldType.decoder.run ⟨position, Ascii.openBracket :: rest⟩ =
      (array <$> FieldType.decoder).run ⟨position + 1, rest⟩ := by
  rw [Work.run_map, run_decoder, run_decoder]
  simp only [List.takeWhile_cons, List.dropWhile_cons, beq_self_eq_true, if_true, Work.run_map,
    List.length_cons]
  rw [Nat.add_right_comm, Nat.add_assoc]
  cases elementDecoder.run _ <;> rfl

theorem run_decoder_of_ne {position : Nat} {rest : Bytes}
    (h : rest.head? ≠ some Ascii.openBracket) :
    FieldType.decoder.run ⟨position, rest⟩ = elementDecoder.run ⟨position, rest⟩ := by
  rw [run_decoder, Work.run_map]
  cases rest with
  | nil => rfl
  | cons b rest =>
    have hb : (b == Ascii.openBracket) = false := beq_eq_false_iff_ne.2 fun he => h (by simp [he])
    simp only [List.takeWhile_cons, List.dropWhile_cons, hb, Bool.false_eq_true, if_false,
      List.length_nil, Nat.add_zero]
    cases elementDecoder.run _ <;> rfl

theorem run_elementDecoder_cons (position : Nat) (b : UInt8) (rest : Bytes) :
    elementDecoder.run ⟨position, b :: rest⟩ =
      (letterDecoder (Char.ofNat b.toNat)).run ⟨position + 1, rest⟩ := by
  have hb : u8.run ⟨position, b :: rest⟩ = .ok b ⟨position + 1, rest⟩ :=
    (reads_u8 _ _ _).2 ⟨[b], by simp [Bytes.ofNat], rfl, rfl, trivial⟩
  rw [elementDecoder_eq, EStateM.run_bind, hb]

theorem run_elementDecoder_nil (position : Nat) :
    elementDecoder.run ⟨position, []⟩ = .error (.unexpectedEnd position 1) ⟨position, []⟩ :=
  rfl

theorem descriptor_ne_nil (type : FieldType) : type.descriptor ≠ [] := by
  cases type <;> simp [descriptor, Utf8.encode]

theorem spelling.ne_nil {bytes : Bytes} (h : spelling type bytes) : bytes ≠ [] :=
  h.2 ▸ type.descriptor_ne_nil

theorem spelling_bracket_iff {bytes : Bytes} : spelling type (Ascii.openBracket :: bytes) ↔
    ∃ element, array element = type ∧ spelling element bytes := by
  constructor
  · rintro ⟨hspellable, hbytes⟩
    cases type with
    | array element => exact ⟨element, rfl, hspellable, (List.cons.inj hbytes).2⟩
    | _ => exact absurd (List.cons.inj hbytes).1 (by decide)
  · rintro ⟨element, rfl, hspellable, rfl⟩
    exact ⟨hspellable, rfl⟩

/-- What is read is not empty, so it can be taken apart at the first byte. -/
theorem exists_read_cons_iff {read : Bytes → Prop} (hread : ¬ read []) {b : UInt8}
    {rest back : Bytes} {position place : Nat} :
    (∃ bytes, read bytes ∧ b :: rest = bytes ++ back ∧ place = position + bytes.length ∧ True) ↔
      ∃ bytes, read (b :: bytes) ∧ rest = bytes ++ back ∧
        place = position + 1 + bytes.length ∧ True := by
  constructor
  · rintro ⟨bytes, hbytes, hrest, hplace⟩
    cases bytes with
    | nil => exact absurd hbytes hread
    | cons first bytes =>
      obtain ⟨rfl, rfl⟩ := List.cons.inj hrest
      exact ⟨bytes, hbytes, rfl, by simpa [Nat.add_assoc, Nat.add_comm 1] using hplace⟩
  · rintro ⟨bytes, hbytes, rfl, hplace⟩
    exact ⟨b :: bytes, hbytes, rfl, by simpa [Nat.add_assoc, Nat.add_comm 1] using hplace⟩

/-- A type is read from exactly the bytes that spell it. -/
theorem reads_decoder : Reads FieldType.decoder spelling := by
  intro cursor type after
  obtain ⟨position, rest⟩ := cursor
  -- The decoder passes over all brackets at once; the induction takes them off one by one.
  induction rest generalizing position type with
  | nil =>
    rw [run_decoder_of_ne (by simp), run_elementDecoder_nil]
    refine iff_of_false (fun h => nomatch h) ?_
    rintro ⟨bytes, hbytes, hrest, -⟩
    obtain ⟨rfl, -⟩ := List.nil_eq_append_iff.1 hrest
    exact hbytes.ne_nil rfl
  | cons b rest ih =>
    rw [exists_read_cons_iff fun h => h.ne_nil rfl]
    by_cases hb : b = Ascii.openBracket
    · rw [hb, run_decoder_bracket, Work.run_map_eq_ok_iff]
      simp only [ih, spelling_bracket_iff]
      constructor
      · rintro ⟨element, ⟨bytes, hbytes, hrest⟩, htype⟩
        exact ⟨bytes, ⟨element, htype, hbytes⟩, hrest⟩
      · rintro ⟨bytes, ⟨element, htype, hbytes⟩, hrest⟩
        exact ⟨element, ⟨bytes, hbytes, hrest⟩, htype⟩
    · rw [run_decoder_of_ne (by simpa using hb), run_elementDecoder_cons]
      exact reads_letterDecoder hb _ _ _

theorem parse_eq_ok_iff_exists {descriptor : Bytes} : parse descriptor = .ok type ↔
    ∃ after, FieldType.decoder.runOn descriptor = .ok type after ∧ after.rest = [] := by
  unfold parse
  cases FieldType.decoder.runOn descriptor with
  | error e after => simp
  | ok found after =>
    by_cases hrest : after.rest = [] <;> simp [Cursor.isEmpty, hrest]

/-- A whole descriptor is accepted exactly if it spells the type. -/
theorem parse_iff_spelling {descriptor : Bytes} :
    parse descriptor = .ok type ↔ spelling type descriptor :=
  parse_eq_ok_iff_exists.trans (reads_decoder.usesUp descriptor type)

def spellings : Form (List FieldType) :=
  fun types bytes => (∀ type ∈ types, type.Spellable) ∧ bytes = types.flatMap descriptor

theorem spellings_nil_iff {types : List FieldType} : spellings types [] ↔ types = [] := by
  constructor
  · rintro ⟨-, hbytes⟩
    cases types with
    | nil => rfl
    | cons first others =>
      exact absurd (List.append_eq_nil_iff.1 hbytes.symm).1 first.descriptor_ne_nil
  · rintro rfl
    exact ⟨by simp, rfl⟩

theorem spellings_cons_iff {first : FieldType} {others : List FieldType} {bytes : Bytes} :
    spellings (first :: others) bytes ↔
      ∃ front back, spelling first front ∧ spellings others back ∧ bytes = front ++ back := by
  constructor
  · rintro ⟨hspellable, rfl⟩
    obtain ⟨hfirst, hothers⟩ := List.forall_mem_cons.1 hspellable
    exact ⟨_, _, ⟨hfirst, rfl⟩, ⟨hothers, rfl⟩, List.flatMap_cons⟩
  · rintro ⟨_, _, ⟨hfirst, rfl⟩, ⟨hothers, rfl⟩, rfl⟩
    exact ⟨List.forall_mem_cons.2 ⟨hfirst, hothers⟩, List.flatMap_cons.symm⟩

theorem run_listDecoder_nil (fuel : Nat) {cursor : Cursor} (hcursor : cursor.rest = []) :
    (listDecoder fuel).run cursor = .ok [] cursor := by
  cases fuel with
  | zero => rfl
  | succ fuel =>
    rw [listDecoder]
    simp [Cursor.isEmpty, hcursor]

theorem run_listDecoder_succ (fuel : Nat) {cursor : Cursor} (hcursor : cursor.rest ≠ []) :
    (listDecoder (fuel + 1)).run cursor =
      EStateM.run (do
        let first ← FieldType.decoder
        return first :: (← listDecoder fuel)) cursor := by
  rw [listDecoder]
  simp [Cursor.isEmpty, hcursor]

theorem run_listDecoder_iff {fuel : Nat} {cursor : Cursor} {types : List FieldType}
    (hfuel : cursor.rest.length ≤ fuel) :
    (∃ after, (listDecoder fuel).run cursor = .ok types after) ↔ spellings types cursor.rest := by
  by_cases hempty : cursor.rest = []
  · rw [run_listDecoder_nil fuel hempty, hempty, spellings_nil_iff]
    exact ⟨fun ⟨_, h⟩ => (EStateM.Result.ok.inj h).1.symm, fun h => ⟨cursor, h ▸ rfl⟩⟩
  -- A type takes at least one byte, so less fuel is enough for the types behind it.
  cases fuel with
  | zero => exact absurd (List.eq_nil_of_length_eq_zero (Nat.le_zero.1 hfuel)) hempty
  | succ fuel =>
    have hshorter {front back : Bytes} (hrest : cursor.rest = front ++ back)
        (hfront : front ≠ []) : back.length ≤ fuel := by
      have hpos := List.length_pos_iff.2 hfront
      rw [hrest, List.length_append] at hfuel
      omega
    rw [run_listDecoder_succ fuel hempty]
    constructor
    · rintro ⟨after, hrun⟩
      obtain ⟨first, middle, hfirst, hnext⟩ := (Work.run_bind_eq_ok_iff _ _ _ _ _).1 hrun
      obtain ⟨others, last, hothers, hlast⟩ := (Work.run_bind_eq_ok_iff _ _ _ _ _).1 hnext
      obtain ⟨rfl, rfl⟩ := EStateM.Result.ok.inj hlast
      obtain ⟨front, hfront, hrest, -⟩ := (reads_decoder _ _ _).1 hfirst
      have hback := (run_listDecoder_iff (hshorter hrest hfront.ne_nil)).1 ⟨_, hothers⟩
      exact spellings_cons_iff.2 ⟨front, _, hfront, hback, hrest⟩
    · intro h
      cases types with
      | nil => exact absurd h.2 hempty
      | cons first others =>
        obtain ⟨front, back, hfront, hback, hrest⟩ := spellings_cons_iff.1 h
        have hfirst : FieldType.decoder.run cursor =
            .ok first ⟨cursor.position + front.length, back⟩ :=
          (reads_decoder _ _ _).2 ⟨front, hfront, hrest, rfl, trivial⟩
        obtain ⟨after, hothers⟩ : ∃ after,
            (listDecoder fuel).run ⟨cursor.position + front.length, back⟩ = .ok others after :=
          (run_listDecoder_iff (hshorter hrest hfront.ne_nil)).2 hback
        refine ⟨after, ?_⟩
        rw [EStateM.run_bind, hfirst]
        simp only [EStateM.run_bind, hothers]
        rfl

end FieldType

end ClassMachine
