import ClassMachine.Proofs.Descriptor.Spelling

/-!
# Descriptors that are refused

What is no field descriptor is either the beginning of one or can never become one. In the first
case the decoder runs out of bytes at its end, in the second it meets something that it does not
understand, and the error tells the two apart.
-/

namespace ClassMachine.FieldType

open Decoder

/-- More bytes would make it the descriptor of a type. -/
def Unfinished (bytes : Bytes) : Prop :=
  ∃ type extra, extra ≠ [] ∧ spelling type (bytes ++ extra)

theorem unfinished_nil : Unfinished [] :=
  ⟨int, int.descriptor, int.descriptor_ne_nil, trivial, rfl⟩

theorem unfinished_bracket_iff {bytes : Bytes} :
    Unfinished (Ascii.openBracket :: bytes) ↔ Unfinished bytes := by
  constructor
  · rintro ⟨type, extra, hextra, hspelling⟩
    obtain ⟨element, -, helement⟩ := spelling_bracket_iff.1 hspelling
    exact ⟨element, extra, hextra, helement⟩
  · rintro ⟨element, extra, hextra, helement⟩
    exact ⟨array element, extra, hextra, spelling_bracket_iff.2 ⟨element, rfl, helement⟩⟩

/-- The beginning of a type that is no array lacks the delimiter of a class name. -/
theorem unfinished_cons_iff {b : UInt8} {bytes : Bytes} (hb : b ≠ Ascii.openBracket) :
    Unfinished (b :: bytes) ↔ Char.ofNat b.toNat = 'L' ∧ Ascii.semicolon ∉ bytes := by
  constructor
  · rintro ⟨type, extra, hextra, hspelling⟩
    rcases (spelling_cons_iff hb).1 hspelling with ⟨-, hnil⟩ | ⟨hletter, name, -, -, hname, hbytes⟩
    · exact absurd (List.append_eq_nil_iff.1 hnil).2 hextra
    · -- What is missing ends in the delimiter, so what is there begins the class name.
      obtain ⟨more, last, rfl⟩ := (List.eq_nil_or_concat extra).resolve_left hextra
      rw [List.concat_eq_append] at hbytes
      have happend : bytes ++ more ++ [last] = name ++ [Ascii.semicolon] :=
        (List.append_assoc bytes more [last]).trans hbytes
      obtain ⟨rfl, -⟩ := List.append_inj' happend rfl
      exact ⟨hletter, fun hmem => hname (List.mem_append_left more hmem)⟩
  · rintro ⟨hletter, hnot⟩
    refine ⟨object (bytes ++ [b]), [b, Ascii.semicolon], List.cons_ne_nil _ _, ?_⟩
    refine (spelling_cons_iff hb).2 (.inr ⟨hletter, _, rfl, by simp, ?_, by simp⟩)
    have hsemicolon : Ascii.semicolon ≠ b := by
      rintro rfl
      contradiction
    simp [hnot, hsemicolon]

theorem run_decoder_of_unfinished {position : Nat} {rest : Bytes} (h : Unfinished rest) :
    FieldType.decoder.run ⟨position, rest⟩ =
      .error (.unexpectedEnd (position + rest.length) 1) ⟨position + rest.length, []⟩ := by
  induction rest generalizing position with
  | nil => rw [run_decoder_of_ne (by simp), run_elementDecoder_nil]; rfl
  | cons b rest ih =>
    have hlength : position + (b :: rest).length = position + 1 + rest.length := by
      rw [List.length_cons]
      omega
    rw [hlength]
    by_cases hb : b = Ascii.openBracket
    · rw [hb] at h ⊢
      rw [run_decoder_bracket, Work.run_map, ih (unfinished_bracket_iff.1 h)]
    · obtain ⟨hletter, hnot⟩ := (unfinished_cons_iff hb).1 h
      have hname : (upTo Ascii.semicolon).run ⟨position + 1, rest⟩ = _ := run_upTo _ _ _
      rw [Bytes.cut?_eq_none_iff.2 hnot] at hname
      rw [run_decoder_of_ne (by simpa using hb), run_elementDecoder_cons, hletter]
      change classDecoder.run _ = _
      rw [classDecoder, EStateM.run_bind, hname]

theorem malformed_of_run_decoder {position : Nat} {rest : Bytes} {e : StructuralError}
    {after : Cursor} (h : FieldType.decoder.run ⟨position, rest⟩ = .error e after)
    (hfinished : ¬ Unfinished rest) : ∃ shown, e = .malformedDescriptor shown := by
  induction rest generalizing position after with
  | nil => exact absurd unfinished_nil hfinished
  | cons b rest ih =>
    by_cases hb : b = Ascii.openBracket
    · rw [hb] at h hfinished
      rw [run_decoder_bracket, Work.run_map] at h
      cases helement : FieldType.decoder.run ⟨position + 1, rest⟩ with
      | ok element middle => rw [helement] at h; contradiction
      | error found middle =>
        rw [helement] at h
        obtain ⟨rfl, -⟩ := EStateM.Result.error.inj h
        exact ih helement fun hrest => hfinished (unfinished_bracket_iff.2 hrest)
    · rw [run_decoder_of_ne (by simpa using hb), run_elementDecoder_cons] at h
      unfold letterDecoder at h
      split at h
      next => contradiction
      next hletter =>
        split at h
        next hclass =>
          have hmem : Ascii.semicolon ∈ rest :=
            not_not.1 fun hnot => hfinished ((unfinished_cons_iff hb).2 ⟨hclass, hnot⟩)
          rw [classDecoder, EStateM.run_bind, run_upTo] at h
          cases hcut : Bytes.cut? Ascii.semicolon rest with
          | none => exact absurd hmem (Bytes.cut?_eq_none_iff.1 hcut)
          | some cut =>
            simp only [hcut] at h
            split at h
            next => exact ⟨_, (EStateM.Result.error.inj h).1.symm⟩
            next => contradiction
        next => exact ⟨_, (EStateM.Result.error.inj h).1.symm⟩

theorem parse_of_unfinished {descriptor : Bytes} (h : Unfinished descriptor) :
    parse descriptor = .error (.unexpectedEnd descriptor.length 1) := by
  have hrun : FieldType.decoder.run ⟨0, descriptor⟩ = _ := run_decoder_of_unfinished h
  rw [parse, runOn, Cursor.ofBytes, hrun, Nat.zero_add]

theorem parse_malformed_of_not {descriptor : Bytes}
    (hspelling : ∀ type : FieldType, ¬ spelling type descriptor)
    (hfinished : ¬ Unfinished descriptor) :
    ∃ shown, parse descriptor = .error (.malformedDescriptor shown) := by
  cases hparse : parse descriptor with
  | ok type => exact absurd (parse_iff_spelling.1 hparse) (hspelling type)
  | error e =>
    unfold parse at hparse
    split at hparse
    next found after hrun =>
      obtain rfl := Except.error.inj hparse
      obtain ⟨shown, rfl⟩ := malformed_of_run_decoder hrun hfinished
      exact ⟨shown, rfl⟩
    next =>
      split at hparse
      next => contradiction
      next => exact ⟨_, congrArg Except.error (Except.error.inj hparse).symm⟩

/-- Exactly the descriptors that are only begun are refused because bytes are missing. -/
theorem parse_eq_unexpectedEnd_iff {descriptor : Bytes} {offset wanted : Nat} :
    parse descriptor = .error (.unexpectedEnd offset wanted) ↔
      Unfinished descriptor ∧ offset = descriptor.length ∧ wanted = 1 := by
  constructor
  · intro h
    by_cases hunfinished : Unfinished descriptor
    · rw [parse_of_unfinished hunfinished] at h
      injection h with h
      injection h with hoffset hwanted
      exact ⟨hunfinished, hoffset.symm, hwanted.symm⟩
    · have hspelling (type : FieldType) : ¬ spelling type descriptor := by
        rw [← parse_iff_spelling, h]
        simp
      obtain ⟨shown, hmalformed⟩ := parse_malformed_of_not hspelling hunfinished
      rw [h] at hmalformed
      injection hmalformed with hmalformed
      contradiction
  · rintro ⟨hunfinished, rfl, rfl⟩
    exact parse_of_unfinished hunfinished

theorem parse_eq_malformed_iff {descriptor : Bytes} :
    (∃ shown, parse descriptor = .error (.malformedDescriptor shown)) ↔
      (∀ type : FieldType, ¬ spelling type descriptor) ∧ ¬ Unfinished descriptor := by
  constructor
  · rintro ⟨shown, h⟩
    constructor
    · intro type
      rw [← parse_iff_spelling, h]
      simp
    · intro hunfinished
      rw [parse_of_unfinished hunfinished] at h
      injection h with h
      contradiction
  · rintro ⟨hspelling, hfinished⟩
    exact parse_malformed_of_not hspelling hfinished

end ClassMachine.FieldType
