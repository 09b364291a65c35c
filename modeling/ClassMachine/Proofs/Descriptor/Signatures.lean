import ClassMachine.Proofs.Descriptor.Spelling
import ClassMachine.Proofs.Text.Utf8
import Mathlib.Data.Option.Basic

/-!
# Method descriptors are read by their grammar

The first closing parenthesis ends the parameters. What stands before and behind it is a text of
its own, and spells the types of the parameters and the type of the result. A method descriptor is
therefore accepted exactly if it is the descriptor of a signature whose class names can be told from
what stands around them, and it then is the only descriptor of that signature.
-/

namespace ClassMachine

theorem ReturnType.descriptor_ne_nil (type : ReturnType) : type.descriptor ≠ [] := by
  cases type with
  | void => simp [descriptor, Utf8.encode]
  | value type => exact type.descriptor_ne_nil

def ReturnType.spelling : Form ReturnType :=
  fun type bytes => (∀ value, type = .value value → value.Spellable) ∧ bytes = type.descriptor

theorem ReturnType.spelling_value_iff {type : FieldType} {bytes : Bytes} :
    (ReturnType.value type).spelling bytes ↔ FieldType.spelling type bytes := by
  simp [spelling, FieldType.spelling, descriptor]

theorem ReturnType.spelling_void : ReturnType.void.spelling (Utf8.encode "V") :=
  ⟨by simp, rfl⟩

namespace MethodSignature

open FieldType

/-- The class names in the signature can be told from what follows them, also where a parenthesis
ends the parameters, and the result is written on one line. -/
structure Spellable (signature : MethodSignature) : Prop where
  params : ∀ type ∈ signature.params, type.Spellable
  closed : ∀ type ∈ signature.params, type.Names (Ascii.closeParen ∉ ·)
  result : ∀ type, signature.result = .value type → type.Spellable
  oneLine : Ascii.lineFeed ∉ signature.result.descriptor

/-- The parts of a descriptor spell the signature, as texts and the result on one line. -/
structure SpelledBy (signature : MethodSignature) (front back : Bytes) : Prop where
  params : spellings signature.params front
  result : signature.result.spelling back
  paramsText : Utf8.WellFormed front
  resultText : Utf8.WellFormed back
  oneLine : Ascii.lineFeed ∉ back

theorem parseParams?_eq_some_iff {params : Bytes} {types : List FieldType} :
    parseParams? params = some types ↔ spellings types params := by
  have hrun : (∃ after, (listDecoder params.length).runOn params = .ok types after) ↔
      spellings types params := run_listDecoder_iff (Nat.le_refl params.length)
  rw [← hrun, parseParams?]
  cases (listDecoder params.length).runOn params <;> simp

theorem descriptor_ne_void (type : FieldType) : type.descriptor ≠ ReturnType.void.descriptor := by
  cases type with
  | object className =>
    rw [descriptor_object]
    exact fun h => nomatch (List.cons.inj h).1
  | array element => exact fun h => nomatch (List.cons.inj h).1
  | _ => decide

theorem parseResult?_eq_some_iff {result : Bytes} {type : ReturnType} :
    parseResult? result = some type ↔ type.spelling result := by
  rw [parseResult?, ReturnType.spelling]
  split
  next hvoid =>
    subst hvoid
    cases type with
    | void => simp [ReturnType.descriptor]
    | value type => simpa [ReturnType.descriptor] using fun _ => (descriptor_ne_void type).symm
  next hvoid =>
    cases type with
    | void => simpa [ReturnType.descriptor] using hvoid
    | value type =>
      have hparse : (FieldType.parse result).toOption = some type ↔ spelling type result := by
        rw [← parse_iff_spelling]
        cases FieldType.parse result <;> simp [Except.toOption]
      simp [ReturnType.descriptor, hparse, spelling]

theorem parts?_eq_some_iff {descriptor params result : Bytes} :
    parts? descriptor = some (params, result) ↔
      descriptor = Ascii.openParen :: params ++ Ascii.closeParen :: result ∧
        Ascii.closeParen ∉ params := by
  cases descriptor with
  | nil => simp [parts?]
  | cons b rest =>
    rw [parts?]
    split
    next hb => simp [hb, Bytes.cut?_eq_some_iff]
    next hb => simp [hb]

theorem resultText?_iff (result : Bytes) :
    resultText? result = true ↔ result ≠ [] ∧ Utf8.WellFormed result ∧ Ascii.lineFeed ∉ result := by
  simp [resultText?, Utf8.isSome_decode?_iff, and_assoc]

theorem parse_eq_ok_iff_parse? {descriptor : Bytes} {signature : MethodSignature} :
    parse descriptor = .ok signature ↔ parse? descriptor = some signature := by
  rw [parse]
  cases parse? descriptor <;> simp

theorem parse?_eq_some_iff {descriptor : Bytes} {signature : MethodSignature} :
    parse? descriptor = some signature ↔ ∃ params result,
      parts? descriptor = some (params, result) ∧
        ((Utf8.decode? params).isSome ∧ resultText? result = true) ∧
        parseParams? params = some signature.params ∧
        parseResult? result = some signature.result := by
  cases signature with
  | mk types type => simp [parse?, Option.bind_eq_some_iff, Option.guard_eq_some']

theorem parse_iff_parts {descriptor : Bytes} {signature : MethodSignature} :
    parse descriptor = .ok signature ↔ ∃ params result,
      descriptor = Ascii.openParen :: params ++ Ascii.closeParen :: result ∧
        Ascii.closeParen ∉ params ∧ signature.SpelledBy params result := by
  rw [parse_eq_ok_iff_parse?, parse?_eq_some_iff]
  simp only [parts?_eq_some_iff, Utf8.isSome_decode?_iff, resultText?_iff,
    parseParams?_eq_some_iff, parseResult?_eq_some_iff, and_assoc]
  refine exists_congr fun params => exists_congr fun result => and_congr_right fun _ =>
    and_congr_right fun _ => ?_
  constructor
  · rintro ⟨hparams, -, hresult, hline, htypes, htype⟩
    exact ⟨htypes, htype, hparams, hresult, hline⟩
  · rintro ⟨htypes, htype, hparams, hresult, hline⟩
    have hne : result ≠ [] := htype.2 ▸ signature.result.descriptor_ne_nil
    exact ⟨hparams, hne, hresult, hline, htypes, htype⟩

/-- The first closing parenthesis tells where the parameters end. -/
theorem parse_of_parts_iff {params result : Bytes} {signature : MethodSignature}
    (hclosed : Ascii.closeParen ∉ params) :
    parse (Ascii.openParen :: params ++ Ascii.closeParen :: result) = .ok signature ↔
      signature.SpelledBy params result := by
  rw [parse_iff_parts]
  constructor
  · rintro ⟨front, back, hparts, hfront, hspelled⟩
    have hsame := (parts?_eq_some_iff.2 ⟨hparts, hfront⟩).symm.trans
      (parts?_eq_some_iff.2 ⟨rfl, hclosed⟩)
    obtain ⟨rfl, rfl⟩ := Prod.mk.inj (Option.some.inj hsame)
    exact hspelled
  · exact fun hspelled => ⟨params, result, rfl, hclosed, hspelled⟩

theorem paramsText_of_parts {params result : Bytes} (h : Ascii.closeParen ∉ params) :
    paramsText (Ascii.openParen :: params ++ Ascii.closeParen :: result) =
      Ascii.openParen :: params := by
  have hall : ∀ b ∈ Ascii.openParen :: params, (b != Ascii.closeParen) = true := by
    intro b hb
    rcases List.mem_cons.1 hb with rfl | hb
    · rfl
    · exact bne_iff_ne.2 fun he => h (he ▸ hb)
  rw [paramsText, List.takeWhile_append_of_pos hall]
  simp

/-- Two method descriptors spell their parameters alike exactly if these have the same types. -/
theorem paramsText_eq_iff {descriptor other : Bytes} {signature found : MethodSignature}
    (h : parse descriptor = .ok signature) (hother : parse other = .ok found) :
    paramsText descriptor = paramsText other ↔ signature.params = found.params := by
  obtain ⟨params, result, rfl, hnot, hspelled⟩ := parse_iff_parts.1 h
  obtain ⟨text, back, rfl, htext, hfound⟩ := parse_iff_parts.1 hother
  rw [paramsText_of_parts hnot, paramsText_of_parts htext, List.cons.injEq]
  constructor
  · rintro ⟨-, rfl⟩
    have hparams := parseParams?_eq_some_iff.2 hspelled.params
    exact Option.some.inj (hparams.symm.trans (parseParams?_eq_some_iff.2 hfound.params))
  · intro hsame
    exact ⟨rfl, by rw [hspelled.params.2, hfound.params.2, hsame]⟩

theorem closeParen_not_mem_iff {type : FieldType} :
    Ascii.closeParen ∉ type.descriptor ↔ type.Names (Ascii.closeParen ∉ ·) := by
  induction type with
  | object className =>
    rw [descriptor_object, Names, List.mem_cons, List.mem_append]
    simp [Ascii.closeParen, Ascii.semicolon]
  | array element ih =>
    rw [descriptor_array, Names, List.mem_cons, ← ih]
    simp [Ascii.closeParen, Ascii.openBracket]
  | _ => exact iff_of_true (by decide) trivial

theorem descriptor_eq (signature : MethodSignature) : signature.descriptor =
    Ascii.openParen :: signature.params.flatMap FieldType.descriptor ++
      Ascii.closeParen :: signature.result.descriptor := by
  have hparens : Utf8.encode "(" = [Ascii.openParen] ∧ Utf8.encode ")" = [Ascii.closeParen] :=
    ⟨rfl, rfl⟩
  rw [descriptor, hparens.1, hparens.2]
  simp

theorem wellFormed_parts_iff {params result : Bytes} :
    Utf8.WellFormed (Ascii.openParen :: params ++ Ascii.closeParen :: result) ↔
      Utf8.WellFormed params ∧ Utf8.WellFormed result := by
  have hnil : Utf8.WellFormed [] := ⟨"", rfl⟩
  have hopen := Utf8.wellFormed_append_cons_iff (b := Ascii.openParen) (by decide) [] params
  rw [Utf8.wellFormed_append_cons_iff (by decide), ← List.nil_append (Ascii.openParen :: params),
    hopen, and_iff_right hnil]

/-- A method descriptor is accepted exactly if it is the descriptor of the signature, the class
names in it can be told, and it is a text. -/
theorem parse_iff_spelled (descriptor : Bytes) (signature : MethodSignature) :
    parse descriptor = .ok signature ↔
      descriptor = signature.descriptor ∧ signature.Spellable ∧ Utf8.WellFormed descriptor := by
  rw [parse_iff_parts, descriptor_eq]
  constructor
  · rintro ⟨params, result, rfl, hclosed, hspelled⟩
    obtain ⟨⟨htypes, rfl⟩, ⟨htype, rfl⟩, hparams, hresult, hline⟩ := hspelled
    refine ⟨rfl, ⟨htypes, ?_, htype, hline⟩, wellFormed_parts_iff.2 ⟨hparams, hresult⟩⟩
    intro type hmem
    exact closeParen_not_mem_iff.1 fun h => hclosed (List.mem_flatMap.2 ⟨type, hmem, h⟩)
  · rintro ⟨rfl, hspellable, hwellFormed⟩
    obtain ⟨hparams, hresult⟩ := wellFormed_parts_iff.1 hwellFormed
    refine ⟨_, _, rfl, fun h => ?_, ⟨hspellable.params, rfl⟩, ⟨hspellable.result, rfl⟩, hparams,
      hresult, hspellable.oneLine⟩
    obtain ⟨type, hmem, h⟩ := List.mem_flatMap.1 h
    exact closeParen_not_mem_iff.2 (hspellable.closed type hmem) h

/-- Method descriptors are read by their grammar: what is accepted is the descriptor of the
signature that it gives, so different descriptors have different signatures, and whatever is not
such a descriptor is refused as malformed. -/
theorem parse_grammar :
    (∀ descriptor signature, parse descriptor = .ok signature ↔
      descriptor = signature.descriptor ∧ signature.Spellable ∧ Utf8.WellFormed descriptor) ∧
    (∀ descriptor, parse descriptor = .error (.malformedDescriptor (Utf8.lenient descriptor)) ↔
      ∀ signature : MethodSignature, ¬ (descriptor = signature.descriptor ∧ signature.Spellable ∧
        Utf8.WellFormed descriptor)) ∧
    ∀ descriptor other signature, parse descriptor = .ok signature →
      parse other = .ok signature → descriptor = other := by
  refine ⟨parse_iff_spelled, fun descriptor => ?_, fun descriptor other signature h hother => ?_⟩
  · simp only [← parse_iff_spelled, parse_eq_ok_iff_parse?]
    unfold parse
    cases parse? descriptor <;> simp
  · rw [((parse_iff_spelled _ _).1 h).1, ((parse_iff_spelled _ _).1 hother).1]

theorem parse_grammar_matrix :
    let signature : MethodSignature :=
      ⟨[.array (.array .int), .object (Utf8.encode "a/b")], .value .long⟩
    parse (Utf8.encode "([[ILa/b;)J") = .ok signature ∧
      signature.descriptor = Utf8.encode "([[ILa/b;)J" ∧ signature.Spellable ∧
      ∀ other, parse other = .ok signature → other = Utf8.encode "([[ILa/b;)J" := by
  intro signature
  obtain ⟨haccepted, -, hunique⟩ := parse_grammar
  have h : parse (Utf8.encode "([[ILa/b;)J") = .ok signature := by decide +kernel
  obtain ⟨hdescriptor, hspellable, -⟩ := (haccepted _ _).1 h
  exact ⟨h, hdescriptor.symm, hspellable, fun other hother => hunique _ _ _ hother h⟩

/-- A type can be a result if its text is well formed and on one line, and a parameter if its text
is well formed and holds no closing parenthesis. -/
theorem parse_around_type (text : Bytes) (type : FieldType) :
    ((∃ params, parse (Ascii.openParen :: Ascii.closeParen :: text) = .ok ⟨params, .value type⟩) ↔
      FieldType.parse text = .ok type ∧ Utf8.WellFormed text ∧ Ascii.lineFeed ∉ text) ∧
    (Ascii.closeParen ∉ text →
      ((∃ result, parse (Ascii.openParen :: text ++ Ascii.closeParen :: Utf8.encode "V") =
          .ok ⟨[type], result⟩) ↔
        FieldType.parse text = .ok type ∧ Utf8.WellFormed text)) := by
  have hnone : Ascii.closeParen ∉ ([] : Bytes) := List.not_mem_nil
  refine ⟨?_, fun hclosed => ?_⟩
  · refine (exists_congr fun params => parse_of_parts_iff hnone).trans ?_
    rw [FieldType.parse_iff_spelling]
    constructor
    · rintro ⟨params, h⟩
      exact ⟨ReturnType.spelling_value_iff.1 h.result, h.resultText, h.oneLine⟩
    · rintro ⟨htype, htext, hline⟩
      exact ⟨[], spellings_nil_iff.2 rfl, ReturnType.spelling_value_iff.2 htype, ⟨"", rfl⟩, htext,
        hline⟩
  · refine (exists_congr fun result => parse_of_parts_iff hclosed).trans ?_
    rw [FieldType.parse_iff_spelling]
    constructor
    · rintro ⟨result, h⟩
      obtain ⟨front, back, hfront, hback, htext⟩ := spellings_cons_iff.1 h.params
      obtain rfl : back = [] := hback.2
      rw [List.append_nil] at htext
      exact ⟨htext ▸ hfront, h.paramsText⟩
    · rintro ⟨htype, htext⟩
      exact ⟨.void, spellings_cons_iff.2 ⟨text, [], htype, spellings_nil_iff.2 rfl,
        (List.append_nil text).symm⟩, ReturnType.spelling_void, htext, ⟨"V", rfl⟩, by decide⟩

theorem parse_around_type_matrix :
    Ascii.closeParen ∉ Utf8.encode "[[La/b;" ∧
      ∃ result, parse (Ascii.openParen :: Utf8.encode "[[La/b;" ++
        Ascii.closeParen :: Utf8.encode "V") =
          .ok ⟨[.array (.array (.object (Utf8.encode "a/b")))], result⟩ := by
  have hclosed : Ascii.closeParen ∉ Utf8.encode "[[La/b;" := by decide
  have htype : FieldType.parse (Utf8.encode "[[La/b;") =
      .ok (.array (.array (.object (Utf8.encode "a/b")))) := by decide +kernel
  exact ⟨hclosed, ((parse_around_type _ _).2 hclosed).2 ⟨htype, "[[La/b;", rfl⟩⟩

/-- A type whose class name has two lines is one of a field and of a parameter, but not of a result;
and one whose class name is no text is not one of a parameter either. -/
theorem exists_type_of_field_only :
    FieldType.parse (Utf8.encode "La\nb;") = .ok (.object (Utf8.encode "a\nb")) ∧
      parse (Utf8.encode "(La\nb;)V") = .ok ⟨[.object (Utf8.encode "a\nb")], .void⟩ ∧
      parse (Utf8.encode "()La\nb;") = .error (.malformedDescriptor "()La\nb;") ∧
      FieldType.parse [0x4c, 0xff, 0x3b] = .ok (.object [0xff]) ∧
      parse [0x28, 0x4c, 0xff, 0x3b, 0x29, 0x56] = .error (.malformedDescriptor "(L\uFFFD;)V") := by
  decide +kernel

end MethodSignature

end ClassMachine
