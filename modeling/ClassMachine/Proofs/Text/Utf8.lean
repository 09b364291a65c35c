import ClassMachine.Text.Utf8

/-!
# Strict reading of UTF-8 is exact

A character is spelled by a byte that leads and by the bytes that finish what it has begun. These
spellings are the encodings of the characters, so a byte string has no ill-formed part exactly if it
encodes a text.
-/

namespace ClassMachine.Utf8

/-- The pending encoding goes on with these bytes and is then one of the character. -/
def Finishes (c : Char) : Pending → Bytes → Prop
  | _, [] => False
  | pending, b :: rest =>
    (pending.low ≤ b ∧ b ≤ pending.high) ∧
      if pending.missing ≤ 1 then
        Char.ofNat (pending.bits * 64 + (b.toNat - 0x80)) = c ∧ rest = []
      else Finishes c
        ⟨pending.bits * 64 + (b.toNat - 0x80), pending.missing - 1, 0x80, 0xbf⟩ rest

/-- The bytes are read as the one character. -/
def Spells (c : Char) : Bytes → Prop
  | [] => False
  | b :: rest =>
    match lead b with
    | .complete found => found = c ∧ rest = []
    | .opens pending => Finishes c pending rest
    | .illFormed => False

section leads

variable {b : UInt8}

theorem lead_one (h : b.toNat < 0x80) : lead b = .complete (Char.ofNat b.toNat) :=
  if_pos (UInt8.lt_iff_toNat_lt.2 h)

theorem lead_two (hlow : 0xc2 ≤ b.toNat) (hhigh : b.toNat < 0xe0) :
    lead b = .opens ⟨b.toNat - 0xc0, 1, 0x80, 0xbf⟩ := by
  simp only [lead, UInt8.lt_iff_toNat_lt, ← UInt8.toNat_inj, UInt8.reduceToNat]
  grind

/-- The second byte is limited so that no shorter encoding would do and no surrogate is encoded. -/
theorem lead_three (hlow : 0xe0 ≤ b.toNat) (hhigh : b.toNat < 0xf0) :
    lead b = .opens ⟨b.toNat - 0xe0, 2, if b.toNat = 0xe0 then 0xa0 else 0x80,
      if b.toNat = 0xed then 0x9f else 0xbf⟩ := by
  simp only [lead, UInt8.lt_iff_toNat_lt, ← UInt8.toNat_inj, UInt8.reduceToNat]
  grind

theorem lead_four (hlow : 0xf0 ≤ b.toNat) (hhigh : b.toNat < 0xf5) :
    lead b = .opens ⟨b.toNat - 0xf0, 3, if b.toNat = 0xf0 then 0x90 else 0x80,
      if b.toNat = 0xf4 then 0x8f else 0xbf⟩ := by
  simp only [lead, UInt8.lt_iff_toNat_lt, ← UInt8.toNat_inj, UInt8.reduceToNat]
  grind

theorem lead_illFormed (h : 0x80 ≤ b.toNat ∧ b.toNat < 0xc2 ∨ 0xf5 ≤ b.toNat) :
    lead b = .illFormed := by
  simp only [lead, UInt8.lt_iff_toNat_lt, ← UInt8.toNat_inj, UInt8.reduceToNat]
  grind

end leads

theorem utf8EncodeChar_ofNat {n : Nat} (h : n.isValidChar) :
    String.utf8EncodeChar (Char.ofNat n) =
      if n ≤ 0x7f then [.ofNat n]
      else if n ≤ 0x7ff then [.ofNat (n / 64 % 32 + 0xc0), .ofNat (n % 64 + 0x80)]
      else if n ≤ 0xffff then
        [.ofNat (n / 4096 % 16 + 0xe0), .ofNat (n / 64 % 64 + 0x80), .ofNat (n % 64 + 0x80)]
      else [.ofNat (n / 262144 % 8 + 0xf0), .ofNat (n / 4096 % 64 + 0x80),
        .ofNat (n / 64 % 64 + 0x80), .ofNat (n % 64 + 0x80)] := by
  have hn : (Char.ofNat n).val.toNat = n := by
    rw [Char.ofNat, dif_pos h]
    rfl
  rw [String.utf8EncodeChar, hn]

theorem ofNat_eq {n : Nat} {b : UInt8} (h : n = b.toNat) : UInt8.ofNat n = b := by
  rw [h, UInt8.ofNat_toNat]

section encodings

variable {n : Nat} {b b₁ b₂ b₃ : UInt8}

def Continues (b : UInt8) : Prop :=
  0x80 ≤ b.toNat ∧ b.toNat ≤ 0xbf

theorem encode_two (hlow : 0xc2 ≤ b.toNat) (hhigh : b.toNat < 0xe0) (h₁ : Continues b₁)
    (hn : n = (b.toNat - 0xc0) * 64 + (b₁.toNat - 0x80)) :
    String.utf8EncodeChar (Char.ofNat n) = [b, b₁] := by
  obtain ⟨hlow₁, hhigh₁⟩ := h₁
  rw [utf8EncodeChar_ofNat (.inl (by omega)), if_neg (by omega), if_pos (by omega),
    ofNat_eq (b := b) (by omega), ofNat_eq (b := b₁) (by omega)]

theorem encode_three (hlow : 0xe0 ≤ b.toNat) (hhigh : b.toNat < 0xf0) (h₁ : Continues b₁)
    (h₂ : Continues b₂) (hlong : 0x7ff < n) (hvalid : n.isValidChar)
    (hn : n = ((b.toNat - 0xe0) * 64 + (b₁.toNat - 0x80)) * 64 + (b₂.toNat - 0x80)) :
    String.utf8EncodeChar (Char.ofNat n) = [b, b₁, b₂] := by
  obtain ⟨hlow₁, hhigh₁⟩ := h₁
  obtain ⟨hlow₂, hhigh₂⟩ := h₂
  rw [utf8EncodeChar_ofNat hvalid, if_neg (by omega), if_neg (by omega), if_pos (by omega),
    ofNat_eq (b := b) (by omega), ofNat_eq (b := b₁) (by omega), ofNat_eq (b := b₂) (by omega)]

theorem encode_four (hlow : 0xf0 ≤ b.toNat) (hhigh : b.toNat < 0xf5) (h₁ : Continues b₁)
    (h₂ : Continues b₂) (h₃ : Continues b₃) (hlong : 0xffff < n) (hvalid : n.isValidChar)
    (hn : n = (((b.toNat - 0xf0) * 64 + (b₁.toNat - 0x80)) * 64 + (b₂.toNat - 0x80)) * 64 +
      (b₃.toNat - 0x80)) :
    String.utf8EncodeChar (Char.ofNat n) = [b, b₁, b₂, b₃] := by
  obtain ⟨hlow₁, hhigh₁⟩ := h₁
  obtain ⟨hlow₂, hhigh₂⟩ := h₂
  obtain ⟨hlow₃, hhigh₃⟩ := h₃
  rw [utf8EncodeChar_ofNat hvalid, if_neg (by omega), if_neg (by omega), if_neg (by omega),
    ofNat_eq (b := b) (by omega), ofNat_eq (b := b₁) (by omega), ofNat_eq (b := b₂) (by omega),
    ofNat_eq (b := b₃) (by omega)]

end encodings

section finishing

variable {c : Char} {bits missing : Nat} {low high : UInt8} {bytes : Bytes}

theorem finishes_last : Finishes c ⟨bits, 1, low, high⟩ bytes ↔
    ∃ b, bytes = [b] ∧ (low.toNat ≤ b.toNat ∧ b.toNat ≤ high.toNat) ∧
      Char.ofNat (bits * 64 + (b.toNat - 0x80)) = c := by
  cases bytes with
  | nil => simp [Finishes]
  | cons b rest =>
    simp only [Finishes, UInt8.le_iff_toNat_le, Nat.le_refl, if_true, List.cons.injEq]
    grind

theorem finishes_more : Finishes c ⟨bits, missing + 2, low, high⟩ bytes ↔ ∃ b rest,
    bytes = b :: rest ∧ (low.toNat ≤ b.toNat ∧ b.toNat ≤ high.toNat) ∧
      Finishes c ⟨bits * 64 + (b.toNat - 0x80), missing + 1, 0x80, 0xbf⟩ rest := by
  have hmore : ¬ missing + 2 ≤ 1 := by omega
  cases bytes with
  | nil => simp [Finishes]
  | cons b rest =>
    simp only [Finishes, UInt8.le_iff_toNat_le, if_neg hmore, List.cons.injEq]
    grind

end finishing

theorem eq_utf8EncodeChar_of_spells {c : Char} {bytes : Bytes} (h : Spells c bytes) :
    bytes = String.utf8EncodeChar c := by
  cases bytes with
  | nil => contradiction
  | cons b rest =>
    have hb := b.toNat_lt
    -- The range of the first byte settles how many bytes follow and what limits the second one.
    rcases Nat.lt_or_ge b.toNat 0x80 with hone | hone
    · simp only [Spells, lead_one hone] at h
      obtain ⟨rfl, rfl⟩ := h
      rw [utf8EncodeChar_ofNat (.inl (by omega)), if_pos (by omega), UInt8.ofNat_toNat]
    rcases Nat.lt_or_ge b.toNat 0xc2 with htwo | htwo
    · simp only [Spells, lead_illFormed (.inl ⟨hone, htwo⟩)] at h
    rcases Nat.lt_or_ge b.toNat 0xe0 with hthree | hthree
    · simp only [Spells, lead_two htwo hthree, finishes_last, UInt8.reduceToNat] at h
      obtain ⟨b₁, rfl, h₁, rfl⟩ := h
      rw [encode_two htwo hthree h₁ rfl]
    rcases Nat.lt_or_ge b.toNat 0xf0 with hfour | hfour
    · simp only [Spells, lead_three hthree hfour, finishes_more, finishes_last, Nat.zero_add,
        UInt8.reduceToNat, apply_ite UInt8.toNat] at h
      obtain ⟨b₁, _, rfl, ⟨hlow, hhigh⟩, b₂, rfl, h₂, rfl⟩ := h
      have h₁ : Continues b₁ := by
        constructor <;> grind
      refine (encode_three hthree hfour h₁ h₂ ?_ ?_ rfl).symm
      · grind
      · unfold Nat.isValidChar; grind [Continues]
    rcases Nat.lt_or_ge b.toNat 0xf5 with hfive | hfive
    · simp only [Spells, lead_four hfour hfive, finishes_more, finishes_last, Nat.zero_add,
        UInt8.reduceToNat, apply_ite UInt8.toNat] at h
      obtain ⟨b₁, _, rfl, ⟨hlow, hhigh⟩, b₂, _, rfl, h₂, b₃, rfl, h₃, rfl⟩ := h
      have h₁ : Continues b₁ := by
        constructor <;> grind
      refine (encode_four hfour hfive h₁ h₂ h₃ ?_ ?_ rfl).symm
      · grind
      · unfold Nat.isValidChar; grind [Continues]
    · simp only [Spells, lead_illFormed (.inr hfive)] at h

theorem spells_utf8EncodeChar (c : Char) : Spells c (String.utf8EncodeChar c) := by
  obtain ⟨n, hvalid, rfl⟩ : ∃ n, n.isValidChar ∧ Char.ofNat n = c :=
    ⟨c.toNat, c.valid, c.ofNat_toNat⟩
  have hn : n < 0x110000 := by
    unfold Nat.isValidChar at hvalid
    omega
  have htoNat {m : Nat} (h : m < 256) : (UInt8.ofNat m).toNat = m := UInt8.toNat_ofNat_of_lt' h
  rw [utf8EncodeChar_ofNat hvalid]
  -- The cases are those of the encoder, from one byte to four.
  split
  next hone =>
    have hb := htoNat (m := n) (by omega)
    rw [Spells, lead_one (by omega), hb]
    exact ⟨rfl, rfl⟩
  next hone =>
    have hlast := htoNat (m := n % 64 + 0x80) (by omega)
    split
    next htwo =>
      have hb := htoNat (m := n / 64 % 32 + 0xc0) (by omega)
      rw [Spells, lead_two (by omega) (by omega)]
      simp only [finishes_last, UInt8.reduceToNat]
      refine ⟨_, rfl, by omega, ?_⟩
      rw [hb, hlast]
      exact congrArg Char.ofNat (by omega)
    next htwo =>
      split
      next hthree =>
        have hb := htoNat (m := n / 4096 % 16 + 0xe0) (by omega)
        have hb₁ := htoNat (m := n / 64 % 64 + 0x80) (by omega)
        rw [Spells, lead_three (by omega) (by omega)]
        simp only [finishes_more, finishes_last, Nat.zero_add, UInt8.reduceToNat,
          apply_ite UInt8.toNat]
        refine ⟨_, _, rfl, ?_, _, rfl, by omega, ?_⟩
        · unfold Nat.isValidChar at hvalid
          rw [hb, hb₁]
          grind
        · rw [hb, hb₁, hlast]
          exact congrArg Char.ofNat (by omega)
      next hthree =>
        have hb := htoNat (m := n / 262144 % 8 + 0xf0) (by omega)
        have hb₁ := htoNat (m := n / 4096 % 64 + 0x80) (by omega)
        have hb₂ := htoNat (m := n / 64 % 64 + 0x80) (by omega)
        rw [Spells, lead_four (by omega) (by omega)]
        simp only [finishes_more, finishes_last, Nat.zero_add, UInt8.reduceToNat,
          apply_ite UInt8.toNat]
        refine ⟨_, _, rfl, ?_, _, _, rfl, by omega, _, rfl, by omega, ?_⟩
        · rw [hb, hb₁]
          grind
        · rw [hb, hb₁, hb₂, hlast]
          exact congrArg Char.ofNat (by omega)

theorem piecesFrom_of_finishes {c : Char} {pending : Pending} {front : Bytes}
    (h : Finishes c pending front) (rest : Bytes) :
    piecesFrom (some pending) (front ++ rest) = some c :: piecesFrom none rest := by
  induction front generalizing pending with
  | nil => contradiction
  | cons b front ih =>
    obtain ⟨hlimits, hnext⟩ := h
    rw [List.cons_append, piecesFrom, step, extend?, if_pos hlimits]
    by_cases hmissing : pending.missing ≤ 1
    · rw [if_pos hmissing] at hnext
      obtain ⟨rfl, rfl⟩ := hnext
      simp [hmissing]
    · rw [if_neg hmissing] at hnext
      simp [hmissing, ih hnext]

theorem pieces_of_spells {c : Char} {front : Bytes} (h : Spells c front) (rest : Bytes) :
    pieces (front ++ rest) = some c :: pieces rest := by
  cases front with
  | nil => contradiction
  | cons b front =>
    rw [Spells] at h
    rw [pieces, List.cons_append, piecesFrom, step]
    unfold start
    cases hlead : lead b with
    | complete found =>
      rw [hlead] at h
      obtain ⟨rfl, rfl⟩ := h
      rfl
    | opens pending =>
      rw [hlead] at h
      exact piecesFrom_of_finishes h rest
    | illFormed => rw [hlead] at h; contradiction

/-- The pieces of an encoded text are its characters. -/
theorem pieces_encode (text : String) : pieces (encode text) = text.toList.map some := by
  unfold encode
  induction text.toList with
  | nil => rfl
  | cons c chars ih =>
    rw [List.flatMap_cons, pieces_of_spells (spells_utf8EncodeChar c), ih, List.map_cons]

theorem exists_finishes {pending : Pending} {bytes : Bytes}
    (h : none ∉ piecesFrom (some pending) bytes) :
    ∃ c front rest, Finishes c pending front ∧ bytes = front ++ rest := by
  induction bytes generalizing pending with
  | nil => simp [piecesFrom] at h
  | cons b bytes ih =>
    rw [piecesFrom, step, extend?] at h
    by_cases hlimits : pending.low ≤ b ∧ b ≤ pending.high
    · by_cases hmissing : pending.missing ≤ 1
      · exact ⟨_, [b], bytes, ⟨hlimits, by rw [if_pos hmissing]; exact ⟨rfl, rfl⟩⟩, rfl⟩
      · simp only [hlimits, hmissing, and_self, if_true, if_false, Option.getD_some,
          List.nil_append] at h
        obtain ⟨c, front, rest, hfinishes, rfl⟩ := ih h
        exact ⟨c, b :: front, rest, ⟨hlimits, by rwa [if_neg hmissing]⟩, rfl⟩
    · simp [hlimits] at h

theorem exists_spells {b : UInt8} {bytes : Bytes} (h : none ∉ pieces (b :: bytes)) :
    ∃ c front rest, Spells c front ∧ b :: bytes = front ++ rest := by
  rw [pieces, piecesFrom, step, start] at h
  cases hlead : lead b with
  | complete c => exact ⟨c, [b], bytes, by rw [Spells, hlead]; exact ⟨rfl, rfl⟩, rfl⟩
  | opens pending =>
    simp only [hlead, List.nil_append] at h
    obtain ⟨c, front, rest, hfinishes, rfl⟩ := exists_finishes h
    exact ⟨c, b :: front, rest, by rwa [Spells, hlead], rfl⟩
  | illFormed => simp [hlead] at h

theorem eq_flatMap_of_pieces {bytes : Bytes} {chars : List Char}
    (h : pieces bytes = chars.map some) : bytes = chars.flatMap String.utf8EncodeChar := by
  induction chars generalizing bytes with
  | nil =>
    cases bytes with
    | nil => rfl
    | cons b bytes =>
      have hnone : none ∉ pieces (b :: bytes) := by simp [h]
      obtain ⟨c, front, rest, hspells, hbytes⟩ := exists_spells hnone
      rw [hbytes, pieces_of_spells hspells] at h
      contradiction
  | cons c chars ih =>
    cases bytes with
    | nil => contradiction
    | cons b bytes =>
      have hnone : none ∉ pieces (b :: bytes) := by simp [h]
      obtain ⟨found, front, rest, hspells, hbytes⟩ := exists_spells hnone
      rw [hbytes, pieces_of_spells hspells, List.map_cons] at h
      obtain ⟨hfound, hrest⟩ := List.cons.inj h
      obtain rfl := Option.some.inj hfound
      rw [hbytes, List.flatMap_cons, ← ih hrest, ← eq_utf8EncodeChar_of_spells hspells]

theorem mapM_id_eq_some_iff (found : List Piece) (chars : List Char) :
    found.mapM id = some chars ↔ found = chars.map some := by
  induction found generalizing chars with
  | nil => cases chars <;> simp
  | cons piece found ih =>
    cases piece with
    | none => cases chars <;> simp
    | some c => cases chars <;> simp [Option.bind_eq_some_iff, ih]; grind

/-- Strict reading gives a text exactly for the bytes that encode it. -/
theorem decode?_eq_some_iff (bytes : Bytes) (text : String) :
    decode? bytes = some text ↔ bytes = encode text := by
  constructor
  · intro h
    obtain ⟨chars, hchars, rfl⟩ := Option.map_eq_some_iff.1 h
    rw [encode, String.toList_ofList]
    exact eq_flatMap_of_pieces ((mapM_id_eq_some_iff _ _).1 hchars)
  · rintro rfl
    have hchars := (mapM_id_eq_some_iff _ _).2 (pieces_encode text)
    rw [decode?, hchars, Option.map_some, String.ofList_toList]

def WellFormed (bytes : Bytes) : Prop :=
  ∃ text, bytes = encode text

theorem isSome_decode?_iff (bytes : Bytes) : (decode? bytes).isSome ↔ WellFormed bytes := by
  simp only [Option.isSome_iff_exists, decode?_eq_some_iff, WellFormed]

theorem isSome_mapM_id_iff (found : List Piece) : (found.mapM id).isSome ↔ none ∉ found := by
  induction found with
  | nil => simp
  | cons piece found ih => cases piece <;> simp [Option.isSome_bind, ih]

theorem wellFormed_iff (bytes : Bytes) : WellFormed bytes ↔ none ∉ pieces bytes := by
  rw [← isSome_decode?_iff, decode?, Option.isSome_map, isSome_mapM_id_iff]

/-- What a byte leaves pending is not gone on with by a single-byte character. -/
theorem low_of_start {b : UInt8} {pending : Pending} (h : (start b).2 = some pending) :
    0x80 ≤ pending.low := by
  unfold start lead at h
  grind

theorem low_of_step {before : Option Pending} {b : UInt8} {pending : Pending}
    (h : (step before b).2 = some pending) : 0x80 ≤ pending.low := by
  cases before with
  | none => exact low_of_start h
  | some before =>
    unfold step extend? at h
    have hstart := @low_of_start b pending
    grind

/-- A single-byte character is a piece wherever it stands, and the parts around it are read on
their own. -/
theorem piecesFrom_append_cons {b : UInt8} (hb : b < 0x80) (pending : Option Pending)
    (hlow : ∀ begun, pending = some begun → 0x80 ≤ begun.low) (front back : Bytes) :
    piecesFrom pending (front ++ b :: back) =
      piecesFrom pending front ++ some (Char.ofNat b.toNat) :: pieces back := by
  have hstart : start b = ([some (Char.ofNat b.toNat)], none) := by
    rw [start, lead_one (UInt8.lt_iff_toNat_lt.1 hb)]
  induction front generalizing pending with
  | nil =>
    cases pending with
    | none => simp [piecesFrom, step, hstart, pieces]
    | some begun =>
      have hbefore : ¬ begun.low ≤ b := UInt8.not_le.2 (UInt8.lt_of_lt_of_le hb (hlow begun rfl))
      simp [piecesFrom, step, extend?, hbefore, hstart, pieces]
  | cons first front ih =>
    rw [List.cons_append, piecesFrom, piecesFrom, ih _ fun begun h => low_of_step h]
    rw [List.append_assoc]

theorem pieces_append_cons {b : UInt8} (hb : b < 0x80) (front back : Bytes) :
    pieces (front ++ b :: back) = pieces front ++ some (Char.ofNat b.toNat) :: pieces back :=
  piecesFrom_append_cons hb none (fun _ h => nomatch h) front back

/-- Parts on both sides of a single-byte character are well formed on their own. -/
theorem wellFormed_append_cons_iff {b : UInt8} (hb : b < 0x80) (front back : Bytes) :
    WellFormed (front ++ b :: back) ↔ WellFormed front ∧ WellFormed back := by
  simp [wellFormed_iff, pieces_append_cons hb]

end ClassMachine.Utf8
