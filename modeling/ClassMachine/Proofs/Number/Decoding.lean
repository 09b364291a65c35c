import ClassMachine.Proofs.Number.Representation
import Mathlib.Tactic.FieldSimp

/-!
# Bit patterns are read exactly

The significand of a pattern is a whole number, which is multiplied by two powers of two and then by
its sign, all in the double format. The exponent is halved first, so that neither product leaves the
range: each is represented by the format, also for the least and the greatest numbers, and hence
nothing is rounded on the way. So what is read has the sign and the magnitude that the standard gives
to the pattern, and it is written as the same pattern again.
-/

namespace ClassMachine.Format

variable (format : Format)

/-- The magnitude that the standard gives to a pattern of a finite number. With a field of zero the
fraction stands behind a zero, else behind a one. -/
def magnitude (bits : ℕ) : ℚ :=
  if format.fieldOf bits = 0 then
    format.fractionOf bits / 2 ^ format.fractionBits * 2 ^ (1 - format.bias : ℤ)
  else
    (1 + format.fractionOf bits / 2 ^ format.fractionBits) *
      2 ^ (format.fieldOf bits - format.bias : ℤ)

def scaleExponent (bits : ℕ) : ℤ :=
  format.fieldOf bits - (format.bias + format.fractionBits : ℕ)

def significandOf (bits : ℕ) : ℕ :=
  format.integralSignificand (format.fieldOf bits) (format.fractionOf bits)

def writtenSignificand (bits : ℕ) : ℕ :=
  if format.fieldOf bits = 0 then format.fractionOf bits
  else 2 ^ format.fractionBits + format.fractionOf bits

def writtenExponent (bits : ℕ) : ℤ :=
  if format.fieldOf bits = 0 then format.lowestExponent else format.scaleExponent bits

/-- Each step of the scaling has a result that the double format represents, and has it exactly. -/
structure ScalesExactly (significand : ℕ) (exponent : ℤ) : Prop where
  whole : double.Represents significand
  halfPower : double.Represents (2 ^ exponent.tdiv 2)
  otherPower : double.Represents (2 ^ (exponent - exponent.tdiv 2))
  halfway : double.Represents (significand * 2 ^ exponent.tdiv 2)
  product : double.Represents (significand * 2 ^ exponent.tdiv 2 * 2 ^ (exponent - exponent.tdiv 2))
  writes_whole : double.Writes (double.round false significand 0) false significand
  writes_halfway : double.Writes
    (double.multiply (double.round false significand 0) (double.powerOfTwo (exponent.tdiv 2))) false
    (significand * 2 ^ exponent.tdiv 2)
  writes_scale : double.Writes (scale significand exponent) false (significand * 2 ^ exponent)

/-- The format has a sign and a field, and its numbers are among the double ones. -/
structure WithinDouble : Prop where
  precision_pos : 0 < format.precision
  exponentBits_gt : 1 < format.exponentBits
  precision_le : format.precision ≤ double.precision
  lowest_le : double.lowestExponent ≤ format.lowestExponent
  highest_le : format.highestExponent ≤ double.highestExponent

theorem withinDouble_double : double.WithinDouble :=
  ⟨by decide, by decide, le_refl _, le_refl _, le_refl _⟩

theorem withinDouble_single : single.WithinDouble :=
  ⟨by decide, by decide, by decide, by decide, by decide⟩

section scaling

theorem double_represents {significand : ℕ} (h : significand < 2 ^ 53) {exponent : ℤ}
    (hlow : -1074 ≤ exponent) (hhigh : exponent ≤ 971) :
    double.Represents (significand * 2 ^ exponent) :=
  ⟨significand, exponent, h, hlow, hhigh, rfl⟩

theorem tdiv_two_bounds (exponent : ℤ) :
    exponent - 1 ≤ 2 * exponent.tdiv 2 ∧ 2 * exponent.tdiv 2 ≤ exponent + 1 := by
  have hsum := Int.mul_tdiv_add_tmod exponent 2
  have hlt := Int.tmod_lt_of_pos exponent two_pos
  have hgt := Int.lt_tmod_of_pos exponent two_pos
  omega

theorem two_zpow_halves (exponent : ℤ) :
    (2 : ℚ) ^ exponent.tdiv 2 * 2 ^ (exponent - exponent.tdiv 2) = 2 ^ exponent := by
  rw [← two_zpow_add, add_sub_cancel]

/-- Half of the exponent is far from the ends of the range, so that all depends on the product. -/
theorem scalesExactly {significand : ℕ} (h : significand < 2 ^ 53) {exponent : ℤ}
    (hlow : -1075 ≤ exponent) (hhigh : exponent ≤ 971)
    (hproduct : double.Represents (significand * 2 ^ exponent)) :
    ScalesExactly significand exponent := by
  obtain ⟨hle, hge⟩ := tdiv_two_bounds exponent
  have hpower {e : ℤ} (hlowest : -1074 ≤ e) (hhighest : e ≤ 971) : double.Represents (2 ^ e) := by
    have hone := double_represents (show 1 < 2 ^ 53 by decide) hlowest hhighest
    rwa [Nat.cast_one, one_mul] at hone
  have hhalfPower : double.Represents (2 ^ exponent.tdiv 2) := hpower (by omega) (by omega)
  have hotherPower : double.Represents (2 ^ (exponent - exponent.tdiv 2)) :=
    hpower (by omega) (by omega)
  have hwhole : double.Represents (significand * 2 ^ (0 : ℤ)) :=
    double_represents h (by decide) (by decide)
  have hhalfway : double.Represents (significand * 2 ^ exponent.tdiv 2) :=
    double_represents h (by omega) (by omega)
  rw [← two_zpow_halves, ← mul_assoc] at hproduct
  have writes_whole := writes_round false hwhole
  rw [zpow_zero, mul_one] at hwhole writes_whole
  have writes_halfway := writes_whole.multiply (writes_powerOfTwo hhalfPower) hhalfway
  have writes_scale := writes_halfway.multiply (writes_powerOfTwo hotherPower) hproduct
  rw [mul_assoc _ _ (2 ^ _), two_zpow_halves] at writes_scale
  exact ⟨hwhole, hhalfPower, hotherPower, hhalfway, hproduct, writes_whole, writes_halfway,
    writes_scale⟩

end scaling

section patterns

variable {format : Format} (bits : ℕ)

theorem fractionOf_lt : format.fractionOf bits < 2 ^ format.fractionBits :=
  Nat.mod_lt _ (Nat.two_pow_pos _)

theorem fieldOf_lt : format.fieldOf bits < 2 ^ format.exponentBits :=
  Nat.mod_lt _ (Nat.two_pow_pos _)

theorem specialField_eq (h : format.WithinDouble) : format.specialField = 2 * format.bias + 1 := by
  have hpower : Nat.pow 2 format.exponentBits = 2 * Nat.pow 2 (format.exponentBits - 1) := by
    rw [Nat.mul_comm]
    exact (Nat.two_pow_pred_mul_two (Nat.zero_lt_of_lt h.exponentBits_gt)).symm
  have hpos : 0 < Nat.pow 2 (format.exponentBits - 1) := Nat.two_pow_pos _
  rw [specialField, bias, hpower]
  omega

theorem fieldOf_le (h : format.WithinDouble)
    (hfinite : format.fieldOf bits ≠ format.specialField) :
    format.fieldOf bits ≤ 2 * format.bias := by
  have hlt := format.fieldOf_lt bits
  have hpower : Nat.pow 2 format.exponentBits = 2 ^ format.exponentBits := rfl
  have hspecial := specialField_eq h
  have hsub : format.specialField = Nat.pow 2 format.exponentBits - 1 := rfl
  omega

theorem two_pow_precision (h : format.WithinDouble) :
    2 ^ format.precision = 2 * 2 ^ format.fractionBits := by
  rw [Nat.mul_comm]
  exact (Nat.two_pow_pred_mul_two h.precision_pos).symm

theorem bias_pos (h : format.WithinDouble) : 0 < format.bias := by
  have hpower : 2 ^ 1 ≤ 2 ^ (format.exponentBits - 1) :=
    Nat.pow_le_pow_right two_pos (Nat.le_sub_one_of_lt h.exponentBits_gt)
  exact Nat.sub_pos_of_lt hpower

theorem width_eq (h : format.WithinDouble) :
    format.width = format.fractionBits + format.exponentBits + 1 := by
  have := h.precision_pos
  simp only [width, fractionBits]
  omega

/-- What stands above the fraction and the field. -/
def upperPart (format : Format) (bits : ℕ) : ℕ :=
  bits / 2 ^ (format.fractionBits + format.exponentBits)

theorem upperPart_add (format : Format) (bits : ℕ) :
    format.upperPart bits * 2 ^ (format.fractionBits + format.exponentBits) +
      format.fieldOf bits * 2 ^ format.fractionBits + format.fractionOf bits = bits := by
  have hfield : 2 ^ format.exponentBits *
      (bits / 2 ^ format.fractionBits / 2 ^ format.exponentBits) + format.fieldOf bits =
        bits / 2 ^ format.fractionBits := Nat.div_add_mod ..
  have hfraction : 2 ^ format.fractionBits * (bits / 2 ^ format.fractionBits) +
      format.fractionOf bits = bits := Nat.div_add_mod ..
  rw [← hfield, Nat.div_div_eq_div_mul, ← pow_add] at hfraction
  rw [← upperPart] at hfraction
  calc _ = 2 ^ format.fractionBits * (2 ^ format.exponentBits * format.upperPart bits +
        format.fieldOf bits) + format.fractionOf bits := by rw [pow_add]; ring
    _ = bits := hfraction

theorem isNegative_eq (h : format.WithinDouble) :
    format.isNegative bits = (format.upperPart bits % 2 != 0) := by
  rw [isNegative, width_eq h, Nat.add_sub_cancel]
  rfl

theorem pack_parts (h : format.WithinDouble) (hbits : bits < 2 ^ format.width) :
    format.pack (format.isNegative bits) (format.fieldOf bits) (format.fractionOf bits) = bits := by
  have hupper : format.upperPart bits < 2 := by
    rw [width_eq h, Nat.pow_succ] at hbits
    exact Nat.div_lt_of_lt_mul hbits
  have hsum := format.upperPart_add bits
  rw [pack, width_eq h, Nat.add_sub_cancel, isNegative_eq bits h]
  obtain hzero | hone : format.upperPart bits = 0 ∨ format.upperPart bits = 1 := by omega
  · rw [hzero, Nat.zero_mul] at hsum
    rw [hzero]
    exact hsum
  · rw [hone, Nat.one_mul] at hsum
    rw [hone]
    exact hsum

/-- The number is written with its leading one as far up as it may be. -/
theorem canonical_written (h : format.WithinDouble)
    (hfinite : format.fieldOf bits ≠ format.specialField) :
    format.Canonical (format.writtenSignificand bits) (format.writtenExponent bits) := by
  have hfraction := format.fractionOf_lt bits
  have hfield := fieldOf_le bits h hfinite
  have hprecision := two_pow_precision h
  have hbias := bias_pos h
  have hlowest : format.lowestExponent = 1 - (format.bias + format.fractionBits : ℕ) := rfl
  have hhighest : format.highestExponent = format.bias - format.fractionBits := rfl
  simp only [writtenSignificand, writtenExponent, scaleExponent]
  split
  next hzero => exact ⟨by omega, le_refl _, by omega, .inr rfl⟩
  next hzero => exact ⟨by omega, by omega, by omega, .inl (Nat.le_add_right _ _)⟩

theorem div_two_pow_mul (a : ℚ) (k : ℕ) (e : ℤ) : a / 2 ^ k * 2 ^ e = a * 2 ^ (e - k) := by
  rw [zpow_sub₀ two_ne_zero, zpow_natCast]
  ring

theorem magnitude_eq_written :
    format.magnitude bits = format.writtenSignificand bits * 2 ^ format.writtenExponent bits := by
  have hlowest : format.lowestExponent = 1 - format.bias - format.fractionBits := by
    rw [lowestExponent, Nat.cast_add, sub_sub]
  simp only [magnitude, writtenSignificand, writtenExponent, scaleExponent]
  split
  next hzero => rw [div_two_pow_mul, hlowest]
  next hzero =>
    have hone : 1 + (format.fractionOf bits : ℚ) / 2 ^ format.fractionBits =
        (2 ^ format.fractionBits + format.fractionOf bits) / 2 ^ format.fractionBits := by
      field_simp
    rw [hone, div_two_pow_mul, Nat.cast_add, Nat.cast_add, Nat.cast_pow, sub_sub]
    rfl

theorem magnitude_eq_scaled :
    format.magnitude bits = format.significandOf bits * 2 ^ format.scaleExponent bits := by
  rw [magnitude_eq_written]
  simp only [writtenSignificand, writtenExponent, significandOf, integralSignificand]
  split
  next hzero =>
    have hexponent : format.lowestExponent = 1 + format.scaleExponent bits := by
      rw [scaleExponent, hzero, lowestExponent]
      omega
    rw [hexponent, two_zpow_add, zpow_one, Nat.cast_mul]
    ring
  next => rfl

end patterns

section decoding

variable {format : Format} (bits : ℕ)

theorem WithinDouble.represents (h : format.WithinDouble) {q : ℚ} (hq : format.Represents q) :
    double.Represents q := by
  obtain ⟨m, e, hm, hlowest, hhighest, rfl⟩ := hq
  exact ⟨m, e, hm.trans_le (Nat.pow_le_pow_right two_pos h.precision_le),
    h.lowest_le.trans hlowest, hhighest.trans h.highest_le, rfl⟩

theorem represents_magnitude (h : format.WithinDouble)
    (hfinite : format.fieldOf bits ≠ format.specialField) :
    format.Represents (format.magnitude bits) :=
  format.magnitude_eq_written bits ▸ (canonical_written bits h hfinite).represents

theorem significandOf_lt (h : format.WithinDouble) :
    format.significandOf bits < 2 ^ format.precision := by
  have hfraction := format.fractionOf_lt bits
  rw [two_pow_precision h, significandOf, integralSignificand]
  have hpower : Nat.pow 2 format.fractionBits = 2 ^ format.fractionBits := rfl
  split <;> omega

theorem scalesExactly_pattern (h : format.WithinDouble)
    (hfinite : format.fieldOf bits ≠ format.specialField) :
    ScalesExactly (format.significandOf bits) (format.scaleExponent bits) := by
  have hfield := fieldOf_le bits h hfinite
  have hlowest : -1074 ≤ 1 - ((format.bias + format.fractionBits : ℕ) : ℤ) := h.lowest_le
  have hhighest : (format.bias : ℤ) - format.fractionBits ≤ 971 := h.highest_le
  have hproduct := h.represents (represents_magnitude bits h hfinite)
  rw [magnitude_eq_scaled] at hproduct
  refine scalesExactly ?_ ?_ ?_ hproduct
  · exact (significandOf_lt bits h).trans_le (Nat.pow_le_pow_right two_pos h.precision_le)
  · rw [scaleExponent]
    omega
  · rw [scaleExponent]
    omega

theorem writes_signOne (negative : Bool) : double.Writes (signOne negative) negative 1 := by
  have hone : double.Represents ((1 : ℕ) * 2 ^ (0 : ℤ)) :=
    double_represents (by decide) (by decide) (by decide)
  have hwrites := writes_round negative hone
  rwa [Nat.cast_one, one_mul, zpow_zero] at hwrites

/-- The sign is put in front by an exact product, and zero has it too. -/
theorem writes_signed (h : format.WithinDouble)
    (hfinite : format.fieldOf bits ≠ format.specialField) :
    double.Writes
      (double.multiply (signOne (format.isNegative bits))
        (scale (format.significandOf bits) (format.scaleExponent bits)))
      (format.isNegative bits) (format.magnitude bits) := by
  have hscale := (scalesExactly_pattern bits h hfinite).writes_scale
  rw [← magnitude_eq_scaled] at hscale
  have hmagnitude := h.represents (represents_magnitude bits h hfinite)
  rw [← one_mul (format.magnitude bits)] at hmagnitude
  have hsigned := (writes_signOne (format.isNegative bits)).multiply hscale hmagnitude
  rwa [one_mul, Bool.bne_false] at hsigned

theorem writes_decode (h : format.WithinDouble)
    (hfinite : format.fieldOf bits ≠ format.specialField) :
    format.Writes (format.decode bits) (format.isNegative bits) (format.magnitude bits) := by
  have hdecode : format.decode bits = format.convert
      (double.multiply (signOne (format.isNegative bits))
        (scale (format.significandOf bits) (format.scaleExponent bits))) := by
    rw [decode, if_neg hfinite]
    rfl
  rw [hdecode]
  exact (writes_signed bits h hfinite).convert (represents_magnitude bits h hfinite)

theorem decode_eq_finite (h : format.WithinDouble)
    (hfinite : format.fieldOf bits ≠ format.specialField) :
    format.decode bits = .finite (format.isNegative bits) (format.writtenSignificand bits)
      (format.writtenExponent bits) :=
  (writes_decode bits h hfinite).unique
    ⟨_, _, rfl, canonical_written bits h hfinite, format.magnitude_eq_written bits⟩

theorem decode_eq_infinite (hspecial : format.fieldOf bits = format.specialField)
    (hfraction : format.fractionOf bits = 0) :
    format.decode bits = .infinite (format.isNegative bits) := by
  rw [decode, if_pos hspecial, if_pos hfraction]

theorem decode_eq_nan (hspecial : format.fieldOf bits = format.specialField)
    (hfraction : format.fractionOf bits ≠ 0) : format.decode bits = .nan := by
  rw [decode, if_pos hspecial, if_neg hfraction]

theorem encode_finite_parts (negative : Bool) :
    format.encode (.finite negative (format.writtenSignificand bits)
      (format.writtenExponent bits)) =
        format.pack negative (format.fieldOf bits) (format.fractionOf bits) := by
  have hpower : Nat.pow 2 format.fractionBits = 2 ^ format.fractionBits := rfl
  have hfraction := format.fractionOf_lt bits
  rw [encode, writtenSignificand, writtenExponent, hpower]
  by_cases hzero : format.fieldOf bits = 0
  · rw [if_pos hzero, if_pos hfraction, hzero]
  · have hfield : (format.scaleExponent bits - format.lowestExponent + 1).toNat =
        format.fieldOf bits := by
      rw [scaleExponent, lowestExponent]
      omega
    rw [if_neg hzero, if_neg hzero, if_neg (by omega), hfield, Nat.add_sub_cancel_left]

/-- The number that the standard gives to a pattern. -/
def Denotes (format : Format) (bits : ℕ) (x : Number) : Prop :=
  if format.fieldOf bits = format.specialField then
    x = if format.fractionOf bits = 0 then .infinite (format.isNegative bits) else .nan
  else format.Writes x (format.isNegative bits) (format.magnitude bits)

theorem denotes_iff (h : format.WithinDouble) {x : Number} :
    format.Denotes bits x ↔ x = format.decode bits := by
  unfold Denotes
  split
  next hspecial => rw [decode, if_pos hspecial]
  next hfinite =>
    have hdecode := writes_decode bits h hfinite
    constructor
    · intro hx
      exact hx.unique hdecode
    · rintro rfl
      exact hdecode

/-- What has been read is written as the same pattern again, unless it is not a number. -/
theorem encode_decode (h : format.WithinDouble) (hbits : bits < 2 ^ format.width)
    (hnumber : format.decode bits ≠ .nan) : format.encode (format.decode bits) = bits := by
  by_cases hspecial : format.fieldOf bits = format.specialField
  · have hfraction : format.fractionOf bits = 0 := by
      by_contra hne
      exact hnumber (decode_eq_nan bits hspecial hne)
    have hparts := pack_parts bits h hbits
    rw [hspecial, hfraction] at hparts
    rw [decode_eq_infinite bits hspecial hfraction]
    exact hparts
  · rw [decode_eq_finite bits h hspecial, encode_finite_parts]
    exact pack_parts bits h hbits

/-- The pattern is read without rounding. Its parts make it up; if it is finite then every step has
an exact result in the double format, and the number that is read has the sign of the pattern and
the magnitude that the standard gives to it. It is written as the same pattern again. -/
structure DecodesExactly (format : Format) (bits : ℕ) : Prop where
  fraction_lt : format.fractionOf bits < 2 ^ format.fractionBits
  field_lt : format.fieldOf bits < 2 ^ format.exponentBits
  parts : format.pack (format.isNegative bits) (format.fieldOf bits) (format.fractionOf bits) = bits
  scaling : format.fieldOf bits ≠ format.specialField →
    ScalesExactly (format.significandOf bits) (format.scaleExponent bits)
  signing : format.fieldOf bits ≠ format.specialField →
    double.Writes
      (double.multiply (signOne (format.isNegative bits))
        (scale (format.significandOf bits) (format.scaleExponent bits)))
      (format.isNegative bits) (format.magnitude bits)
  finite : format.fieldOf bits ≠ format.specialField →
    format.Writes (format.decode bits) (format.isNegative bits) (format.magnitude bits)
  infinite : format.fieldOf bits = format.specialField → format.fractionOf bits = 0 →
    format.decode bits = .infinite (format.isNegative bits)
  nan : format.fieldOf bits = format.specialField → format.fractionOf bits ≠ 0 →
    format.decode bits = .nan
  encode : format.decode bits ≠ .nan → format.encode (format.decode bits) = bits

theorem WithinDouble.decodesExactly (h : format.WithinDouble) (hbits : bits < 2 ^ format.width) :
    format.DecodesExactly bits where
  fraction_lt := format.fractionOf_lt bits
  field_lt := format.fieldOf_lt bits
  parts := pack_parts bits h hbits
  scaling := scalesExactly_pattern bits h
  signing := writes_signed bits h
  finite := writes_decode bits h
  infinite := decode_eq_infinite bits
  nan := decode_eq_nan bits
  encode := encode_decode bits h hbits

/-- All patterns of both formats are read exactly. -/
theorem patterns_decodeExactly :
    (∀ bits : UInt64, double.DecodesExactly bits.toNat) ∧
      ∀ bits : UInt32, single.DecodesExactly bits.toNat :=
  ⟨fun bits => withinDouble_double.decodesExactly bits.toNat bits.toNat_lt,
    fun bits => withinDouble_single.decodesExactly bits.toNat bits.toNat_lt⟩

/-- The negative number next to zero. -/
example : double.decode 0x8000000000000001 = .finite true 1 (-1074) := by
  decide +kernel

end decoding

end ClassMachine.Format
