import ClassMachine.Number.Encoding
import Mathlib.Algebra.Order.Field.Power
import Mathlib.Algebra.Order.Ring.Rat
import Mathlib.Data.Nat.Cast.Order.Field
import Mathlib.Tactic.Linarith
import Mathlib.Tactic.Ring

/-!
# Numbers that a format can represent

A format represents the magnitudes `m * 2 ^ e` with a significand and an exponent in its range. Each
of them is written in one way, with the leading one of the significand as far up as the range allows.
Rounding such a magnitude gives the number that is written so: nothing is lost, and the product of
two numbers is exact whenever the format represents it.
-/

namespace ClassMachine.Format

/-- A magnitude that needs no more bits than the precision, with its exponent in range. -/
def Represents (format : Format) (q : ℚ) : Prop :=
  ∃ (significand : ℕ) (exponent : ℤ), significand < 2 ^ format.precision ∧
    format.lowestExponent ≤ exponent ∧ exponent ≤ format.highestExponent ∧
    q = significand * 2 ^ exponent

/-- The significand is as large as the range of the exponent allows. -/
structure Canonical (format : Format) (significand : ℕ) (exponent : ℤ) : Prop where
  lt : significand < 2 ^ format.precision
  lowest_le : format.lowestExponent ≤ exponent
  le_highest : exponent ≤ format.highestExponent
  leading : 2 ^ format.fractionBits ≤ significand ∨ exponent = format.lowestExponent

def Writes (format : Format) (x : Number) (negative : Bool) (q : ℚ) : Prop :=
  ∃ significand exponent, x = .finite negative significand exponent ∧
    format.Canonical significand exponent ∧ q = significand * 2 ^ exponent

section powers

theorem two_zpow_pos (e : ℤ) : (0 : ℚ) < 2 ^ e :=
  zpow_pos two_pos e

theorem two_zpow_lt_iff {e f : ℤ} : (2 : ℚ) ^ e < 2 ^ f ↔ e < f :=
  zpow_lt_zpow_iff_right₀ one_lt_two

theorem two_zpow_add (e f : ℤ) : (2 : ℚ) ^ (e + f) = 2 ^ e * 2 ^ f :=
  zpow_add₀ two_ne_zero e f

theorem cast_two_pow (k : ℕ) : ((2 ^ k : ℕ) : ℚ) = 2 ^ (k : ℤ) := by
  rw [Nat.cast_pow, zpow_natCast]
  rfl

theorem mul_two_zpow (m : ℕ) {e f : ℤ} (h : f ≤ e) :
    (m : ℚ) * 2 ^ e = ((m * 2 ^ (e - f).toNat : ℕ) : ℚ) * 2 ^ f := by
  have hsum : e = ((e - f).toNat : ℤ) + f := by omega
  rw [Nat.cast_mul, cast_two_pow, mul_assoc, ← two_zpow_add, ← hsum]

theorem mul_two_zpow_lt_iff {m k : ℕ} {e : ℤ} : (m : ℚ) * 2 ^ e < 2 ^ (e + k) ↔ m < 2 ^ k := by
  rw [add_comm, two_zpow_add, ← cast_two_pow, mul_lt_mul_iff_left₀ (two_zpow_pos e), Nat.cast_lt]

theorem mul_two_zpow_inj {m n : ℕ} {e : ℤ} : (m : ℚ) * 2 ^ e = n * 2 ^ e ↔ m = n := by
  rw [mul_left_inj' (two_zpow_pos e).ne', Nat.cast_inj]

theorem mul_two_zpow_lt_log2 (m : ℕ) (e : ℤ) : (m : ℚ) * 2 ^ e < 2 ^ (e + m.log2 + 1) := by
  have h : m < 2 ^ (m.log2 + 1) := Nat.lt_log2_self
  rw [add_assoc]
  exact mul_two_zpow_lt_iff.2 h

theorem two_zpow_log2_le {m : ℕ} (hm : m ≠ 0) (e : ℤ) : (2 : ℚ) ^ (e + m.log2) ≤ m * 2 ^ e :=
  not_lt.1 fun h => absurd (mul_two_zpow_lt_iff.1 h) (Nat.log2_self_le hm).not_gt

end powers

variable {format : Format}

theorem Canonical.represents {significand : ℕ} {exponent : ℤ}
    (h : format.Canonical significand exponent) :
    format.Represents (significand * 2 ^ exponent) :=
  ⟨significand, exponent, h.lt, h.lowest_le, h.le_highest, rfl⟩

theorem canonical_zero (format : Format) (h : format.lowestExponent ≤ format.highestExponent) :
    format.Canonical 0 format.lowestExponent :=
  ⟨Nat.two_pow_pos _, le_refl _, h, .inr rfl⟩

theorem finish_of_canonical {significand : ℕ} {exponent : ℤ}
    (h : format.Canonical significand exponent) (negative : Bool) :
    format.finish negative significand exponent = .finite negative significand exponent := by
  have hcarried : decide (significand = Nat.pow 2 format.precision) = false :=
    decide_eq_false (Nat.ne_of_lt h.lt)
  simp only [finish, hcarried, Bool.false_eq_true, if_false]
  rw [if_neg (not_lt.2 h.le_highest)]

/-- The exponent that rounding aims at leaves room for the leading one and for nothing above it. -/
theorem canonical_target {significand : ℕ} (hzero : significand ≠ 0) {exponent : ℤ}
    (h : format.Represents (significand * 2 ^ exponent)) :
    ∃ m, format.Canonical m
        (max (exponent + significand.log2 + 1 - format.precision) format.lowestExponent) ∧
      (significand : ℚ) * 2 ^ exponent =
        m * 2 ^ max (exponent + significand.log2 + 1 - format.precision) format.lowestExponent := by
  obtain ⟨n, f, hn, hlowest, hhighest, hvalue⟩ := h
  generalize htarget :
    max (exponent + significand.log2 + 1 - format.precision) format.lowestExponent = target
  have hlow := two_zpow_log2_le hzero exponent
  have hhigh := mul_two_zpow_lt_log2 significand exponent
  have hroom : exponent + significand.log2 < f + format.precision := by
    rw [← two_zpow_lt_iff]
    exact lt_of_le_of_lt (hvalue ▸ hlow) (mul_two_zpow_lt_iff.2 hn)
  have hle : target ≤ f := by omega
  have hsame := hvalue.trans (mul_two_zpow n hle)
  generalize n * 2 ^ (f - target).toNat = m at hsame
  rw [hsame] at hlow hhigh
  have hbound : exponent + significand.log2 + 1 ≤ target + format.precision := by omega
  have hlt : m < 2 ^ format.precision :=
    mul_two_zpow_lt_iff.1 (hhigh.trans_le (zpow_le_zpow_right₀ one_le_two hbound))
  refine ⟨m, ⟨hlt, by omega, by omega, or_iff_not_imp_right.2 fun hne => ?_⟩, hsame⟩
  by_contra hsmall
  -- Without a leading one the product would not reach the power of two that it is known to reach.
  have hpositive : format.precision ≠ 0 := by
    intro hprecision
    rw [hprecision] at hlt
    have hnone : m = 0 := Nat.lt_one_iff.1 hlt
    rw [hnone, Nat.cast_zero, zero_mul] at hlow
    exact hlow.not_gt (two_zpow_pos _)
  have hexponent : target + format.fractionBits = exponent + significand.log2 := by
    simp only [fractionBits]
    omega
  rw [← hexponent] at hlow
  exact hlow.not_gt (mul_two_zpow_lt_iff.2 (not_le.1 hsmall))

/-- A magnitude that the format represents is not changed by rounding. -/
theorem writes_round (negative : Bool) {significand : ℕ} {exponent : ℤ}
    (h : format.Represents (significand * 2 ^ exponent)) :
    format.Writes (format.round negative significand exponent) negative
      (significand * 2 ^ exponent) := by
  by_cases hzero : significand = 0
  · obtain ⟨n, f, -, hlowest, hhighest, -⟩ := h
    refine ⟨0, format.lowestExponent, ?_,
      format.canonical_zero (hlowest.trans hhighest), by simp [hzero]⟩
    rw [round, if_pos hzero]
  · obtain ⟨m, hcanonical, hsame⟩ := canonical_target hzero h
    refine ⟨m, _, ?_, hcanonical, hsame⟩
    simp only [round, if_neg hzero]
    generalize max (exponent + significand.log2 + 1 - format.precision) format.lowestExponent =
      target at hcanonical hsame ⊢
    split
    next hle =>
      rw [mul_two_zpow significand hle, mul_two_zpow_inj] at hsame
      rw [show significand * Nat.pow 2 (exponent - target).toNat = m from hsame]
      exact finish_of_canonical hcanonical negative
    next hgt =>
      rw [mul_two_zpow m (not_le.1 hgt).le, mul_two_zpow_inj] at hsame
      rw [hsame, show Nat.pow 2 (target - exponent).toNat = 2 ^ (target - exponent).toNat from rfl,
        divideToEven_mul _ _ (Nat.two_pow_pos _)]
      exact finish_of_canonical hcanonical negative

/-- The product of two numbers is exact if the format represents it. -/
theorem Writes.multiply {x y : Number} {s t : Bool} {a b : ℚ} (hx : format.Writes x s a)
    (hy : format.Writes y t b) (h : format.Represents (a * b)) :
    format.Writes (format.multiply x y) (s != t) (a * b) := by
  obtain ⟨m, e, rfl, -, rfl⟩ := hx
  obtain ⟨n, f, rfl, -, rfl⟩ := hy
  have hproduct : (m : ℚ) * 2 ^ e * (n * 2 ^ f) = ((m * n : ℕ) : ℚ) * 2 ^ (e + f) := by
    rw [Nat.cast_mul, two_zpow_add]
    ring
  rw [hproduct] at h ⊢
  exact writes_round (s != t) h

theorem Writes.convert {other : Format} {x : Number} {s : Bool} {q : ℚ} (hx : other.Writes x s q)
    (h : format.Represents q) : format.Writes (format.convert x) s q := by
  obtain ⟨m, e, rfl, -, rfl⟩ := hx
  exact writes_round s h

theorem writes_powerOfTwo {exponent : ℤ} (h : format.Represents (2 ^ exponent)) :
    format.Writes (format.powerOfTwo exponent) false (2 ^ exponent) := by
  have hone : ((1 : ℕ) : ℚ) * 2 ^ exponent = 2 ^ exponent := by rw [Nat.cast_one, one_mul]
  rw [← hone] at h ⊢
  exact writes_round false h

/-- With a higher exponent the leading one would be beyond the precision at the lower one. -/
theorem Canonical.exponent_le {m n : ℕ} {e f : ℤ} (hm : format.Canonical m e)
    (hn : format.Canonical n f) (h : (m : ℚ) * 2 ^ e = n * 2 ^ f) : f ≤ e := by
  by_contra hgt
  have hlt : e < f := not_le.1 hgt
  have hleading : 2 ^ format.fractionBits ≤ n :=
    hn.leading.resolve_right (hm.lowest_le.trans_lt hlt).ne'
  rw [mul_two_zpow n hlt.le, mul_two_zpow_inj] at h
  have hbits : format.precision ≤ format.fractionBits + (f - e).toNat := by
    simp only [fractionBits]
    omega
  have hlarge : 2 ^ format.precision ≤ m :=
    calc 2 ^ format.precision ≤ 2 ^ (format.fractionBits + (f - e).toNat) :=
          Nat.pow_le_pow_right two_pos hbits
      _ = 2 ^ format.fractionBits * 2 ^ (f - e).toNat := pow_add ..
      _ ≤ n * 2 ^ (f - e).toNat := Nat.mul_le_mul_right _ hleading
      _ = m := h.symm
  exact hlarge.not_gt hm.lt

/-- Each magnitude is written in one way only. -/
theorem Canonical.unique {m n : ℕ} {e f : ℤ} (hm : format.Canonical m e)
    (hn : format.Canonical n f) (h : (m : ℚ) * 2 ^ e = n * 2 ^ f) : m = n ∧ e = f := by
  obtain rfl := le_antisymm (hn.exponent_le hm h.symm) (hm.exponent_le hn h)
  exact ⟨mul_two_zpow_inj.1 h, rfl⟩

theorem Writes.unique {x y : Number} {s : Bool} {q : ℚ} (hx : format.Writes x s q)
    (hy : format.Writes y s q) : x = y := by
  obtain ⟨m, e, rfl, hm, hvalue⟩ := hx
  obtain ⟨n, f, rfl, hn, hother⟩ := hy
  obtain ⟨rfl, rfl⟩ := hm.unique hn (hvalue.symm.trans hother)
  rfl

end ClassMachine.Format
