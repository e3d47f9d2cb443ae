import Mathlib.Algebra.Ring.Nat
import Pluck.Binary64.Shortest

/-!
# Rounding and reading back

`nearestCode` depends only on the ratio of its arguments (`nearestCode_eq_of_mul_eq`), and it gives back a code from the
magnitude that belongs to it (`nearestCode_magnitude`). The decimal numbers that are far from every finite number need
no rounding, and settling them beforehand changes nothing: `ofDecimal?_eq`. So the decimal number that `shortest` finds
for a code is rounded to this code again (`code_shortest`), and it may be divided into digits and an exponent in any way
(`Decimal.code_shift`).
-/

namespace Pluck

namespace Binary64

/-! ### The nearest integer -/

theorem roundHalfEven_mul {k : Nat} (hk : 0 < k) (n d : Nat) : roundHalfEven (k * n) (k * d) = roundHalfEven n d := by
  have hlt : 2 * (k * (n % d)) < k * d ↔ 2 * (n % d) < d := by
    rw [Nat.mul_left_comm, Nat.mul_lt_mul_left hk]
  have heq : 2 * (k * (n % d)) = k * d ↔ 2 * (n % d) = d := by
    rw [Nat.mul_left_comm, Nat.mul_right_inj (Nat.ne_of_gt hk)]
  simp only [roundHalfEven, Nat.mul_div_mul_left n d hk, Nat.mul_mod_mul_left, hlt, heq]

theorem roundHalfEven_mul_self {d : Nat} (hd : 0 < d) (q : Nat) : roundHalfEven (d * q) d = q := by
  simp [roundHalfEven, Nat.mul_div_cancel_left q hd, hd]

theorem roundHalfEven_le (n d : Nat) : roundHalfEven n d ≤ n / d + 1 := by
  rw [roundHalfEven]
  split <;> omega

theorem le_roundHalfEven (n d : Nat) : n / d ≤ roundHalfEven n d := by
  rw [roundHalfEven]
  split <;> omega

theorem roundHalfEven_eq_zero {n d : Nat} (h : 2 * n < d) : roundHalfEven n d = 0 := by
  have hn : n < d := by omega
  simp [roundHalfEven, Nat.mod_eq_of_lt hn, Nat.div_eq_of_lt hn, h]

/-! ### The nearest code -/

theorem unitExponent_eq : unitExponent = 1074 :=
  rfl

theorem infinityCode_eq : infinityCode = 2047 * 2 ^ 52 :=
  rfl

theorem magnitude_eq (code : Nat) :
    magnitude code = if code < 2 ^ 52 then code else 2 ^ (code / 2 ^ 52 - 1) * (2 ^ 52 + code % 2 ^ 52) := by
  simp only [magnitude, Nat.pow_eq, Nat.mul_comm]

theorem nearestCode_eq (n d : Nat) :
    nearestCode n d =
      ((n * 2 ^ unitExponent / d).log2 - 52) * 2 ^ 52 +
        roundHalfEven (n * 2 ^ unitExponent) (d * 2 ^ ((n * 2 ^ unitExponent / d).log2 - 52)) := by
  simp only [nearestCode, Nat.pow_eq]

theorem nearestCode_mul {k : Nat} (hk : 0 < k) (n d : Nat) : nearestCode (k * n) (k * d) = nearestCode n d := by
  simp only [nearestCode_eq, Nat.mul_assoc, Nat.mul_div_mul_left _ d hk, roundHalfEven_mul hk]

theorem nearestCode_eq_of_mul_eq {n d m e : Nat} (hd : 0 < d) (he : 0 < e) (h : n * e = m * d) :
    nearestCode n d = nearestCode m e := by
  rw [← nearestCode_mul he n d, ← nearestCode_mul hd m e, Nat.mul_comm e n, h, Nat.mul_comm m d, Nat.mul_comm e d]

/-- Below half of the least positive number there is nothing but zero. -/
theorem nearestCode_eq_zero {n d : Nat} (h : 2 * (n * 2 ^ unitExponent) < d) : nearestCode n d = 0 := by
  have hzero : n * 2 ^ unitExponent / d = 0 := Nat.div_eq_of_lt (by omega)
  rw [nearestCode_eq, hzero, Nat.log2_zero, Nat.zero_sub, Nat.zero_mul, Nat.zero_add, Nat.pow_zero, Nat.mul_one,
    roundHalfEven_eq_zero h]

theorem div_mul_two_pow_log2_lt (n d : Nat) : n / (d * 2 ^ ((n / d).log2 - 52)) < 2 ^ 53 := by
  have hlog : n / d < 2 ^ (53 + ((n / d).log2 - 52)) :=
    Nat.lt_of_lt_of_le Nat.lt_log2_self (Nat.pow_le_pow_right (by decide) (by omega))
  rwa [← Nat.div_div_eq_div_mul, Nat.div_lt_iff_lt_mul (Nat.two_pow_pos _), ← Nat.pow_add]

theorem nearestCode_le (n d : Nat) :
    nearestCode n d ≤ ((n * 2 ^ unitExponent / d).log2 - 52 + 2) * 2 ^ 52 := by
  rw [nearestCode_eq]
  generalize n * 2 ^ unitExponent = scaled
  have hquotient := div_mul_two_pow_log2_lt scaled d
  have hround := roundHalfEven_le scaled (d * 2 ^ ((scaled / d).log2 - 52))
  omega

theorem lt_of_nearestCode_lt {n d : Nat} (hd : 0 < d) (h : nearestCode n d < infinityCode) :
    n < d * 2 ^ unitExponent := by
  have hlog : (n * 2 ^ unitExponent / d).log2 < unitExponent + unitExponent := by
    rw [nearestCode_eq, infinityCode_eq] at h
    have hshift := Nat.lt_of_mul_lt_mul_right (Nat.lt_of_le_of_lt (Nat.le_add_right _ _) h)
    have := unitExponent_eq
    omega
  have hquotient : n * 2 ^ unitExponent / d < 2 ^ (unitExponent + unitExponent) :=
    Nat.lt_of_lt_of_le Nat.lt_log2_self (Nat.pow_le_pow_right (by decide) hlog)
  rw [Nat.div_lt_iff_lt_mul hd, Nat.pow_add, Nat.mul_right_comm] at hquotient
  rw [Nat.mul_comm d]
  exact Nat.lt_of_mul_lt_mul_right hquotient

/-- Rounding the exact magnitude of a number gives the number. The magnitude has one binary digit more than the
fractions, and its other digits are zero, except for codes that are fractions alone. -/
theorem nearestCode_magnitude (code : Nat) : nearestCode (magnitude code) (2 ^ unitExponent) = code := by
  rw [nearestCode_eq, Nat.mul_div_cancel _ (Nat.two_pow_pos _), Nat.mul_comm (magnitude code),
    roundHalfEven_mul (Nat.two_pow_pos _)]
  by_cases hcode : code < 2 ^ 52
  · have hlog : code.log2 - 52 = 0 := by
      by_cases hzero : code = 0
      · rw [hzero, Nat.log2_zero]
      · have := (Nat.log2_lt hzero).2 hcode
        omega
    rw [magnitude_eq, if_pos hcode, hlog, Nat.zero_mul, Nat.zero_add, Nat.pow_zero]
    simpa using roundHalfEven_mul_self Nat.one_pos code
  · have hpos : 0 < code / 2 ^ 52 := Nat.div_pos (Nat.le_of_not_lt hcode) (by decide)
    have hmagnitude : magnitude code = 2 ^ (code / 2 ^ 52 - 1) * (2 ^ 52 + code % 2 ^ 52) := by
      rw [magnitude_eq, if_neg hcode]
    have hlog : (magnitude code).log2 = code / 2 ^ 52 - 1 + 52 := by
      have hmod : code % 2 ^ 52 < 2 ^ 52 := Nat.mod_lt _ (by decide)
      have hne : magnitude code ≠ 0 := by
        rw [hmagnitude]
        exact Nat.mul_ne_zero (Nat.ne_of_gt (Nat.two_pow_pos _)) (by omega)
      rw [Nat.log2_eq_iff hne, hmagnitude, Nat.add_assoc, Nat.pow_add, Nat.pow_add]
      exact ⟨Nat.mul_le_mul_left _ (by omega), Nat.mul_lt_mul_of_pos_left (by omega) (Nat.two_pow_pos _)⟩
    rw [hlog, Nat.add_sub_cancel, hmagnitude, roundHalfEven_mul_self (Nat.two_pow_pos _)]
    omega

/-! ### Words -/

theorem code_ofCode (negative : Bool) {code : Nat} (hcode : code < infinityCode) :
    (ofCode negative code).code = code := by
  rw [infinityCode_eq] at hcode
  simp only [Binary64.code, ofCode, Nat.pow_eq, UInt64.toNat_ofNat']
  split <;> omega

theorem isFinite_ofCode (negative : Bool) {code : Nat} (hcode : code < infinityCode) :
    (ofCode negative code).isFinite := by
  rw [isFinite, code_ofCode negative hcode, decide_eq_true hcode]

theorem ofCode_code (x : Binary64) : ofCode x.isNegative x.code = x := by
  obtain ⟨bits⟩ := x
  have hbits := bits.toNat_lt
  rw [ofCode, Binary64.mk.injEq, ← UInt64.toNat_inj]
  simp only [isNegative, Binary64.code, Nat.pow_eq, decide_eq_true_eq, UInt64.toNat_ofNat']
  split <;> omega

theorem isNegative_ofCode_false {code : Nat} (hcode : code < infinityCode) :
    (ofCode false code).isNegative = false := by
  rw [infinityCode_eq] at hcode
  simp only [isNegative, ofCode, Nat.pow_eq, UInt64.toNat_ofNat', Bool.false_eq_true, if_false,
    decide_eq_false_iff_not]
  omega

theorem nearestCode_toNat_lt (n : UInt64) : nearestCode n.toNat 1 < infinityCode := by
  have hlog : (n.toNat * 2 ^ unitExponent).log2 < 64 + unitExponent := by
    by_cases hzero : n.toNat * 2 ^ unitExponent = 0
    · rw [hzero, Nat.log2_zero]
      omega
    · rw [Nat.log2_lt hzero, Nat.pow_add, Nat.mul_lt_mul_right (Nat.two_pow_pos _)]
      exact n.toNat_lt
  refine Nat.lt_of_le_of_lt (nearestCode_le n.toNat 1) ?_
  rw [infinityCode_eq, Nat.div_one]
  have := unitExponent_eq
  exact Nat.mul_lt_mul_of_pos_right (by omega) (by decide)

theorem isFinite_ofUInt64 (n : UInt64) : (ofUInt64 n).isFinite :=
  isFinite_ofCode false (nearestCode_toNat_lt n)

end Binary64

/-! ### Decimal numbers -/

/-- The code of the number nearest to a decimal one. -/
def Decimal.code (decimal : Decimal) : Nat :=
  Binary64.nearestCode (decimal.coefficient * Nat.pow 10 decimal.exponent.toNat) (Nat.pow 10 (-decimal.exponent).toNat)

/-- Digits may go from the coefficient to the exponent. -/
theorem Decimal.code_shift (coefficient places : Nat) (exponent : Int) :
    Decimal.code ⟨coefficient * 10 ^ places, exponent - places⟩ = Decimal.code ⟨coefficient, exponent⟩ := by
  refine Binary64.nearestCode_eq_of_mul_eq (Nat.pow_pos (by decide)) (Nat.pow_pos (by decide)) ?_
  have hplaces : places + (exponent - places).toNat + (-exponent).toNat =
      exponent.toNat + (-(exponent - places)).toNat := by
    omega
  simp only [Nat.pow_eq]
  rw [Nat.mul_assoc, Nat.mul_assoc, Nat.mul_assoc, ← Nat.pow_add, ← Nat.pow_add, ← Nat.pow_add, ← Nat.add_assoc,
    hplaces]

namespace Binary64

variable {coefficient : Nat} {exponent : Int}

theorem two_pow_lt_ten_pow {k : Nat} (hk : 400 ≤ k) : 2 * 2 ^ unitExponent < 10 ^ k := by
  calc 2 * 2 ^ unitExponent = 2 ^ (unitExponent + 1) := by rw [Nat.pow_succ']
    _ ≤ 2 ^ (3 * k) := Nat.pow_le_pow_right (by decide) (by have := unitExponent_eq; omega)
    _ = 8 ^ k := Nat.pow_mul 2 3 k
    _ < 10 ^ k := Nat.pow_lt_pow_left (by decide) (by omega)

theorem code_eq_zero_of_small {digits : Nat} (hdigits : coefficient < 10 ^ digits) (hsmall : exponent + digits < -400) :
    Decimal.code ⟨coefficient, exponent⟩ = 0 := by
  refine nearestCode_eq_zero ?_
  have hexponent : exponent.toNat = 0 := by omega
  have hplaces : (-exponent).toNat = digits + ((-exponent).toNat - digits) := by omega
  simp only [Nat.pow_eq, hexponent, Nat.pow_zero, Nat.mul_one]
  rw [hplaces, Nat.pow_add, Nat.mul_left_comm]
  exact Nat.mul_lt_mul_of_lt_of_lt hdigits (two_pow_lt_ten_pow (by omega))

theorem not_code_lt_of_large {digits : Nat} (hdigits : 10 ^ digits ≤ coefficient) (hlarge : 400 ≤ exponent + digits) :
    ¬Decimal.code ⟨coefficient, exponent⟩ < infinityCode := by
  intro hcode
  have hlt := lt_of_nearestCode_lt (Nat.pow_pos (by decide)) hcode
  simp only [Nat.pow_eq] at hlt
  have hplaces : digits + exponent.toNat = (-exponent).toNat + (digits + exponent.toNat - (-exponent).toNat) := by omega
  have hle : 10 ^ (digits + exponent.toNat) ≤ coefficient * 10 ^ exponent.toNat := by
    rw [Nat.pow_add]
    exact Nat.mul_le_mul_right _ hdigits
  rw [hplaces, Nat.pow_add] at hle
  have hpow := Nat.lt_of_mul_lt_mul_left (Nat.lt_of_le_of_lt hle hlt)
  have := two_pow_lt_ten_pow (k := digits + exponent.toNat - (-exponent).toNat) (by omega)
  omega

theorem code_zero (exponent : Int) : Decimal.code ⟨0, exponent⟩ = 0 := by
  refine nearestCode_eq_zero ?_
  rw [Nat.zero_mul, Nat.zero_mul, Nat.mul_zero]
  exact Nat.pow_pos (by decide)

theorem lt_ten_pow_digits (n : Nat) : n < 10 ^ (Nat.toDigits 10 n).length :=
  (Nat.length_toDigits_le_iff (by decide) Nat.length_toDigits_pos).1 (Nat.le_refl _)

theorem ten_pow_digits_le {n : Nat} (hn : n ≠ 0) : 10 ^ ((Nat.toDigits 10 n).length - 1) ≤ n := by
  by_cases hone : (Nat.toDigits 10 n).length ≤ 1
  · rw [Nat.sub_eq_zero_of_le hone]
    exact Nat.one_le_iff_ne_zero.2 hn
  · have hiff := Nat.length_toDigits_le_iff (b := 10) (n := n) (by decide) (Nat.sub_pos_of_lt (Nat.lt_of_not_le hone))
    exact Nat.le_of_not_lt fun hlt => absurd (hiff.2 hlt) (by omega)

/-- What is settled without rounding comes to the same. -/
theorem ofDecimal?_eq (negative : Bool) (decimal : Decimal) :
    ofDecimal? negative decimal =
      if decimal.code < infinityCode then some (ofCode negative decimal.code) else none := by
  obtain ⟨coefficient, exponent⟩ := decimal
  simp only [ofDecimal?, Bool.or_eq_true, decide_eq_true_eq]
  split
  next hsmall =>
    have hcode : Decimal.code ⟨coefficient, exponent⟩ = 0 := by
      rcases hsmall with rfl | hsmall
      · exact code_zero exponent
      · exact code_eq_zero_of_small (lt_ten_pow_digits coefficient) hsmall
    rw [hcode, if_pos (by decide)]
  next hsmall =>
    rw [not_or] at hsmall
    split
    next hlarge => rw [if_neg (not_code_lt_of_large (ten_pow_digits_le hsmall.1) (by omega))]
    next => rfl

/-! ### The shortest decimal number -/

theorem code_exactDecimal (code : Nat) : (exactDecimal code).code = code := by
  have hten : 10 ^ unitExponent = 5 ^ unitExponent * 2 ^ unitExponent := by rw [← Nat.mul_pow]
  rw [exactDecimal, Decimal.code]
  simp only [Nat.pow_eq, Int.toNat_neg_natCast, Int.neg_neg, Int.toNat_natCast, Nat.pow_zero, Nat.mul_one]
  rw [hten, Nat.mul_comm, nearestCode_mul, nearestCode_magnitude]
  exact Nat.pow_pos (by decide)

theorem code_shortest (code : Nat) : (shortest code).code = code := by
  rw [shortest]
  cases hfound : (List.range 17).findSome? fun further : Nat => atExponent? code (decimalExponent code - further) with
  | none => exact code_exactDecimal code
  | some decimal =>
    obtain ⟨further, _, hcandidate⟩ := List.exists_of_findSome?_eq_some hfound
    have hback : readsBack code decimal := List.find?_some (by rwa [atExponent?] at hcandidate)
    rw [readsBack, decide_eq_true_eq] at hback
    exact hback

end Binary64

end Pluck
