import Pluck.Proofs.Binary64.Rounding

/-!
# What is nearest

`roundHalfEven` gives the integer nearest to a ratio, and `nearestCode` the code of the number nearest to one: any other
is farther away, or as far away and then the result is even (`roundHalfEven_wins`, `nearestCode_wins`). The numbers that
count are multiples of one power of two, as all numbers are from the first one with this exponent on, and that one is
not beyond the ratio. `IsNearest` says it of words, among which there are negative numbers, too. So an integer of 64
bits becomes the nearest number: `isNearest_ofUInt64`.
-/

namespace Pluck.Binary64

/-- How far `k` is from `n / d`, in units of `1 / d`. -/
def gap (n d k : Nat) : Nat :=
  ((k * d : Nat) - (n : Int)).natAbs

/-! ### The nearest integer -/

theorem gap_div (n d : Nat) : gap n d (n / d) = n % d := by
  have hn := Nat.div_add_mod' n d
  rw [gap]
  omega

theorem gap_div_add_one {d : Nat} (hd : 0 < d) (n : Nat) : gap n d (n / d + 1) = d - n % d := by
  have hn := Nat.div_add_mod' n d
  have hmod := Nat.mod_lt n hd
  rw [gap, Nat.succ_mul]
  omega

/-- The two integers next to the ratio are at most one away from it, and all others are farther. -/
theorem le_gap {n d k : Nat} (hd : 0 < d) (hbelow : k ≠ n / d) (habove : k ≠ n / d + 1) : d ≤ gap n d k := by
  have hn := Nat.div_add_mod' n d
  have hmod := Nat.mod_lt n hd
  have hsucc : (n / d + 1) * d = n / d * d + d := Nat.succ_mul (n / d) d
  rw [gap]
  rcases Nat.lt_or_gt_of_ne hbelow with hlt | hgt
  · have hle : (k + 1) * d ≤ n / d * d := Nat.mul_le_mul_right d hlt
    rw [Nat.succ_mul] at hle
    omega
  · have hle : (n / d + 1 + 1) * d ≤ k * d := Nat.mul_le_mul_right d (by omega)
    rw [Nat.succ_mul] at hle
    omega

theorem roundHalfEven_wins {d : Nat} (hd : 0 < d) (n : Nat) {k : Nat} (hk : k ≠ roundHalfEven n d) :
    gap n d (roundHalfEven n d) < gap n d k ∨
      gap n d (roundHalfEven n d) = gap n d k ∧ roundHalfEven n d % 2 = 0 := by
  have hmod := Nat.mod_lt n hd
  have hbelow := gap_div n d
  have habove := gap_div_add_one hd n
  have hother : k ≠ n / d → k ≠ n / d + 1 → d ≤ gap n d k := le_gap hd
  rw [roundHalfEven] at hk ⊢
  simp only [Bool.or_eq_true, Bool.and_eq_true, decide_eq_true_eq] at hk ⊢
  split
  next hquotient =>
    rw [if_pos hquotient] at hk
    by_cases hnext : k = n / d + 1
    · rw [hnext]
      omega
    · have := hother hk hnext
      omega
  next hquotient =>
    rw [if_neg hquotient] at hk
    by_cases hnext : k = n / d
    · rw [hnext]
      omega
    · have := hother hnext hk
      omega

/-! ### The nearest code -/

theorem magnitude_injective : Function.Injective magnitude := by
  intro code other hsame
  rw [← nearestCode_magnitude code, hsame, nearestCode_magnitude]

/-- The numbers with one exponent, and the first one with the next. -/
theorem magnitude_add {shift q : Nat} (hle : q ≤ 2 ^ 53) (hshift : shift = 0 ∨ 2 ^ 52 ≤ q) :
    magnitude (shift * 2 ^ 52 + q) = q * 2 ^ shift := by
  rw [magnitude_eq]
  split
  next hsmall =>
    have hzero : shift = 0 := by omega
    rw [hzero, Nat.zero_mul, Nat.zero_add, Nat.pow_zero, Nat.mul_one]
  next hlarge =>
    by_cases hcarry : q = 2 ^ 53
    · have hdiv : (shift * 2 ^ 52 + q) / 2 ^ 52 - 1 = shift + 1 := by omega
      have hmod : (shift * 2 ^ 52 + q) % 2 ^ 52 = 0 := by omega
      rw [hdiv, hmod, hcarry, Nat.pow_succ, Nat.mul_assoc, Nat.mul_comm (2 ^ shift)]
      rfl
    · have hdiv : (shift * 2 ^ 52 + q) / 2 ^ 52 - 1 = shift := by omega
      have hmod : 2 ^ 52 + (shift * 2 ^ 52 + q) % 2 ^ 52 = q := by omega
      rw [hdiv, hmod, Nat.mul_comm]

/-- A number is a multiple of the power of two, or it comes before the numbers with this exponent. -/
theorem magnitude_lt_of_not_dvd {shift code : Nat} (hdvd : ¬2 ^ shift ∣ magnitude code) :
    magnitude code < 2 ^ 52 * 2 ^ shift := by
  rw [magnitude_eq] at hdvd ⊢
  by_cases hcode : code < 2 ^ 52
  · rw [if_pos hcode]
    exact Nat.lt_of_lt_of_le hcode (Nat.le_mul_of_pos_right _ (Nat.two_pow_pos shift))
  · rw [if_neg hcode] at hdvd ⊢
    generalize hexponent : code / 2 ^ 52 - 1 = exponent at hdvd ⊢
    have hlt : exponent < shift := by
      by_contra hle
      exact hdvd (Nat.dvd_mul_right_of_dvd (Nat.pow_dvd_pow 2 (Nat.le_of_not_lt hle)) _)
    calc 2 ^ exponent * (2 ^ 52 + code % 2 ^ 52) < 2 ^ exponent * 2 ^ 53 :=
          Nat.mul_lt_mul_of_pos_left (by omega) (Nat.two_pow_pos exponent)
      _ = 2 ^ 52 * 2 ^ (exponent + 1) := by
          rw [Nat.pow_succ]
          omega
      _ ≤ 2 ^ 52 * 2 ^ shift := Nat.mul_le_mul_left _ (Nat.pow_le_pow_right (by decide) hlt)

theorem exists_nearestCode_eq (n : Nat) {d : Nat} (hd : 0 < d) :
    ∃ shift, nearestCode n d = shift * 2 ^ 52 + roundHalfEven (n * 2 ^ unitExponent) (d * 2 ^ shift) ∧
      roundHalfEven (n * 2 ^ unitExponent) (d * 2 ^ shift) ≤ 2 ^ 53 ∧
      (shift = 0 ∨ 2 ^ 52 * (d * 2 ^ shift) ≤ n * 2 ^ unitExponent) := by
  refine ⟨_, nearestCode_eq n d, ?_, ?_⟩
  · generalize n * 2 ^ unitExponent = scaled
    have hquotient := div_mul_two_pow_log2_lt scaled d
    have hround := roundHalfEven_le scaled (d * 2 ^ ((scaled / d).log2 - 52))
    omega
  · generalize n * 2 ^ unitExponent = scaled
    by_cases hlog : (scaled / d).log2 ≤ 52
    · exact .inl (Nat.sub_eq_zero_of_le hlog)
    · right
      have hne : scaled / d ≠ 0 := by
        intro hzero
        rw [hzero, Nat.log2_zero] at hlog
        omega
      have hquotient := Nat.log2_self_le hne
      rw [Nat.le_div_iff_mul_le hd] at hquotient
      have hpow : 2 ^ (scaled / d).log2 = 2 ^ 52 * 2 ^ ((scaled / d).log2 - 52) := by
        rw [← Nat.pow_add]
        congr 1
        omega
      rwa [hpow, Nat.mul_right_comm, Nat.mul_assoc] at hquotient

theorem gap_mul_two_pow (n d shift k : Nat) : gap n (d * 2 ^ shift) k = gap n d (k * 2 ^ shift) := by
  rw [gap, gap, Nat.mul_left_comm, Nat.mul_comm d]

/-- The number comes before the first multiple with this exponent, and that one is not beyond the ratio. -/
theorem gap_lt_of_not_dvd {n d shift code : Nat} (hd : 0 < d) (hbound : 2 ^ 52 * (d * 2 ^ shift) ≤ n)
    (hdvd : ¬2 ^ shift ∣ magnitude code) : gap n (d * 2 ^ shift) (2 ^ 52) < gap n d (magnitude code) := by
  have hless : magnitude code * d < 2 ^ 52 * (d * 2 ^ shift) := by
    rw [Nat.mul_left_comm, Nat.mul_comm d]
    exact Nat.mul_lt_mul_of_pos_right (magnitude_lt_of_not_dvd hdvd) hd
  rw [gap, gap]
  omega

theorem nearestCode_wins {n d code : Nat} (hd : 0 < d) (hcode : code ≠ nearestCode n d) :
    gap (n * 2 ^ unitExponent) d (magnitude (nearestCode n d)) < gap (n * 2 ^ unitExponent) d (magnitude code) ∨
      gap (n * 2 ^ unitExponent) d (magnitude (nearestCode n d)) = gap (n * 2 ^ unitExponent) d (magnitude code) ∧
        nearestCode n d % 2 = 0 := by
  obtain ⟨shift, hnearest, hle, hshift⟩ := exists_nearestCode_eq n hd
  rw [hnearest] at hcode ⊢
  generalize n * 2 ^ unitExponent = scaled at hcode hle hshift ⊢
  have hunit : 0 < d * 2 ^ shift := Nat.mul_pos hd (Nat.two_pow_pos shift)
  have hwins := fun k => @roundHalfEven_wins _ hunit scaled k
  have hlow := le_roundHalfEven scaled (d * 2 ^ shift)
  generalize roundHalfEven scaled (d * 2 ^ shift) = q at hcode hle hwins hlow ⊢
  have hmagnitude : magnitude (shift * 2 ^ 52 + q) = q * 2 ^ shift := by
    refine magnitude_add hle (hshift.imp_right fun hbound => Nat.le_trans ?_ hlow)
    rwa [Nat.le_div_iff_mul_le hunit]
  have hparity : (shift * 2 ^ 52 + q) % 2 = q % 2 := by omega
  rw [hmagnitude, hparity, ← gap_mul_two_pow]
  by_cases hdvd : 2 ^ shift ∣ magnitude code
  · obtain ⟨k, hk⟩ := hdvd
    rw [Nat.mul_comm] at hk
    rw [hk, ← gap_mul_two_pow]
    refine hwins k ?_
    rintro rfl
    exact hcode (magnitude_injective (hk.trans hmagnitude.symm))
  · left
    have hbound : 2 ^ 52 * (d * 2 ^ shift) ≤ scaled := by
      refine hshift.resolve_left fun hzero => hdvd ?_
      rw [hzero, Nat.pow_zero]
      exact Nat.one_dvd _
    refine Nat.lt_of_le_of_lt ?_ (gap_lt_of_not_dvd hd hbound hdvd)
    by_cases hq : 2 ^ 52 = q
    · rw [hq]
    · rcases hwins (2 ^ 52) hq with hless | ⟨heq, _⟩
      · exact Nat.le_of_lt hless
      · exact Nat.le_of_eq heq

/-! ### Words -/

/-- The finite number in units of the least positive one. -/
def units (x : Binary64) : Int :=
  if x.isNegative then -(magnitude x.code) else magnitude x.code

/-- How far the finite number is from a natural one, in units of the least positive number. -/
def distance (x : Binary64) (n : Nat) : Nat :=
  (x.units - (n * Nat.pow 2 unitExponent : Nat)).natAbs

/-- The number is finite, no finite number is nearer to `n`, and if another one is as near, then this one is even. -/
structure IsNearest (x : Binary64) (n : Nat) : Prop where
  isFinite : x.isFinite
  distance_le : ∀ y : Binary64, y.isFinite → x.distance n ≤ y.distance n
  even_of_tie : ∀ y : Binary64, y.isFinite → y ≠ x → y.distance n = x.distance n → x.code % 2 = 0

theorem distance_of_positive {x : Binary64} (hx : x.isNegative = false) (n : Nat) :
    x.distance n = gap (n * 2 ^ unitExponent) 1 (magnitude x.code) := by
  rw [distance, units, hx, gap, Nat.mul_one, Nat.pow_eq]
  generalize n * 2 ^ unitExponent = scaled
  rfl

theorem distance_of_negative {x : Binary64} (hx : x.isNegative = true) (n : Nat) :
    x.distance n = gap (n * 2 ^ unitExponent) 1 0 + magnitude x.code := by
  rw [distance, units, hx, gap, Nat.pow_eq, if_pos rfl]
  generalize n * 2 ^ unitExponent = scaled
  omega

theorem magnitude_zero : magnitude 0 = 0 := by
  rw [magnitude_eq, if_pos (Nat.two_pow_pos 52)]

section Positive

variable {n : Nat} (hlt : nearestCode n 1 < infinityCode)

include hlt

/-- A negative number does no better than zero. -/
theorem ofCode_nearestCode_wins {y : Binary64} (hy : y ≠ ofCode false (nearestCode n 1)) :
    (ofCode false (nearestCode n 1)).distance n < y.distance n ∨
      (ofCode false (nearestCode n 1)).distance n = y.distance n ∧ nearestCode n 1 % 2 = 0 := by
  rw [distance_of_positive (isNegative_ofCode_false hlt), code_ofCode false hlt]
  cases hsign : y.isNegative with
  | false =>
    rw [distance_of_positive hsign]
    refine nearestCode_wins Nat.one_pos fun hcode => hy ?_
    rw [← hcode, ← hsign, ofCode_code]
  | true =>
    rw [distance_of_negative hsign]
    by_cases hzero : nearestCode n 1 = 0
    · rw [hzero, magnitude_zero]
      omega
    · have hwins := nearestCode_wins Nat.one_pos (Ne.symm hzero)
      rw [magnitude_zero] at hwins
      omega

theorem isNearest_ofCode : (ofCode false (nearestCode n 1)).IsNearest n where
  isFinite := isFinite_ofCode false hlt
  distance_le y _ := by
    by_cases hy : y = ofCode false (nearestCode n 1)
    · rw [hy]
    · have := ofCode_nearestCode_wins hlt hy
      omega
  even_of_tie y _ hy htie := by
    have := ofCode_nearestCode_wins hlt hy
    rw [code_ofCode false hlt]
    omega

end Positive

theorem isNearest_ofUInt64 (n : UInt64) : (ofUInt64 n).IsNearest n.toNat :=
  isNearest_ofCode (nearestCode_toNat_lt n)

end Pluck.Binary64
