import Mathlib.Tactic.Ring

/-!
# AlertRules.Proofs.Float.Rounding — how a double is rounded

A double is rounded from a natural number times a power of two by taking away the bits in excess of
53, or those below the least exponent, and then rounding to nearest, which may carry into a 54th bit
(`round_cases`).  The result is at most half of the last place above what was rounded
(`rounded_exact_le`).
-/

namespace AlertRules.Rounding

open Float.Model Float.Model.UnpackedFloat

/-! ## Bits that are taken away -/

theorem shift_succ (em : ExtendedMantissa) (k : Nat) : em >>> (k + 1) = (em >>> k).shiftRightOne :=
  rfl

theorem shift_mantissa (em : ExtendedMantissa) (k : Nat) :
    (em >>> k).mantissa = em.mantissa / 2 ^ k := by
  induction k with
  | zero => exact (Nat.div_one _).symm
  | succ k ih =>
    rw [shift_succ, ExtendedMantissa.shiftRightOne, ih, Nat.div_div_eq_div_mul, Nat.pow_succ]

theorem ofMantissaAndAccuracy_mantissa (m : Nat) (a : Accuracy) :
    (ExtendedMantissa.ofMantissaAndAccuracy m a).mantissa = m := by
  cases a with
  | exact => rfl
  | inexact o => cases o <;> rfl

/-- Behind an exact number the round bit tells that at least half of the last place was taken away. -/
theorem roundBit_shift {m k : Nat}
    (h : (ExtendedMantissa.ofMantissaAndAccuracy m .exact >>> k).roundBit = true) :
    2 ^ k ≤ 2 * (m % 2 ^ k) := by
  cases k with
  | zero => exact absurd h Bool.false_ne_true
  | succ k =>
    rw [shift_succ, ExtendedMantissa.shiftRightOne, shift_mantissa] at h
    have hodd : m / 2 ^ k % 2 = 1 := by
      have hne : m / 2 ^ k % 2 ≠ 0 := bne_iff_ne.mp h
      omega
    have hmod : m % 2 ^ (k + 1) = m % 2 ^ k + 2 ^ k := by
      rw [Nat.pow_succ, Nat.mod_mul, hodd, Nat.mul_one]
    rw [hmod, Nat.pow_succ]
    omega

theorem rounded_le (em : ExtendedMantissa) : em.roundedMantissa ≤ em.mantissa + 1 := by
  obtain ⟨m, r, s⟩ := em
  show Accuracy.roundToNearestEven m _ ≤ m + 1
  cases r <;> cases s <;> simp only [ExtendedMantissa.accuracy, Accuracy.roundToNearestEven] <;> omega

theorem le_rounded (em : ExtendedMantissa) : em.mantissa ≤ em.roundedMantissa := by
  obtain ⟨m, r, s⟩ := em
  show m ≤ Accuracy.roundToNearestEven m _
  cases r <;> cases s <;> simp only [ExtendedMantissa.accuracy, Accuracy.roundToNearestEven] <;> omega

theorem rounded_of_roundBit {em : ExtendedMantissa} (h : em.roundBit = false) :
    em.roundedMantissa = em.mantissa := by
  obtain ⟨m, r, s⟩ := em
  obtain rfl : r = false := h
  cases s <;> rfl

/-- Rounding an exact number adds at most half of the last place. -/
theorem rounded_exact_le (m k : Nat) :
    2 * 2 ^ k * (ExtendedMantissa.ofMantissaAndAccuracy m .exact >>> k).roundedMantissa ≤
      2 * m + 2 ^ k := by
  have hdiv := Nat.div_add_mod m (2 ^ k)
  have hmantissa : (ExtendedMantissa.ofMantissaAndAccuracy m .exact >>> k).mantissa = m / 2 ^ k :=
    shift_mantissa _ k
  cases hbit : (ExtendedMantissa.ofMantissaAndAccuracy m .exact >>> k).roundBit with
  | false =>
    rw [rounded_of_roundBit hbit, hmantissa, Nat.mul_assoc]
    omega
  | true =>
    have hhalf := roundBit_shift hbit
    have hle := rounded_le (ExtendedMantissa.ofMantissaAndAccuracy m .exact >>> k)
    rw [hmantissa] at hle
    calc 2 * 2 ^ k * (ExtendedMantissa.ofMantissaAndAccuracy m .exact >>> k).roundedMantissa
        ≤ 2 * 2 ^ k * (m / 2 ^ k + 1) := Nat.mul_le_mul_left _ hle
      _ = 2 * (2 ^ k * (m / 2 ^ k)) + 2 * 2 ^ k := by ring
      _ ≤ 2 * m + 2 ^ k := by omega

/-! ## Rounding as a whole -/

/-- How many of the bits of `m * 2 ^ e` are rounded away. -/
def excess (m : Nat) (e : Int) : Nat :=
  (max ((m.log2 : Int) + e - 52) (-1074) - e).toNat

/-- What `m` is rounded to, in units of its last bit that is kept. -/
def rounded (m : Nat) (e : Int) (a : Accuracy) : Nat :=
  (ExtendedMantissa.ofMantissaAndAccuracy m a >>> excess m e).roundedMantissa

theorem targetExponent_eq (m : Nat) (e : Int) :
    Format.binary64.targetExponent (totalExponent m e) = max ((m.log2 : Int) + e - 52) (-1074) := by
  show max ((m.log2 : Int) + 1 + e - 53) (-1074) = _
  omega

theorem shiftToTargetExponent_eq (m : Nat) (e : Int) (a : Accuracy) :
    shiftToTargetExponent Format.binary64 m e a =
      (ExtendedMantissa.ofMantissaAndAccuracy m a >>> excess m e, e + excess m e) := by
  rw [shiftToTargetExponent, targetExponent_eq]
  rfl

theorem log2_le_add_excess (m : Nat) (e : Int) : m.log2 ≤ 52 + excess m e := by
  unfold excess
  omega

theorem lt_two_pow_of_log2_le {m n : Nat} (h : m.log2 ≤ n) : m < 2 ^ (n + 1) := by
  by_cases hm : m = 0
  · exact hm ▸ Nat.two_pow_pos _
  · exact (Nat.log2_lt hm).mp (by omega)

/-- At most 53 bits are left, and rounding may carry into one more. -/
theorem rounded_le_two_pow (m : Nat) (e : Int) (a : Accuracy) : rounded m e a ≤ 2 ^ 53 := by
  have hle := rounded_le (ExtendedMantissa.ofMantissaAndAccuracy m a >>> excess m e)
  rw [shift_mantissa, ofMantissaAndAccuracy_mantissa] at hle
  have hlt : m / 2 ^ excess m e < 2 ^ 53 := by
    rw [Nat.div_lt_iff_lt_mul (Nat.two_pow_pos _), ← Nat.pow_add]
    have hbits := lt_two_pow_of_log2_le (log2_le_add_excess m e)
    rwa [show 52 + excess m e + 1 = 53 + excess m e by omega] at hbits
  exact Nat.le_trans hle hlt

theorem excess_of_lt {m : Nat} {e : Int} (hm : m < 2 ^ 53) (he : -1074 ≤ e) : excess m e = 0 := by
  have hlog : m.log2 ≤ 52 := by
    by_cases h : m = 0
    · rw [h]
      decide
    · exact Nat.le_of_lt_succ ((Nat.log2_lt h).mpr hm)
  unfold excess
  omega

theorem neg_le_add_excess (m : Nat) (e : Int) : -1074 ≤ e + excess m e := by
  unfold excess
  omega

/-- What is rounded is zero, or keeps what is left of it as it is, or takes one bit more and then is the
least with as many. -/
theorem round_cases (s : Sign) (m : Nat) (e : Int) (a : Accuracy) :
    (rounded m e a = 0 ∧ roundWithAccuracy Format.binary64 s m e a = .zero s) ∨
      (∃ h, rounded m e a < 2 ^ 53 ∧
        roundWithAccuracy Format.binary64 s m e a = .finite s (rounded m e a) (e + excess m e) h) ∨
      (rounded m e a = 2 ^ 53 ∧
        roundWithAccuracy Format.binary64 s m e a =
          .finite s (2 ^ 52) (e + excess m e + 1) (by decide)) := by
  have hle := rounded_le_two_pow m e a
  have hlow := neg_le_add_excess m e
  have hround : roundWithAccuracy Format.binary64 s m e a =
      (let em := ExtendedMantissa.ofMantissaAndAccuracy (rounded m e a) .exact >>>
          excess (rounded m e a) (e + excess m e)
        if h : em.mantissa = 0 then .zero s
        else .finite s em.mantissa
          (e + excess m e + excess (rounded m e a) (e + excess m e)) (Nat.pos_of_ne_zero h)) := by
    rw [roundWithAccuracy, shiftToTargetExponent_eq]
    dsimp only
    rw [shiftToTargetExponent_eq]
    rfl
  rw [hround]
  generalize rounded m e a = r at *
  generalize e + excess m e = e₁ at *
  rcases Nat.lt_or_eq_of_le hle with hlt | rfl
  · rw [excess_of_lt hlt hlow]
    by_cases hr : r = 0
    · exact .inl ⟨hr, dif_pos hr⟩
    · refine .inr (.inl ⟨Nat.pos_of_ne_zero hr, hlt, ?_⟩)
      rw [Int.natCast_zero, Int.add_zero]
      exact dif_neg hr
  · have hone : excess (2 ^ 53) e₁ = 1 := by
      rw [excess, Nat.log2_two_pow]
      omega
    rw [hone]
    exact .inr (.inr ⟨rfl, rfl⟩)

end AlertRules.Rounding
