import AlertRules.Proofs.Float.Rounding
import Mathlib.Tactic.NormNum

/-!
# AlertRules.Proofs.Float.Range — doubles that stay finite

A double is **within** an exponent when it is a number of 53 bits times at most that power of two; the
finite doubles are those within 971.  Each operation keeps its result within an exponent that follows
from those of its arguments; only for a product that may come close to the greatest double the numbers
themselves have to be compared with it (`within_mul_of_lt`).
-/

namespace AlertRules.Rounding

open Float.Model Float.Model.UnpackedFloat

/-- The double is zero, or a number of 53 bits times at most `2 ^ n`. -/
def Within (n : Int) : UnpackedFloat → Prop
  | .zero _ => True
  | .finite _ m e _ => m < 2 ^ 53 ∧ e ≤ n
  | _ => False

theorem Within.mono {n n' : Int} {v : UnpackedFloat} (h : Within n v) (hn : n ≤ n') : Within n' v := by
  cases v with
  | finite s m e _ => exact ⟨h.1, Int.le_trans h.2 hn⟩
  | zero s => trivial
  | _ => exact h

/-! ## Rounding -/

/-- What is rounded has at most one bit more than before. -/
theorem within_round {n : Int} (s : Sign) {m : Nat} {e : Int} (a : Accuracy)
    (hm : (m.log2 : Int) + e - 51 ≤ n) (he : e + 1 ≤ n) (hn : -1073 ≤ n) :
    Within n (roundWithAccuracy Format.binary64 s m e a) := by
  have hexcess : e + excess m e + 1 ≤ n := by
    unfold excess
    omega
  rcases round_cases s m e a with ⟨-, hzero⟩ | ⟨_, hlt, heq⟩ | ⟨_, heq⟩
  · rw [hzero]
    trivial
  · rw [heq]
    exact ⟨hlt, by omega⟩
  · rw [heq]
    exact ⟨by decide, hexcess⟩

theorem log2_add_le {m e t : Nat} (hm : m ≠ 0) (hlt : m * 2 ^ e < (2 ^ 54 - 1) * 2 ^ t) :
    m.log2 + e ≤ 53 + t := by
  by_contra hbig
  have hself := Nat.mul_le_mul_right (2 ^ e) (Nat.log2_self_le hm)
  have hpow : 2 ^ (54 + t) ≤ 2 ^ (m.log2 + e) := Nat.pow_le_pow_right (by decide) (by omega)
  rw [← Nat.pow_add] at hself
  rw [Nat.pow_add] at hpow
  omega

/-- A number that is less than halfway from the greatest double to the next power of two is rounded to
a double. -/
theorem within_round_of_lt (s : Sign) {m e : Nat} (hm : 52 ≤ m.log2)
    (hlt : m * 2 ^ e < (2 ^ 54 - 1) * 2 ^ 970) :
    Within 971 (roundWithAccuracy Format.binary64 s m e .exact) := by
  have hpos : m ≠ 0 := by
    rintro rfl
    exact absurd hm (by decide)
  have hexcess : excess m e = m.log2 - 52 := by
    unfold excess
    omega
  have htop := log2_add_le hpos hlt
  rcases round_cases s m e .exact with ⟨-, hzero⟩ | ⟨_, hbits, heq⟩ | ⟨hcarry, heq⟩
  · rw [hzero]
    trivial
  · rw [heq, hexcess]
    exact ⟨hbits, by omega⟩
  · rw [heq, hexcess]
    refine ⟨by decide, ?_⟩
    by_contra hbig
    have hk : m.log2 - 52 + e = 971 := by omega
    -- a carry would mean that at most half of the last place is missing to `2 ^ 1024`
    have hround := rounded_exact_le m (excess m e)
    have hcarry' : (ExtendedMantissa.ofMantissaAndAccuracy m .exact >>> excess m e).roundedMantissa =
        2 ^ 53 := hcarry
    rw [hcarry', hexcess] at hround
    have hscaled := Nat.mul_le_mul_right (2 ^ e) hround
    have hleft : 2 * 2 ^ (m.log2 - 52) * 2 ^ 53 * 2 ^ e = 2 ^ 54 * 2 ^ 971 := by
      rw [← hk, Nat.pow_add]
      ring
    have hright : (2 * m + 2 ^ (m.log2 - 52)) * 2 ^ e = 2 * (m * 2 ^ e) + 2 ^ 971 := by
      rw [← hk, Nat.pow_add]
      ring
    rw [hleft, hright] at hscaled
    omega

/-! ## Products and quotients -/

theorem log2_le_of_lt {m n : Nat} (h : m < 2 ^ (n + 1)) : m.log2 ≤ n := by
  by_cases hm : m = 0
  · rw [hm]
    exact Nat.zero_le n
  · exact Nat.le_of_lt_succ ((Nat.log2_lt hm).mpr h)

theorem within_mul {n₁ n₂ n : Int} {v₁ v₂ : UnpackedFloat} (h₁ : Within n₁ v₁) (h₂ : Within n₂ v₂)
    (hn : n₁ + n₂ + 54 ≤ n) (hlow : -1073 ≤ n) : Within n (mul Format.binary64 v₁ v₂) := by
  cases v₁ with
  | zero s₁ =>
    cases v₂ with
    | zero s₂ => trivial
    | finite s₂ m₂ e₂ _ => trivial
    | _ => exact h₂.elim
  | finite s₁ m₁ e₁ _ =>
    cases v₂ with
    | zero s₂ => trivial
    | finite s₂ m₂ e₂ _ =>
      have hlog : (m₁ * m₂).log2 ≤ 105 := log2_le_of_lt <|
        calc m₁ * m₂ < 2 ^ 53 * 2 ^ 53 := Nat.mul_lt_mul'' h₁.1 h₂.1
          _ = 2 ^ (105 + 1) := by norm_num
      have he₁ := h₁.2
      have he₂ := h₂.2
      exact within_round _ _ (by omega) (by omega) hlow
    | _ => exact h₂.elim
  | _ => exact h₁.elim

/-- A product that is less than halfway from the greatest double to the next power of two is finite. -/
theorem within_mul_of_lt {s₁ s₂ : Sign} {m₁ m₂ : Nat} {e₁ e₂ : Int} {h₁ : 0 < m₁} {h₂ : 0 < m₂}
    (hm₁ : 2 ^ 52 ≤ m₁) (he : 0 ≤ e₁ + e₂)
    (hlt : m₁ * m₂ * 2 ^ (e₁ + e₂).toNat < (2 ^ 54 - 1) * 2 ^ 970) :
    Within 971 (mul Format.binary64 (.finite s₁ m₁ e₁ h₁) (.finite s₂ m₂ e₂ h₂)) := by
  obtain ⟨e, he⟩ := Int.eq_ofNat_of_zero_le he
  have hlog : 52 ≤ (m₁ * m₂).log2 := by
    rw [Nat.le_log2 (Nat.mul_pos h₁ h₂).ne']
    exact Nat.le_trans hm₁ (Nat.le_mul_of_pos_right m₁ h₂)
  rw [he, Int.toNat_natCast] at hlt
  show Within 971 (roundWithAccuracy Format.binary64 (s₁ * s₂) (m₁ * m₂) (e₁ + e₂) .exact)
  rw [he]
  exact within_round_of_lt _ hlog hlt

/-- Dividing by a double that is no less than 1 in its last place but 52 makes a double little
greater. -/
theorem within_div {n : Int} {v₁ : UnpackedFloat} {s₂ : Sign} {m₂ : Nat} {e₂ : Int} {h₂ : 0 < m₂}
    (h₁ : Within n v₁) (he₂ : -52 ≤ e₂) (hn : -1073 ≤ n) :
    Within (n + 53) (div Format.binary64 v₁ (.finite s₂ m₂ e₂ h₂)) := by
  cases v₁ with
  | zero s₁ => trivial
  | finite s₁ m₁ e₁ hpos =>
    obtain ⟨hm₁, he₁⟩ := h₁
    have hlog₁ : m₁.log2 ≤ 52 := log2_le_of_lt hm₁
    show Within (n + 53) (roundWithAccuracy Format.binary64 _
      (divCore Format.binary64 m₁ e₁ m₂ e₂).1 (divCore Format.binary64 m₁ e₁ m₂ e₂).2.1 _)
    unfold divCore
    dsimp only
    generalize hT : Format.binary64.targetExponent (totalExponent m₁ e₁ - totalExponent m₂ e₂) = T
    have hlog : ((m₁ <<< (e₁ - e₂ - min (e₁ - e₂) T).toNat / m₂).log2 : Int) ≤
        m₁.log2 + (e₁ - e₂ - min (e₁ - e₂) T).toNat := by
      have hlt : m₁ <<< (e₁ - e₂ - min (e₁ - e₂) T).toNat / m₂ <
          2 ^ (m₁.log2 + (e₁ - e₂ - min (e₁ - e₂) T).toNat + 1) := by
        refine Nat.lt_of_le_of_lt (Nat.div_le_self _ _) ?_
        rw [Nat.shiftLeft_eq, Nat.add_right_comm, Nat.pow_add]
        exact Nat.mul_lt_mul_of_pos_right Nat.lt_log2_self (Nat.two_pow_pos _)
      exact_mod_cast log2_le_of_lt hlt
    exact within_round _ _ (by omega) (by omega) (by omega)
  | _ => exact h₁.elim

theorem within_neg {n : Int} {v : UnpackedFloat} (h : Within n v) : Within n v.neg := by
  cases v with
  | finite s m e _ => exact h
  | zero s => trivial
  | _ => exact h.elim

end AlertRules.Rounding
