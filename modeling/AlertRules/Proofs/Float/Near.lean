import AlertRules.Proofs.Float.Bits

/-!
# AlertRules.Proofs.Float.Near — doubles near a whole number

The double that a whole number is rounded to is a normal one, with the bits of the number, and at most
half of the last place above it (`near_round`).  Reading its bits again does not change that
(`Near.unpack_pack`), and the product of two such doubles is finite if the product of the numbers is
**safe**: below the greatest double by more than two roundings can add (`Near.within_mul`).
-/

namespace AlertRules.Rounding

open Float.Model Float.Model.UnpackedFloat

/-- The double is a normal one with the bits of `n`, and at most half of the last place above `n`. -/
def Near (n : Nat) (v : UnpackedFloat) : Prop :=
  ∃ s m e h, v = .finite s m e h ∧ 2 ^ 52 ≤ m ∧ m < 2 ^ 53 ∧
    (n.log2 : Int) - 52 ≤ e ∧ e ≤ (n.log2 : Int) - 51 ∧
    2 ^ 53 * (m * 2 ^ (e + 52).toNat) ≤ (2 ^ 53 + 1) * (n * 2 ^ 52)

theorem log2_mul_two_pow {n : Nat} (hn : n ≠ 0) (a : Nat) : (n * 2 ^ a).log2 = n.log2 + a := by
  have hpos : n * 2 ^ a ≠ 0 := Nat.mul_ne_zero hn (Nat.two_pow_pos a).ne'
  obtain ⟨hlow, hhigh⟩ := (Nat.log2_eq_iff hn).mp rfl
  refine (Nat.log2_eq_iff hpos).mpr ⟨?_, ?_⟩
  · rw [Nat.pow_add]
    exact Nat.mul_le_mul_right _ hlow
  · rw [Nat.add_right_comm, Nat.pow_add]
    exact Nat.mul_lt_mul_of_pos_right hhigh (Nat.two_pow_pos a)

/-- A number that has been shifted to at least 53 bits is rounded to a double near it. -/
theorem near_round (s : Sign) {n : Nat} (hn : n ≠ 0) {a : Nat} (ha : 52 ≤ n.log2 + a) :
    Near n (roundWithAccuracy Format.binary64 s (n * 2 ^ a) (-a) .exact) := by
  have hlog := log2_mul_two_pow hn a
  have hpos : n * 2 ^ a ≠ 0 := Nat.mul_ne_zero hn (Nat.two_pow_pos a).ne'
  have hexcess : excess (n * 2 ^ a) (-a) = n.log2 + a - 52 := by
    unfold excess
    rw [hlog]
    omega
  have hbits : 2 ^ 52 * 2 ^ (n.log2 + a - 52) ≤ n * 2 ^ a := by
    rw [← Nat.pow_add, show 52 + (n.log2 + a - 52) = (n * 2 ^ a).log2 by omega]
    exact Nat.log2_self_le hpos
  have hlow : 2 ^ 52 ≤ rounded (n * 2 ^ a) (-a) .exact := by
    refine Nat.le_trans ?_ (le_rounded _)
    rw [shift_mantissa, ofMantissaAndAccuracy_mantissa, hexcess,
      Nat.le_div_iff_mul_le (Nat.two_pow_pos _)]
    exact hbits
  have hvalue : 2 ^ 53 * (rounded (n * 2 ^ a) (-a) .exact * 2 ^ (n.log2 + a - 52)) ≤
      (2 ^ 53 + 1) * (n * 2 ^ a) := by
    have hround := rounded_exact_le (n * 2 ^ a) (excess (n * 2 ^ a) (-a))
    rw [← rounded, hexcess] at hround
    have hscaled := Nat.mul_le_mul_left (2 ^ 52) hround
    calc 2 ^ 53 * (rounded (n * 2 ^ a) (-a) .exact * 2 ^ (n.log2 + a - 52))
        = 2 ^ 52 * (2 * 2 ^ (n.log2 + a - 52) * rounded (n * 2 ^ a) (-a) .exact) := by ring
      _ ≤ 2 ^ 52 * (2 * (n * 2 ^ a) + 2 ^ (n.log2 + a - 52)) := hscaled
      _ = 2 ^ 53 * (n * 2 ^ a) + 2 ^ 52 * 2 ^ (n.log2 + a - 52) := by ring
      _ ≤ (2 ^ 53 + 1) * (n * 2 ^ a) := by omega
  have hvalue' : 2 ^ 53 * (rounded (n * 2 ^ a) (-a) .exact * 2 ^ n.log2) ≤
      (2 ^ 53 + 1) * (n * 2 ^ 52) := by
    have hpow : 2 ^ n.log2 * 2 ^ a = 2 ^ (n.log2 + a - 52) * 2 ^ 52 := by
      rw [← Nat.pow_add, ← Nat.pow_add]
      congr 1
      omega
    refine Nat.le_of_mul_le_mul_right ?_ (Nat.two_pow_pos a)
    calc 2 ^ 53 * (rounded (n * 2 ^ a) (-a) .exact * 2 ^ n.log2) * 2 ^ a
        = 2 ^ 53 * (rounded (n * 2 ^ a) (-a) .exact * (2 ^ n.log2 * 2 ^ a)) := by ring
      _ = 2 ^ 53 * (rounded (n * 2 ^ a) (-a) .exact * 2 ^ (n.log2 + a - 52)) * 2 ^ 52 := by
          rw [hpow]
          ring
      _ ≤ (2 ^ 53 + 1) * (n * 2 ^ a) * 2 ^ 52 := Nat.mul_le_mul_right _ hvalue
      _ = (2 ^ 53 + 1) * (n * 2 ^ 52) * 2 ^ a := by ring
  rcases round_cases s (n * 2 ^ a) (-a) .exact with ⟨hzero, -⟩ | ⟨h, hlt, heq⟩ | ⟨hcarry, heq⟩
  · omega
  · refine ⟨s, _, _, h, heq, hlow, hlt, by omega, by omega, ?_⟩
    rw [show (-(a : Int) + excess (n * 2 ^ a) (-a) + 52).toNat = n.log2 by omega]
    exact hvalue'
  · refine ⟨s, _, _, by decide, heq, Nat.le_refl _, by decide, by omega, by omega, ?_⟩
    rw [show (-(a : Int) + excess (n * 2 ^ a) (-a) + 1 + 52).toNat = n.log2 + 1 by omega]
    rw [hcarry] at hvalue'
    calc 2 ^ 53 * (2 ^ 52 * 2 ^ (n.log2 + 1)) = 2 ^ 53 * (2 ^ 53 * 2 ^ n.log2) := by ring
      _ ≤ (2 ^ 53 + 1) * (n * 2 ^ 52) := hvalue'

theorem Near.unpack_pack {n : Nat} {v : UnpackedFloat} (h : Near n v) (hn : n.log2 ≤ 1022) :
    Near n (UnpackedFloat.unpack Format.binary64 (UnpackedFloat.pack Format.binary64 v)) := by
  obtain ⟨s, m, e, hpos, rfl, hm, hm', he, he', hvalue⟩ := h
  obtain ⟨t, ht⟩ := unpack_pack_normal (s := s) (h := hpos) hm hm' (by omega) (by omega : e ≤ 971)
  exact ⟨t, m, e, hpos, ht, hm, hm', he, he', hvalue⟩

theorem Near.within {n : Nat} {v : UnpackedFloat} (h : Near n v) : Within (n.log2 - 51) v := by
  obtain ⟨s, m, e, hpos, rfl, hm, hm', he, he', hvalue⟩ := h
  exact ⟨hm', he'⟩

/-- The number stays less than halfway from the greatest double to the next power of two when it is
rounded up twice. -/
def Safe (n : Nat) : Prop :=
  (2 ^ 53 + 1) ^ 2 * n < 2 ^ 106 * ((2 ^ 54 - 1) * 2 ^ 970)

instance (n : Nat) : Decidable (Safe n) :=
  inferInstanceAs (Decidable (_ < _))

theorem Safe.mono {m n : Nat} (h : Safe n) (hm : m ≤ n) : Safe m :=
  Nat.lt_of_le_of_lt (Nat.mul_le_mul_left _ hm) h

theorem safe_word : Safe (2 ^ 64) := by
  decide +kernel

/-- The product of doubles near two numbers is finite if the product of the numbers is safe. -/
theorem Near.within_mul {n₁ n₂ : Nat} {v₁ v₂ : UnpackedFloat} (h₁ : Near n₁ v₁) (h₂ : Near n₂ v₂)
    (hlog : 104 ≤ n₁.log2 + n₂.log2)
    (hsafe : Safe (n₁ * n₂)) :
    Within 971 (mul Format.binary64 v₁ v₂) := by
  obtain ⟨s₁, m₁, e₁, hpos₁, rfl, hm₁, -, he₁, -, hvalue₁⟩ := h₁
  obtain ⟨s₂, m₂, e₂, hpos₂, rfl, -, -, he₂, -, hvalue₂⟩ := h₂
  refine within_mul_of_lt hm₁ (by omega) ?_
  have hpow : 2 ^ (e₁ + 52).toNat * 2 ^ (e₂ + 52).toNat = 2 ^ (e₁ + e₂).toNat * 2 ^ 104 := by
    rw [← Nat.pow_add, ← Nat.pow_add]
    congr 1
    omega
  have hproduct : 2 ^ 106 * (m₁ * m₂ * 2 ^ (e₁ + e₂).toNat) ≤ (2 ^ 53 + 1) ^ 2 * (n₁ * n₂) := by
    refine Nat.le_of_mul_le_mul_right ?_ (Nat.two_pow_pos 104)
    calc 2 ^ 106 * (m₁ * m₂ * 2 ^ (e₁ + e₂).toNat) * 2 ^ 104
        = 2 ^ 106 * (m₁ * m₂ * (2 ^ (e₁ + e₂).toNat * 2 ^ 104)) := by ring
      _ = 2 ^ 53 * (m₁ * 2 ^ (e₁ + 52).toNat) * (2 ^ 53 * (m₂ * 2 ^ (e₂ + 52).toNat)) := by
          rw [← hpow]
          ring
      _ ≤ (2 ^ 53 + 1) * (n₁ * 2 ^ 52) * ((2 ^ 53 + 1) * (n₂ * 2 ^ 52)) :=
          Nat.mul_le_mul hvalue₁ hvalue₂
      _ = (2 ^ 53 + 1) ^ 2 * (n₁ * n₂) * 2 ^ 104 := by ring
  exact Nat.lt_of_mul_lt_mul_left (Nat.lt_of_le_of_lt hproduct hsafe)

end AlertRules.Rounding
