import AlertRules.Json.Shortest
import AlertRules.Proofs.Float.Near

/-!
# AlertRules.Proofs.Json.Shortest — the range of the shortest decimal

The shortest decimal has at least one digit and at most 18, the last case being `10 ^ 17` itself, and it
is no greater than the reals that round to the double (`shortest_bounds`).  So it is safely below the
greatest double, unless the double is one of the three greatest (`safe_shortest`).

What is searched are grids with the unit `10 ^ k`.  All of them are compared with the magnitude of the
double by moving powers of ten from one side to the other (`mul_pow_lt`, `mul_pow_le`).
-/

namespace AlertRules.Json.Double

/-! ## Powers of ten on two sides -/

theorem mul_pow_lt {u v x y x' y' : Nat} (h : u * 10 ^ x < v * 10 ^ y) (hxy : x' + y ≤ x + y') :
    u * 10 ^ x' < v * 10 ^ y' := by
  refine Nat.lt_of_mul_lt_mul_right (a := 10 ^ x) ?_
  calc u * 10 ^ x' * 10 ^ x = u * 10 ^ x * 10 ^ x' := by ring
    _ < v * 10 ^ y * 10 ^ x' := Nat.mul_lt_mul_of_pos_right h (Nat.pow_pos (by decide))
    _ = v * 10 ^ (x' + y) := by ring
    _ ≤ v * 10 ^ (x + y') := Nat.mul_le_mul_left _ (Nat.pow_le_pow_right (by decide) hxy)
    _ = v * 10 ^ y' * 10 ^ x := by ring

theorem mul_pow_le {u v x y x' y' : Nat} (h : u * 10 ^ x ≤ v * 10 ^ y) (hxy : x' + y ≤ x + y') :
    u * 10 ^ x' ≤ v * 10 ^ y' := by
  refine Nat.le_of_mul_le_mul_right ?_ (Nat.pow_pos (n := x) (by decide : 0 < 10))
  calc u * 10 ^ x' * 10 ^ x = u * 10 ^ x * 10 ^ x' := by ring
    _ ≤ v * 10 ^ y * 10 ^ x' := Nat.mul_le_mul_right _ h
    _ = v * 10 ^ (x' + y) := by ring
    _ ≤ v * 10 ^ (x + y') := Nat.mul_le_mul_left _ (Nat.pow_le_pow_right (by decide) hxy)
    _ = v * 10 ^ y' * 10 ^ x := by ring

/-! ## Magnitudes -/

theorem digitCount_le_iff {n k : Nat} : digitCount n ≤ k ↔ n < 10 ^ k := by
  unfold digitCount
  split
  · rename_i hzero
    rw [hzero]
    exact iff_of_true (Nat.zero_le k) (Nat.pow_pos (by decide))
  · rename_i hpos
    rcases Nat.eq_zero_or_pos k with rfl | hk
    · have hlength : 0 < (Nat.toDigits 10 n).length := List.length_pos_iff.mpr Nat.toDigits_ne_nil
      rw [Nat.pow_zero]
      omega
    · exact Nat.length_toDigits_le_iff (by decide) hk

namespace Interval

variable {i : Interval}

/-- The magnitude of a value that is at least 1. -/
theorem magnitude_of_le (h : i.den ≤ i.value) (hden : 0 < i.den) :
    ∃ k : Nat, i.magnitude = k ∧ i.den * 10 ^ k ≤ i.value ∧ i.value < i.den * 10 ^ (k + 1) := by
  have hone : 1 ≤ i.value / i.den := (Nat.one_le_div_iff hden).mpr h
  obtain ⟨k, hk⟩ : ∃ k, digitCount (i.value / i.den) = k + 1 := by
    refine Nat.exists_eq_succ_of_ne_zero fun hzero => ?_
    have hlt := digitCount_le_iff.mp (Nat.le_of_eq hzero)
    omega
  have hlow : 10 ^ k ≤ i.value / i.den :=
    Nat.le_of_not_lt fun hlt => absurd (digitCount_le_iff.mpr hlt) (by omega)
  have hhigh := digitCount_le_iff.mp (Nat.le_of_eq hk)
  refine ⟨k, ?_, ?_, ?_⟩
  · rw [magnitude, if_pos h, hk]
    omega
  · rw [Nat.mul_comm]
    exact (Nat.le_div_iff_mul_le hden).mp hlow
  · rw [Nat.mul_comm]
    exact (Nat.div_lt_iff_lt_mul hden).mp hhigh

/-- The magnitude of a value that is less than 1. -/
theorem magnitude_of_lt (h : i.value < i.den) (hvalue : 0 < i.value) :
    ∃ k : Nat, i.magnitude = -((k : Int) + 1) ∧ i.value * 10 ^ k < i.den ∧
      i.den ≤ i.value * 10 ^ (k + 1) := by
  have hdiv := Nat.div_add_mod (i.den + i.value - 1) i.value
  have hmod := Nat.mod_lt (i.den + i.value - 1) hvalue
  have hmagnitude : i.magnitude = -digitCount ((i.den + i.value - 1) / i.value - 1) :=
    if_neg (Nat.not_le_of_lt h)
  obtain ⟨c, hc⟩ : ∃ c, (i.den + i.value - 1) / i.value = c + 1 := by
    refine Nat.exists_eq_succ_of_ne_zero fun hzero => ?_
    rw [hzero, Nat.mul_zero] at hdiv
    omega
  rw [hc, Nat.mul_add, Nat.mul_one] at hdiv
  rw [hc, Nat.add_sub_cancel] at hmagnitude
  obtain ⟨k, hk⟩ : ∃ k, digitCount c = k + 1 := by
    refine Nat.exists_eq_succ_of_ne_zero fun hzero => ?_
    have hlt : c < 10 ^ 0 := digitCount_le_iff.mp (Nat.le_of_eq hzero)
    obtain rfl : c = 0 := by omega
    omega
  have hlow : 10 ^ k ≤ c :=
    Nat.le_of_not_lt fun hlt => absurd (digitCount_le_iff.mpr hlt) (by omega)
  have hhigh := digitCount_le_iff.mp (Nat.le_of_eq hk)
  refine ⟨k, ?_, ?_, ?_⟩
  · rw [hmagnitude, hk]
    omega
  · have hmul := Nat.mul_le_mul_left i.value hlow
    omega
  · have hmul := Nat.mul_le_mul_left i.value (Nat.succ_le_of_lt hhigh)
    rw [Nat.mul_succ] at hmul
    omega

/-- The value is at least the power of ten of its magnitude and less than the next one. -/
theorem magnitude_bounds (hden : 0 < i.den) (hvalue : 0 < i.value) :
    i.den * 10 ^ i.magnitude.toNat ≤ i.value * 10 ^ (-i.magnitude).toNat ∧
      i.value * 10 ^ (-(i.magnitude + 1)).toNat < i.den * 10 ^ (i.magnitude + 1).toNat := by
  rcases Nat.lt_or_ge i.value i.den with h | h
  · obtain ⟨k, hk, hlow, hhigh⟩ := magnitude_of_lt h hvalue
    rw [hk]
    rw [← Nat.mul_one i.den, ← Nat.pow_zero 10] at hlow hhigh
    exact ⟨mul_pow_le hhigh (by omega), mul_pow_lt hlow (by omega)⟩
  · obtain ⟨k, hk, hlow, hhigh⟩ := magnitude_of_le h hden
    rw [hk]
    rw [← Nat.mul_one i.value, ← Nat.pow_zero 10] at hlow hhigh
    exact ⟨mul_pow_le hlow (by omega), mul_pow_lt hhigh (by omega)⟩

/-! ## Grids -/

/-- **`i.Bounds c k`** — the decimal `c * 10 ^ k` has a digit, at most 17 of them or else it is
`10 ^ 17`, and does not exceed the upper end. -/
structure Bounds (i : Interval) (c : Nat) (k : Int) : Prop where
  pos : 0 < c
  le : c ≤ 10 ^ 17
  below : c * i.den * 10 ^ k.toNat ≤ i.high * 10 ^ (-k).toNat

theorem le_of_contains {c : Nat} (h : i.contains c = true) : c * i.den ≤ i.high := by
  unfold contains at h
  split at h
  · exact (Bool.and_eq_true_iff.mp h).2 |> of_decide_eq_true
  · exact Nat.le_of_lt ((Bool.and_eq_true_iff.mp h).2 |> of_decide_eq_true)

theorem nearest?_eq_some {c : Nat} (h : i.nearest? = some c) :
    i.contains c = true ∧ (c = i.value / i.den ∨ c = i.value / i.den + 1) := by
  unfold nearest? at h
  dsimp only at h
  split at h
  · rename_i hc _
    obtain rfl := Option.some.inj h
    exact ⟨hc, .inl rfl⟩
  · rename_i _ hc
    obtain rfl := Option.some.inj h
    exact ⟨hc, .inr rfl⟩
  · rename_i hc hc'
    have hboth : c = i.value / i.den ∨ c = i.value / i.den + 1 := by
      split at h
      · exact .inl (Option.some.inj h).symm
      split at h
      · exact .inr (Option.some.inj h).symm
      split at h
      · exact .inl (Option.some.inj h).symm
      · exact .inr (Option.some.inj h).symm
    refine ⟨?_, hboth⟩
    rcases hboth with rfl | rfl
    · exact hc
    · exact hc'
  · cases h

/-- A point around the value on a grid that is at most 16 digits finer than its magnitude. -/
theorem bounds_of_scaled {c : Nat} {k : Int} (hden : 0 < i.den) (hvalue : 0 < i.value)
    (hk : i.magnitude - 16 ≤ k) (hk' : k ≤ i.magnitude)
    (hc : c = (i.scaled k).value / (i.scaled k).den ∨ c = (i.scaled k).value / (i.scaled k).den + 1)
    (hhigh : c * (i.scaled k).den ≤ (i.scaled k).high) : i.Bounds c k := by
  obtain ⟨hlow, hlt⟩ := magnitude_bounds hden hvalue
  have hunit : 0 < i.den * 10 ^ k.toNat := Nat.mul_pos hden (Nat.pow_pos (by decide))
  have hone : 1 ≤ i.value * 10 ^ (-k).toNat / (i.den * 10 ^ k.toNat) :=
    (Nat.one_le_div_iff hunit).mpr (mul_pow_le hlow (by omega))
  have hdigits : i.value * 10 ^ (-k).toNat / (i.den * 10 ^ k.toNat) < 10 ^ 17 := by
    rw [Nat.div_lt_iff_lt_mul hunit]
    calc i.value * 10 ^ (-k).toNat < i.den * 10 ^ (k.toNat + 17) := mul_pow_lt hlt (by omega)
      _ = 10 ^ 17 * (i.den * 10 ^ k.toNat) := by ring
  replace hc : c = i.value * 10 ^ (-k).toNat / (i.den * 10 ^ k.toNat) ∨
    c = i.value * 10 ^ (-k).toNat / (i.den * 10 ^ k.toNat) + 1 := hc
  refine ⟨by omega, by omega, ?_⟩
  rw [Nat.mul_assoc]
  exact hhigh

theorem Bounds.dropZeros {c : Nat} {k : Int} (fuel : Nat) (h : i.Bounds c k) :
    i.Bounds (dropZeros fuel c k).1 (dropZeros fuel c k).2 ∧
      k ≤ (Double.dropZeros fuel c k).2 ∧ (Double.dropZeros fuel c k).2 ≤ k + fuel := by
  induction fuel generalizing c k with
  | zero => exact ⟨h, Int.le_refl k, by simp [Double.dropZeros]⟩
  | succ fuel ih =>
    unfold Double.dropZeros
    split
    · rename_i hten
      have hpos := h.pos
      have hle := h.le
      have hbelow : c / 10 * i.den * 10 ^ (k.toNat + 1) ≤ i.high * 10 ^ (-k).toNat := by
        refine Nat.le_trans (Nat.le_of_eq ?_) h.below
        calc c / 10 * i.den * 10 ^ (k.toNat + 1) = 10 * (c / 10) * i.den * 10 ^ k.toNat := by ring
          _ = c * i.den * 10 ^ k.toNat := by rw [Nat.mul_div_cancel' (Nat.dvd_of_mod_eq_zero hten)]
      have hbelow' : c / 10 * i.den * 10 ^ (k + 1).toNat ≤ i.high * 10 ^ (-(k + 1)).toNat :=
        mul_pow_le hbelow (by omega)
      obtain ⟨hbounds, hk, hk'⟩ := ih ⟨by omega, by omega, hbelow'⟩
      exact ⟨hbounds, by omega, by omega⟩
    · exact ⟨h, Int.le_refl k, by omega⟩

theorem search_bounds (hden : 0 < i.den) (hvalue : 0 < i.value) (hhigh : i.value ≤ i.high) {n : Nat}
    (hn : n ≤ 17) :
    i.Bounds (shortest.search i i.magnitude n).1 (shortest.search i i.magnitude n).2 ∧
      i.magnitude - 16 ≤ (shortest.search i i.magnitude n).2 ∧
      (shortest.search i i.magnitude n).2 ≤ i.magnitude + 17 := by
  induction n with
  | zero =>
    have hfloor : (i.scaled (i.magnitude - 16)).value / (i.scaled (i.magnitude - 16)).den *
        (i.scaled (i.magnitude - 16)).den ≤ (i.scaled (i.magnitude - 16)).high :=
      Nat.le_trans (Nat.div_mul_le_self _ _) (Nat.mul_le_mul_right _ hhigh)
    have hbounds := bounds_of_scaled hden hvalue (Int.le_refl _) (by omega) (.inl rfl) hfloor
    exact ⟨hbounds, Int.le_refl _, show i.magnitude - 16 ≤ i.magnitude + 17 by omega⟩
  | succ n ih =>
    unfold shortest.search
    dsimp only
    split
    · rename_i c hc
      obtain ⟨hcontains, hround⟩ := nearest?_eq_some hc
      have hbounds : i.Bounds c (i.magnitude + n - 16) :=
        bounds_of_scaled hden hvalue (by omega) (by omega) hround (le_of_contains hcontains)
      obtain ⟨hresult, hk, hk'⟩ := hbounds.dropZeros 17
      exact ⟨hresult, by omega, by omega⟩
    · exact ih (by omega)

end Interval

/-! ## Doubles -/

/-- The bits of the exponent. -/
def field (d : Double) : Nat :=
  ((d.bits >>> 52) &&& 0x7ff).toNat

/-- The bits of the significand. -/
def tail (d : Double) : Nat :=
  (d.bits &&& 0xfffffffffffff).toNat

/-- The bits of the significand with the leading one. -/
def significand (d : Double) : Nat :=
  if d.field = 0 then d.tail else d.tail + 2 ^ 52

/-- The exponent of a quarter of the last place. -/
def exponent (d : Double) : Int :=
  (max d.field 1 : Nat) - 1077

variable {d : Double}

theorem field_eq (d : Double) : d.field = d.bits.toNat / 2 ^ 52 % 2 ^ 11 := by
  rw [field, UInt64.toNat_and, UInt64.toNat_shiftRight, Nat.shiftRight_eq_div_pow]
  exact Nat.and_two_pow_sub_one_eq_mod _ 11

theorem tail_eq (d : Double) : d.tail = d.bits.toNat % 2 ^ 52 := by
  rw [tail, UInt64.toNat_and]
  exact Nat.and_two_pow_sub_one_eq_mod _ 52

theorem field_le (d : Double) : d.field ≤ 2046 := by
  have hlt : d.field < 2 ^ 11 := by
    rw [field_eq]
    exact Nat.mod_lt _ (by decide)
  have hne : d.field ≠ 2047 := fun heq => d.finite (UInt64.toNat_inj.mp heq)
  omega

theorem significand_lt (d : Double) : d.significand < 2 ^ 53 := by
  have htail : d.tail < 2 ^ 52 := by
    rw [tail_eq]
    exact Nat.mod_lt _ (by decide)
  unfold significand
  split <;> omega

theorem significand_pos (h : d.isZero = false) : 0 < d.significand := by
  refine Nat.pos_of_ne_zero fun hzero => ?_
  have hparts : d.field = 0 ∧ d.tail = 0 := by
    unfold significand at hzero
    split at hzero
    · exact ⟨‹_›, hzero⟩
    · omega
  rw [field_eq, tail_eq] at hparts
  have hshift : (d.bits <<< 1).toNat = d.bits.toNat * 2 % 2 ^ 64 := by
    rw [UInt64.toNat_shiftLeft, Nat.shiftLeft_eq]
    rfl
  have hbits : d.bits <<< 1 = 0 := by
    refine UInt64.toNat_inj.mp ?_
    rw [hshift]
    show _ = 0
    omega
  rw [isZero, hbits] at h
  exact absurd h (by decide)

theorem interval_value (d : Double) : d.interval.value = 4 * d.significand * 2 ^ d.exponent.toNat :=
  rfl

theorem interval_high (d : Double) :
    d.interval.high = (4 * d.significand + 2) * 2 ^ d.exponent.toNat :=
  rfl

theorem interval_den (d : Double) : d.interval.den = 2 ^ (-d.exponent).toNat :=
  rfl

theorem interval_den_pos (d : Double) : 0 < d.interval.den :=
  Nat.two_pow_pos _

theorem interval_value_pos (h : d.isZero = false) : 0 < d.interval.value := by
  have hpos := significand_pos h
  rw [interval_value]
  exact Nat.mul_pos (by omega) (Nat.two_pow_pos _)

theorem interval_value_le (d : Double) : d.interval.value ≤ d.interval.high := by
  rw [interval_value, interval_high]
  exact Nat.mul_le_mul_right _ (by omega)

/-- The magnitude of a double in very rough bounds. -/
theorem magnitude_range (h : d.isZero = false) :
    -1077 ≤ d.interval.magnitude ∧ d.interval.magnitude < 1024 := by
  have hfield := field_le d
  have hvalue := interval_value_pos h
  obtain ⟨hlow, hhigh⟩ := Interval.magnitude_bounds (interval_den_pos d) hvalue
  generalize d.interval.magnitude = p at *
  constructor
  · by_contra hsmall
    have hlt : 2 ^ (-(p + 1)).toNat < 2 ^ (-d.exponent).toNat :=
      calc 2 ^ (-(p + 1)).toNat ≤ 10 ^ (-(p + 1)).toNat := Nat.pow_le_pow_left (by decide) _
        _ ≤ d.interval.value * 10 ^ (-(p + 1)).toNat := Nat.le_mul_of_pos_left _ hvalue
        _ < d.interval.den * 10 ^ (p + 1).toNat := hhigh
        _ = 2 ^ (-d.exponent).toNat := by
          rw [interval_den, show (p + 1).toNat = 0 by omega, Nat.pow_zero, Nat.mul_one]
    have hexponent := (Nat.pow_lt_pow_iff_right (by decide)).mp hlt
    unfold exponent at hexponent
    omega
  · by_contra hbig
    have hsignificand := significand_lt d
    have hlt : 2 ^ p.toNat < 2 ^ (55 + d.exponent.toNat) :=
      calc 2 ^ p.toNat ≤ 10 ^ p.toNat := Nat.pow_le_pow_left (by decide) _
        _ ≤ d.interval.den * 10 ^ p.toNat := Nat.le_mul_of_pos_left _ (interval_den_pos d)
        _ ≤ d.interval.value * 10 ^ (-p).toNat := hlow
        _ = 4 * d.significand * 2 ^ d.exponent.toNat := by
          rw [interval_value, show (-p).toNat = 0 by omega, Nat.pow_zero, Nat.mul_one]
        _ < 2 ^ 55 * 2 ^ d.exponent.toNat :=
          Nat.mul_lt_mul_of_pos_right (by omega) (Nat.two_pow_pos _)
        _ = 2 ^ (55 + d.exponent.toNat) := (Nat.pow_add ..).symm
    have hexponent := (Nat.pow_lt_pow_iff_right (by decide)).mp hlt
    unfold exponent at hexponent
    omega

/-- The shortest decimal that rounds to a double other than zero. -/
theorem shortest_bounds (h : d.isZero = false) :
    d.interval.Bounds d.shortest.1 d.shortest.2 ∧ -1093 ≤ d.shortest.2 ∧ d.shortest.2 ≤ 1040 := by
  obtain ⟨hbounds, hlow, hhigh⟩ := Interval.search_bounds (interval_den_pos d) (interval_value_pos h)
    (interval_value_le d) (Nat.le_refl 17)
  obtain ⟨hp, hp'⟩ := magnitude_range h
  exact ⟨hbounds, Int.le_trans (by omega) hlow, Int.le_trans hhigh (by omega)⟩

/-- The double is one of the three greatest, of either sign. -/
def IsGreatest (d : Double) : Prop :=
  d.field = 2046 ∧ 2 ^ 53 - 4 < d.significand

theorem interval_high_le {n : Nat}
    (h : d.exponent.toNat < n ∨ d.exponent.toNat = n ∧ d.significand ≤ 2 ^ 53 - 4) :
    d.interval.high ≤ (2 ^ 55 - 14) * 2 ^ n := by
  have hsignificand := significand_lt d
  rw [interval_high]
  rcases h with hlt | ⟨rfl, hle⟩
  · calc (4 * d.significand + 2) * 2 ^ d.exponent.toNat
        ≤ 2 ^ 55 * 2 ^ d.exponent.toNat := Nat.mul_le_mul_right _ (by omega)
      _ = 2 ^ 54 * 2 ^ (d.exponent.toNat + 1) := by ring
      _ ≤ (2 ^ 55 - 14) * 2 ^ n :=
        Nat.mul_le_mul (by decide) (Nat.pow_le_pow_right (by decide) hlt)
  · exact Nat.mul_le_mul_right _ (by omega)

theorem exponent_lt (h : ¬ d.IsGreatest) :
    d.exponent.toNat < 969 ∨ d.exponent.toNat = 969 ∧ d.significand ≤ 2 ^ 53 - 4 := by
  have hfield := field_le d
  have hexponent : d.exponent.toNat = max d.field 1 - 1077 := by
    unfold exponent
    omega
  by_cases htop : d.field = 2046
  · have hle : ¬ 2 ^ 53 - 4 < d.significand := fun hlt => h ⟨htop, hlt⟩
    omega
  · omega

theorem interval_of_isGreatest (h : d.IsGreatest) :
    d.interval = ⟨(4 * d.significand - 2) * 2 ^ 969, 4 * d.significand * 2 ^ 969,
      (4 * d.significand + 2) * 2 ^ 969, 1, d.significand % 2 == 0⟩ := by
  obtain ⟨hfield, hsignificand⟩ := h
  have hexponent : d.exponent = 969 := by rw [exponent, hfield]; rfl
  have htail : ¬ (d.tail = 0 ∧ 1 < d.field) := by
    rintro ⟨htail, -⟩
    rw [significand, hfield, htail] at hsignificand
    exact absurd hsignificand (by decide)
  have hinterval : d.interval =
      ⟨(4 * d.significand - if d.tail = 0 ∧ 1 < d.field then 1 else 2) * 2 ^ d.exponent.toNat,
        4 * d.significand * 2 ^ d.exponent.toNat, (4 * d.significand + 2) * 2 ^ d.exponent.toNat,
        2 ^ (-d.exponent).toNat, d.significand % 2 == 0⟩ := rfl
  have hup : (969 : Int).toNat = 969 := rfl
  have hden : (-969 : Int).toNat = 0 := rfl
  rw [hinterval, if_neg htail, hexponent, hup, hden, Nat.pow_zero]

theorem safe_high : Rounding.Safe ((2 ^ 55 - 14) * 2 ^ 969) := by
  decide +kernel

/-- The shortest decimal is safely below the greatest double. -/
theorem safe_shortest (h : d.isZero = false) (hgreatest : ¬ d.IsGreatest) :
    Rounding.Safe (d.shortest.1 * 10 ^ d.shortest.2.toNat) := by
  obtain ⟨hbounds, -⟩ := shortest_bounds h
  refine safe_high.mono ?_
  rcases Int.lt_or_le d.shortest.2 0 with hneg | hpos
  · rw [show d.shortest.2.toNat = 0 by omega, Nat.pow_zero, Nat.mul_one]
    exact Nat.le_trans hbounds.le (by decide +kernel)
  · have hbelow := hbounds.below
    rw [show (-d.shortest.2).toNat = 0 by omega, Nat.pow_zero, Nat.mul_one] at hbelow
    calc d.shortest.1 * 10 ^ d.shortest.2.toNat
        ≤ d.shortest.1 * d.interval.den * 10 ^ d.shortest.2.toNat :=
          Nat.mul_le_mul_right _ (Nat.le_mul_of_pos_right _ (interval_den_pos d))
      _ ≤ d.interval.high := hbelow
      _ ≤ (2 ^ 55 - 14) * 2 ^ 969 := interval_high_le (exponent_lt hgreatest)

end AlertRules.Json.Double
