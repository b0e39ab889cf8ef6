import AlertRules.Proofs.Float.Near
import AlertRules.Proofs.Json.Numerals

/-!
# AlertRules.Proofs.Json.Scaling — numerals that are in range

A significand of 64 bits times a power of ten is a finite double, unless it comes close to the greatest
one (`exists_scale`).  It is rounded three times on the way: as a significand, as a power of ten, and as
their product or quotient.  So a numeral has a value if its digits fit a word and it is in range
(`exists_value?`).
-/

namespace AlertRules.Json.Numeral

open Float.Model Float.Model.UnpackedFloat Rounding

/-- The double is within the exponent. -/
def Small (f : Float) (n : Int) : Prop :=
  Within n f.toModel.unpack

theorem Small.mono {f : Float} {n n' : Int} (h : Small f n) (hn : n ≤ n') : Small f n' :=
  Within.mono h hn

theorem small_zero : Small 0 971 := by
  show Within 971 (Float.toModel 0).unpack
  rw [show (Float.toModel 0).unpack = .zero .positive from rfl]
  trivial

/-! ## Arithmetic -/

theorem Small.of_unpack_pack {v : UnpackedFloat} {n : Int} {f : Float}
    (hf : f = .ofModel (.pack v)) (h : Within n v) (hlow : -1074 ≤ n) (hn : n ≤ 971) : Small f n := by
  subst hf
  exact within_unpack_pack h hlow hn

theorem Small.signed {f : Float} (h : Small f 971) (negative : Bool) :
    Small (signed negative f) 971 := by
  cases negative with
  | true => exact .of_unpack_pack rfl (within_neg h) (by decide) (by decide)
  | false => exact h

theorem Small.div {f g : Float} {n : Int} {k : Nat} (hf : Small f n) (hg : Near k g.toModel.unpack)
    (hlow : -1073 ≤ n) (hn : n + 53 ≤ 971) : Small (f / g) (n + 53) := by
  obtain ⟨s, m, e, hpos, heq, -, -, he, -⟩ := hg
  refine .of_unpack_pack rfl ?_ (by omega) hn
  show Within (n + 53) (UnpackedFloat.div Format.binary64 f.toModel.unpack g.toModel.unpack)
  rw [heq]
  exact within_div hf (by omega) hlow

theorem small_mul {f g : Float} {n₁ n₂ : Nat} (hf : Near n₁ f.toModel.unpack)
    (hg : Near n₂ g.toModel.unpack)
    (hsafe : Safe (n₁ * n₂)) : Small (f * g) 971 := by
  refine .of_unpack_pack rfl ?_ (by decide) (by decide)
  by_cases hlog : 104 ≤ n₁.log2 + n₂.log2
  · exact hf.within_mul hg hlog hsafe
  · exact within_mul hf.within hg.within (by omega) (by decide)

/-- A double is finite if it is within 971. -/
theorem Small.exists_double {f : Float} (h : Small f 971) : ∃ d, Double.ofFloat? f = some d := by
  refine ⟨_, dif_pos fun hbits => ?_⟩
  have hexponent := (exponent_eq_iff f.toBits).mp hbits
  have hf : f.toModel.unpack = UnpackedFloat.unpack Format.binary64 f.toBits.toBitVec := rfl
  rw [Small, hf] at h
  unfold UnpackedFloat.unpack at h
  dsimp only at h
  rw [if_pos hexponent] at h
  split at h <;> exact h

/-! ## Significands and powers of ten -/

theorem near_toFloat {n : Nat} (h0 : n ≠ 0) (hn : n < 2 ^ 64) :
    Near n n.toUInt64.toFloat.toModel.unpack := by
  have hlog : n.log2 < 64 := (Nat.log2_lt h0).mpr hn
  have hnat : n.toUInt64.toNat = n := Nat.mod_eq_of_lt hn
  refine Near.unpack_pack ?_ (by omega)
  show Near n (UnpackedFloat.normalize Format.binary64 n.toUInt64.toNat 0 .positive)
  have hcompare : compare (n : Int) 0 = .gt := compare_gt_iff_gt.mpr (by omega)
  rw [hnat, UnpackedFloat.normalize, hcompare]
  show Near n (UnpackedFloat.round Format.binary64 .positive n 0)
  have hshift : (0 - max ((n.log2 : Int) + 0 - 52) (-1074)).toNat = 52 - n.log2 := by omega
  rw [UnpackedFloat.round, targetExponent_eq, decreaseExponent, hshift, Nat.shiftLeft_eq, Int.zero_sub]
  exact near_round .positive h0 (by omega)

instance decidableNear (n : Nat) : (v : UnpackedFloat) → Decidable (Near n v)
  | .finite s m e h =>
    decidable_of_iff (2 ^ 52 ≤ m ∧ m < 2 ^ 53 ∧ (n.log2 : Int) - 52 ≤ e ∧ e ≤ (n.log2 : Int) - 51 ∧
        2 ^ 53 * (m * 2 ^ (e + 52).toNat) ≤ (2 ^ 53 + 1) * (n * 2 ^ 52)) <| by
      constructor
      · intro hall
        exact ⟨s, m, e, h, rfl, hall⟩
      · rintro ⟨t, m', e', h', heq, hall⟩
        cases heq
        exact hall
  | .zero _ => .isFalse fun ⟨_, _, _, _, heq, _⟩ => by cases heq
  | .infinity _ => .isFalse fun ⟨_, _, _, _, heq, _⟩ => by cases heq
  | .notANumber => .isFalse fun ⟨_, _, _, _, heq, _⟩ => by cases heq

theorem near_smallPowerOfTen : ∀ k < 23, Near (10 ^ k) (powerOfTen k).toModel.unpack := by
  decide +kernel

theorem near_greatestPowerOfTen : Near (10 ^ 308) (powerOfTen 308).toModel.unpack := by
  decide +kernel

theorem log2_pow_le {k l n : Nat} (hk : k ≤ l) (hl : 10 ^ l < 2 ^ (n + 1)) : (10 ^ k).log2 ≤ n :=
  log2_le_of_lt (Nat.lt_of_le_of_lt (Nat.pow_le_pow_right (by decide) hk) hl)

/-- Each power of ten that is a double is near its double. -/
theorem near_powerOfTen {k : Nat} (hk : k ≤ 308) : Near (10 ^ k) (powerOfTen k).toModel.unpack := by
  by_cases hsmall : k < 23
  · exact near_smallPowerOfTen k hsmall
  by_cases hgreatest : k = 308
  · exact hgreatest ▸ near_greatestPowerOfTen
  have hlog : (10 ^ k).log2 ≤ 1022 := log2_pow_le (l := 307) (by omega) (by decide +kernel)
  have hpower : powerOfTen k = .ofModel (.ofScientific 1 k) :=
    dif_neg fun h => hsmall (Nat.lt_succ_of_le h.2)
  rw [hpower]
  refine Near.unpack_pack ?_ hlog
  rw [UnpackedFloat.ofScientific, dif_neg Nat.one_ne_zero,
    if_neg (show ¬ (k : Int) > 2 ^ 11 by omega),
    if_neg (show ¬ (k : Int) < -(2 ^ 11 + (Nat.log2 1 : Nat)) by omega),
    if_pos (Int.natCast_nonneg k)]
  show Near (10 ^ k) (roundWithAccuracy Format.binary64 _ ((1 <<< 53) * 10 ^ k) (-(53 : Nat)) .exact)
  rw [Nat.shiftLeft_eq, Nat.one_mul, Nat.mul_comm]
  exact near_round _ (Nat.pow_pos (by decide)).ne' (by omega)

/-! ## Numerals -/

theorem pow_le_mul_pow {n k l : Nat} (hn : n ≠ 0) (hk : k ≤ l) : 10 ^ k ≤ n * 10 ^ l :=
  Nat.le_trans (Nat.pow_le_pow_right (by decide) hk) (Nat.le_mul_of_pos_left _ (Nat.pos_of_ne_zero hn))

theorem not_safe_pow : ¬ Safe (10 ^ 309) := by
  decide +kernel

/-- A significand times a power of ten is a double, if it is safely below the greatest one. -/
theorem exists_scale {significand : Nat} {exponent : Int} (hsize : significand < 2 ^ 64)
    (hsafe : Safe (significand * 10 ^ exponent.toNat)) :
    ∃ f, scale significand exponent = some f ∧ Small f 971 := by
  unfold scale
  dsimp only
  by_cases hzero : significand = 0
  · exact ⟨0, if_pos hzero, small_zero⟩
  rw [if_neg hzero]
  have hnear := near_toFloat hzero hsize
  have hsmall : Small significand.toUInt64.toFloat 12 := by
    have hlog : significand.log2 < 64 := (Nat.log2_lt hzero).mpr hsize
    exact hnear.within.mono (by omega)
  have htop : exponent ≤ 308 := by
    by_contra hbig
    exact not_safe_pow (hsafe.mono (pow_le_mul_pow hzero (by omega)))
  rw [if_neg (by omega)]
  split
  · exact ⟨_, rfl, small_mul hnear (near_powerOfTen (by omega)) hsafe⟩
  split
  · exact ⟨_, rfl, (hsmall.div (near_powerOfTen (by omega)) (by decide) (by decide)).mono (by decide)⟩
  split
  · have hfirst := hsmall.div (near_powerOfTen (k := 308) (by decide)) (by decide) (by decide)
    have hsecond := hfirst.div (near_powerOfTen (k := (-exponent - 308).toNat) (by omega))
      (by decide) (by decide)
    exact ⟨_, rfl, hsecond.mono (by decide)⟩
  · exact ⟨0, rfl, small_zero⟩

/-- The number that all digits before the exponent spell. -/
def significand (n : Numeral) : Nat :=
  magnitudeOf (n.whole ++ n.fraction.getD [])

/-- The value of an exponent as it is written. -/
def writtenExponent : Option (Bool × List Nat) → Int
  | none => 0
  | some (true, ds) => -magnitudeOf ds
  | some (false, ds) => magnitudeOf ds

/-- The power of ten that the last digit before the exponent stands for. -/
def power (n : Numeral) : Int :=
  writtenExponent n.exponent - (n.fraction.getD []).length

theorem doubleValue?_eq {n : Numeral} (hsize : n.significand < 2 ^ 64)
    (hlimit : ∀ below ds, n.exponent = some (below, ds) → magnitudeOf ds ≤ exponentLimit) :
    n.doubleValue? =
      (scale n.significand n.power).bind fun f => Double.ofFloat? (signed n.negative f) := by
  have hfold : (n.fraction.getD []).foldl (fun acc d => 10 * acc + d) (magnitudeOf n.whole) =
      n.significand := List.foldl_append.symm
  have hfraction : absorb (magnitudeOf n.whole) (n.fraction.getD []) = (n.significand, []) := by
    rw [absorb_eq (by rwa [hfold]), hfold]
  have hwhole : absorb 0 n.whole = (magnitudeOf n.whole, []) :=
    absorb_eq (Nat.lt_of_le_of_lt (hfold ▸ le_foldl_digits _ _) hsize)
  have hshift : (([] : List Nat).length : Int) -
      ((n.fraction.getD []).length - ([] : List Nat).length : Nat) = -(n.fraction.getD []).length :=
    Int.zero_sub _
  unfold doubleValue? power
  rw [hwhole]
  dsimp only
  rw [hfraction]
  dsimp only
  rw [hshift]
  split
  · rename_i hexponent
    rw [hexponent, writtenExponent, Int.zero_sub]
  · rename_i below ds hexponent
    rw [if_pos (hlimit below ds hexponent), hexponent]
    cases below with
    | true => rw [if_pos rfl, writtenExponent, Int.sub_eq_add_neg, Int.sub_eq_add_neg, Int.add_comm]
    | false => rw [if_neg Bool.false_ne_true, writtenExponent, Int.sub_eq_add_neg, Int.add_comm]

/-- A numeral of a magnitude that [`exists_scale`] allows has a value. -/
theorem exists_value? {n : Numeral} (hsize : n.significand < 2 ^ 64)
    (hlimit : ∀ below ds, n.exponent = some (below, ds) → magnitudeOf ds ≤ exponentLimit)
    (hsafe : Safe (n.significand * 10 ^ n.power.toNat)) :
    ∃ v, n.value? = some v := by
  obtain ⟨f, hscale, hsmall⟩ := exists_scale hsize hsafe
  obtain ⟨d, hd⟩ := (hsmall.signed n.negative).exists_double
  have hvalue : n.doubleValue? = some d := by
    rw [doubleValue?_eq hsize hlimit, hscale]
    exact hd
  unfold value?
  split
  · exact ⟨_, rfl⟩
  · exact ⟨.double d, by rw [hvalue]; rfl⟩

end AlertRules.Json.Numeral
