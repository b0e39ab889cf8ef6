import AlertRules.Proofs.Float.Range

/-!
# AlertRules.Proofs.Float.Bits — doubles and their bits

A double is finite when not all bits of its exponent are set (`unpack_cases`).  What is within 971 has
such bits (`exponent_pack_ne`), and reading them again gives something that is within the same exponent
(`within_unpack_pack`): the same number, if it is a normal one (`unpack_pack_normal`).
-/

namespace AlertRules.Rounding

open Float.Model Float.Model.UnpackedFloat

/-- The exponent of a double, as its bits are tested. -/
theorem exponent_eq_iff (b : UInt64) :
    (b >>> 52) &&& 0x7ff = 0x7ff ↔
      @unpackExponent Format.binary64 b.toBitVec = -1#_ := by
  have hfield : (@unpackExponent Format.binary64 b.toBitVec).toNat =
      b.toNat / 2 ^ 52 % 2 ^ 11 := by
    show (b.toBitVec.extractLsb' 52 11).toNat = _
    rw [BitVec.extractLsb'_toNat, Nat.shiftRight_eq_div_pow]
    rfl
  have htest : ((b >>> 52) &&& 0x7ff).toNat = b.toNat / 2 ^ 52 % 2 ^ 11 := by
    rw [UInt64.toNat_and, UInt64.toNat_shiftRight, Nat.shiftRight_eq_div_pow]
    exact Nat.and_two_pow_sub_one_eq_mod _ 11
  rw [← UInt64.toNat_inj, ← BitVec.toNat_inj, htest, hfield]
  exact Iff.rfl

theorem finite_congr {s : Sign} {m m' : Nat} {e e' : Int} {h : 0 < m} {h' : 0 < m'}
    (hm : m = m') (he : e = e') : UnpackedFloat.finite s m e h = .finite s m' e' h' := by
  subst hm he
  rfl

/-- What the bits of a finite double stand for. -/
theorem unpack_cases {b : BitVec Format.binary64.numBits} (h : unpackExponent b ≠ -1#_) :
    ((unpackExponent b).toNat = 0 ∧ ∃ s, UnpackedFloat.unpack Format.binary64 b = .zero s) ∨
      ((unpackExponent b).toNat = 0 ∧ ∃ s h,
        UnpackedFloat.unpack Format.binary64 b = .finite s (unpackMantissa b).toNat (-1074) h) ∨
      ((unpackExponent b).toNat ≠ 0 ∧ ∃ s h,
        UnpackedFloat.unpack Format.binary64 b =
          .finite s (2 ^ 52 + (unpackMantissa b).toNat) ((unpackExponent b).toNat - 1075) h) := by
  have hmantissa := (unpackMantissa b).isLt
  unfold UnpackedFloat.unpack
  dsimp only
  rw [if_neg h]
  by_cases hzero : unpackExponent b = 0#11
  · have hnat : (unpackExponent b).toNat = 0 := congrArg BitVec.toNat hzero
    by_cases hm : unpackMantissa b = 0#52
    · exact .inl ⟨hnat, _, (if_pos hzero).trans (dif_pos hm)⟩
    · have hpos : 0 < (unpackMantissa b).toNat :=
        Nat.pos_of_ne_zero fun heq => hm (BitVec.eq_of_toNat_eq heq)
      have hexponent : ((unpackExponent b).toNat : Int) - (1023 + 52) + 1 = -1074 := by omega
      exact .inr (.inl ⟨hnat, Sign.ofBitVec (unpackSign b), hpos,
        (if_pos hzero).trans ((dif_neg hm).trans (finite_congr rfl hexponent))⟩)
  · have hnat : (unpackExponent b).toNat ≠ 0 := fun heq => hzero (BitVec.eq_of_toNat_eq heq)
    have hm : (1#1 ++ unpackMantissa b).toNat = 2 ^ 52 + (unpackMantissa b).toNat := by
      rw [BitVec.toNat_append, ← Nat.shiftLeft_add_eq_or_of_lt hmantissa]
      rfl
    have hpos : 0 < 2 ^ 52 + (unpackMantissa b).toNat := by omega
    exact .inr (.inr ⟨hnat, Sign.ofBitVec (unpackSign b), hpos,
      (if_neg hzero).trans (finite_congr hm rfl)⟩)

/-- The bits of a number that is within 971. -/
theorem pack_finite {s : Sign} {m : Nat} {e : Int} {h : 0 < m} (he : e ≤ 971) :
    UnpackedFloat.pack Format.binary64 (.finite s m e h) =
      packComponents Format.binary64 s
        (BitVec.ofNat 11 (if m.log2 = 52 then (e + 1075).toNat else 0)) (BitVec.ofNat 52 m) := by
  have hbias : (e + Format.binary64.exponentBias + Format.binary64.mantissaBitsWithoutImplicit).toNat =
      (e + 1075).toNat := by
    show (e + 1023 + 52).toNat = _
    omega
  unfold UnpackedFloat.pack
  dsimp only
  rw [hbias, if_neg (show ¬ 2 ^ 11 ≤ (e + 1075).toNat + 1 by omega)]
  by_cases hlog : m.log2 = 52
  · rw [if_pos hlog, if_pos (show m.log2 + 1 = Format.binary64.mantissaBits from
      congrArg Nat.succ hlog)]
  · rw [if_neg hlog, if_neg (show ¬ m.log2 + 1 = Format.binary64.mantissaBits from
      fun heq => hlog (Nat.succ.inj heq))]

theorem exponent_pack_ne {v : UnpackedFloat} (h : Within 971 v) :
    unpackExponent (UnpackedFloat.pack Format.binary64 v) ≠ -1#_ := by
  cases v with
  | zero s =>
    show unpackExponent (packComponents Format.binary64 s 0 0) ≠ _
    rw [unpackExponent_packComponents]
    decide
  | finite s m e _ =>
    have he := h.2
    rw [pack_finite he, unpackExponent_packComponents]
    intro heq
    have hnat : (if m.log2 = 52 then (e + 1075).toNat else 0) % 2048 = 2047 :=
      congrArg BitVec.toNat heq
    split at hnat <;> omega
  | _ => exact h.elim

theorem within_unpack_pack {n : Int} {v : UnpackedFloat} (h : Within n v) (hlow : -1074 ≤ n)
    (hn : n ≤ 971) :
    Within n (UnpackedFloat.unpack Format.binary64 (UnpackedFloat.pack Format.binary64 v)) := by
  cases v with
  | zero s => cases s <;> trivial
  | finite s m e hpos =>
    obtain ⟨hm, he⟩ := h
    have hne := exponent_pack_ne (v := .finite s m e hpos) ⟨hm, Int.le_trans he hn⟩
    have hpack := pack_finite (s := s) (m := m) (h := hpos) (Int.le_trans he hn)
    rw [hpack] at hne ⊢
    have hexponent : (BitVec.ofNat 11 (if m.log2 = 52 then (e + 1075).toNat else 0)).toNat =
        (if m.log2 = 52 then (e + 1075).toNat else 0) % 2048 := rfl
    have hmantissa : (BitVec.ofNat 52 m).toNat < 2 ^ 52 := (BitVec.ofNat 52 m).isLt
    have hunpack := unpack_cases hne
    rw [unpackExponent_packComponents, unpackMantissa_packComponents] at hunpack
    rcases hunpack with ⟨-, t, hzero⟩ | ⟨-, t, _, heq⟩ | ⟨hfield, t, _, heq⟩
    · rw [hzero]
      trivial
    · rw [heq]
      exact ⟨by omega, hlow⟩
    · rw [heq, hexponent]
      rw [hexponent] at hfield
      refine ⟨by omega, ?_⟩
      split at hfield
      · rw [if_pos ‹_›]
        omega
      · omega
  | _ => exact h.elim

theorem unpack_pack_normal {s : Sign} {m : Nat} {e : Int} {h : 0 < m} (hm : 2 ^ 52 ≤ m)
    (hm' : m < 2 ^ 53) (he : -1074 ≤ e) (he' : e ≤ 971) :
    ∃ t, UnpackedFloat.unpack Format.binary64 (UnpackedFloat.pack Format.binary64 (.finite s m e h)) =
      .finite t m e h := by
  have hlog : m.log2 = 52 := (Nat.log2_eq_iff h.ne').mpr ⟨hm, hm'⟩
  have hne := exponent_pack_ne (v := .finite s m e h) ⟨hm', he'⟩
  have hpack := pack_finite (s := s) (m := m) (h := h) he'
  rw [if_pos hlog] at hpack
  rw [hpack] at hne ⊢
  have hexponent : (BitVec.ofNat 11 (e + 1075).toNat).toNat = (e + 1075).toNat % 2048 := rfl
  have hmantissa : (BitVec.ofNat 52 m).toNat = m % 2 ^ 52 := rfl
  have hunpack := unpack_cases hne
  rw [unpackExponent_packComponents, unpackMantissa_packComponents] at hunpack
  rcases hunpack with ⟨hfield, -⟩ | ⟨hfield, -⟩ | ⟨-, t, hpos, heq⟩
  · omega
  · omega
  · refine ⟨t, ?_⟩
    rw [heq]
    exact finite_congr (by omega) (by omega)

end AlertRules.Rounding
