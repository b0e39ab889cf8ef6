import Mathlib.Data.List.TakeWhile
import AlertRules.Json.Shortest
import AlertRules.Json.Token

/-!
# AlertRules.Proofs.Json.Numerals — numbers that read back

A number is **stable** if its text reads back as the same number.  Every integer is
(`stable_int`).  A double that was chosen as the shortest decimal is read by other rules than it was
written by, so for doubles this is a condition.

What spells a numeral consists of numeral characters and begins like one (`numeralChars_of_ofChars?`),
which is what the scanner has to know.
-/

namespace AlertRules.Json

/-- The text of the number reads back as the number. -/
def Number.Stable (n : Number) : Prop :=
  (Numeral.ofChars? n.text.toList).bind Numeral.value? = some n

namespace Numeral

/-! ## The characters of a numeral -/

/-- Every character may stand in a numeral. -/
def NumeralChars (cs : List Char) : Prop :=
  ∀ c ∈ cs, Scanner.isNumeralChar c = true

theorem numeralChars_takeDigits {cs rest : List Char} {ds : List Nat}
    (h : takeDigits cs = (ds, rest)) (hrest : NumeralChars rest) : NumeralChars cs := by
  simp only [takeDigits, Prod.mk.injEq] at h
  rw [← List.takeWhile_append_dropWhile (p := Char.isDigit) (l := cs), h.2]
  intro c hc
  rcases List.mem_append.mp hc with hc | hc
  · rw [Scanner.isNumeralChar, List.all_eq_true.mp List.all_takeWhile c hc]
    rfl
  · exact hrest c hc

theorem numeralChars_sign {cs : List Char} {p : Bool × List Char}
    (hp : (match cs with
      | '-' :: cs => (true, cs)
      | '+' :: cs => (false, cs)
      | cs => (false, cs)) = p) (h : NumeralChars p.2) : NumeralChars cs := by
  subst hp
  split at h
  · exact List.forall_mem_cons.mpr ⟨by decide, h⟩
  · exact List.forall_mem_cons.mpr ⟨by decide, h⟩
  · exact h

theorem numeralChars_takeExponent? {cs : List Char} {e : Option (Bool × List Nat)}
    (h : takeExponent? cs = some (e, [])) : NumeralChars cs := by
  unfold takeExponent? at h
  split at h
  · rename_i c cs
    split at h
    · rename_i hc
      have hhead : Scanner.isNumeralChar c = true := by
        rcases hc with rfl | rfl <;> decide
      refine List.forall_mem_cons.mpr ⟨hhead, ?_⟩
      dsimp only at h
      split at h
      · simp at h
      · rename_i es rest _ hds
        simp only [Option.some.injEq, Prod.mk.injEq] at h
        have hnil : NumeralChars rest := h.2 ▸ fun c hc => absurd hc List.not_mem_nil
        exact numeralChars_sign rfl (numeralChars_takeDigits hds hnil)
    · simp at h
  · exact fun c hc => absurd hc List.not_mem_nil

theorem numeralChars_takeFraction? {cs rest : List Char} {f : Option (List Nat)}
    (h : takeFraction? cs = some (f, rest)) (hrest : NumeralChars rest) : NumeralChars cs := by
  unfold takeFraction? at h
  split at h
  · rename_i cs
    split at h
    · simp at h
    · rename_i ds r _ hds
      simp only [Option.some.injEq, Prod.mk.injEq] at h
      have htail := numeralChars_takeDigits hds (h.2 ▸ hrest)
      exact List.forall_mem_cons.mpr ⟨by decide, htail⟩
  · simp only [Option.some.injEq, Prod.mk.injEq] at h
    exact h.2 ▸ hrest

/-- The parts of a numeral are read one behind the other. -/
theorem unsigned?_eq_some {negative : Bool} {cs : List Char} {n : Numeral}
    (h : unsigned? negative cs = some n) :
    ∃ rest rest', takeDigits cs = (n.whole, rest) ∧ n.whole ≠ [] ∧
      takeFraction? rest = some (n.fraction, rest') ∧
        takeExponent? rest' = some (n.exponent, []) := by
  unfold unsigned? at h
  split at h
  · simp at h
  · simp at h
  · rename_i whole rest hne _ hdigits
    split at h
    · simp at h
    · rename_i fraction rest' hfraction
      split at h
      · rename_i exponent hexponent
        simp only [Option.some.injEq] at h
        subst h
        refine ⟨rest, rest', hdigits, fun hnil => ?_, hfraction, hexponent⟩
        subst hnil
        exact absurd rfl hne
      · simp at h

theorem numeralChars_of_unsigned? {negative : Bool} {cs : List Char} {n : Numeral}
    (h : unsigned? negative cs = some n) : NumeralChars cs := by
  obtain ⟨rest, rest', hdigits, -, hfraction, hexponent⟩ := unsigned?_eq_some h
  have hrest := numeralChars_takeFraction? hfraction (numeralChars_takeExponent? hexponent)
  exact numeralChars_takeDigits hdigits hrest

/-- What spells a numeral consists of numeral characters. -/
theorem numeralChars_of_ofChars? {cs : List Char} {n : Numeral} (h : ofChars? cs = some n) :
    NumeralChars cs := by
  unfold ofChars? at h
  split at h
  · exact List.forall_mem_cons.mpr ⟨by decide, numeralChars_of_unsigned? h⟩
  · exact numeralChars_of_unsigned? h

/-- What spells a numeral begins with its sign or a digit. -/
theorem head_of_ofChars? {cs : List Char} {n : Numeral} (h : ofChars? cs = some n) :
    ∃ c rest, cs = c :: rest ∧ (c = '-' ∨ c.isDigit = true) := by
  unfold ofChars? at h
  split at h
  · exact ⟨'-', _, rfl, Or.inl rfl⟩
  · obtain ⟨rest, rest', hdigits, hne, -⟩ := unsigned?_eq_some h
    simp only [takeDigits, Prod.mk.injEq] at hdigits
    cases cs with
    | nil => exact absurd hdigits.1.symm hne
    | cons c cs =>
      refine ⟨c, cs, rfl, Or.inr ?_⟩
      rw [List.takeWhile_cons] at hdigits
      split at hdigits
      · assumption
      · exact absurd hdigits.1.symm hne

end Numeral

/-! ## Integers -/

/-- The values of the decimal digits of `m`. -/
def digitValues (m : Nat) : List Nat :=
  (Nat.toDigits 10 m).map fun c => c.toNat - 48

theorem head_toDigits_ne_zero {m : Nat} (hm : 0 < m) : (Nat.toDigits 10 m).head? ≠ some '0' := by
  induction m using Nat.strongRecOn with
  | _ m ih =>
    rw [Nat.toDigits_eq_if (by decide)]
    split
    · rename_i hlt
      have hdigit : ∀ k, k < 10 → 0 < k → some (Nat.digitChar k) ≠ some '0' := by decide
      exact hdigit m hlt hm
    · have hrest := ih (m / 10) (by omega) (by omega)
      obtain ⟨c, cs, hcs⟩ := List.exists_cons_of_ne_nil (Nat.toDigits_ne_nil (n := m / 10) (b := 10))
      rw [hcs] at hrest ⊢
      exact hrest

theorem isDigit_of_mem_toDigits {m : Nat} : ∀ c ∈ Nat.toDigits 10 m, c.isDigit = true :=
  fun _ hc => Nat.isDigit_of_mem_toDigits (by decide) (by decide) hc

theorem takeDigits_toDigits (m : Nat) :
    Numeral.takeDigits (Nat.toDigits 10 m) = (digitValues m, []) := by
  have htake : (Nat.toDigits 10 m).takeWhile Char.isDigit = Nat.toDigits 10 m :=
    List.takeWhile_eq_self_iff.mpr isDigit_of_mem_toDigits
  have hdrop : (Nat.toDigits 10 m).dropWhile Char.isDigit = [] :=
    List.dropWhile_eq_nil_iff.mpr isDigit_of_mem_toDigits
  rw [Numeral.takeDigits, htake, hdrop, digitValues]

/-- The digits of a number begin with a zero only if there is no other digit. -/
theorem digitValues_ne_zero_cons {m d : Nat} {ds : List Nat} : digitValues m ≠ 0 :: d :: ds := by
  intro h
  rcases Nat.eq_zero_or_pos m with rfl | hm
  · rw [digitValues, Nat.toDigits_zero] at h
    simp at h
  · obtain ⟨c, cs, hcs⟩ := List.exists_cons_of_ne_nil (Nat.toDigits_ne_nil (n := m) (b := 10))
    have hc := isDigit_of_mem_toDigits c (hcs ▸ List.mem_cons_self)
    have hne := head_toDigits_ne_zero hm
    rw [digitValues, hcs, List.map_cons] at h
    rw [hcs, List.head?_cons] at hne
    have hzero : c.toNat - 48 = 0 := (List.cons.inj h).1
    have hrange := Char.isDigit_iff_toNat.mp hc
    refine hne (congrArg some (Char.toNat_inj.mp ?_))
    have h48 : '0'.toNat = 48 := rfl
    omega

/-- Digits alone are the whole of a numeral. -/
theorem unsigned?_toDigits (negative : Bool) (m : Nat) :
    Numeral.unsigned? negative (Nat.toDigits 10 m) =
      some ⟨negative, digitValues m, none, none⟩ := by
  unfold Numeral.unsigned?
  rw [takeDigits_toDigits]
  split
  · rename_i heq
    simp only [Prod.mk.injEq, digitValues, List.map_eq_nil_iff] at heq
    exact absurd heq.1 Nat.toDigits_ne_nil
  · rename_i heq
    exact absurd (Prod.mk.inj heq).1 digitValues_ne_zero_cons
  · rename_i heq
    obtain ⟨rfl, rfl⟩ := Prod.mk.inj heq
    rfl

theorem ofChars?_toDigits (m : Nat) :
    Numeral.ofChars? (Nat.toDigits 10 m) = some ⟨false, digitValues m, none, none⟩ := by
  rw [← unsigned?_toDigits, Numeral.ofChars?]
  intro cs heq
  have hminus := isDigit_of_mem_toDigits '-' (heq ▸ List.mem_cons_self)
  exact absurd hminus (by decide)

theorem ofChars?_neg_toDigits (m : Nat) :
    Numeral.ofChars? ('-' :: Nat.toDigits 10 m) = some ⟨true, digitValues m, none, none⟩ :=
  unsigned?_toDigits true m

theorem le_foldl_digits (ds : List Nat) (acc : Nat) :
    acc ≤ ds.foldl (fun acc d => 10 * acc + d) acc := by
  induction ds generalizing acc with
  | nil => exact Nat.le_refl _
  | cons d ds ih =>
    have hle := ih (10 * acc + d)
    rw [List.foldl_cons]
    omega

theorem absorb_eq {ds : List Nat} {acc : Nat}
    (h : ds.foldl (fun acc d => 10 * acc + d) acc < UInt64.size) :
    Numeral.absorb acc ds = (ds.foldl (fun acc d => 10 * acc + d) acc, []) := by
  induction ds generalizing acc with
  | nil => rfl
  | cons d ds ih =>
    rw [List.foldl_cons] at h ⊢
    rw [Numeral.absorb, if_pos (Nat.lt_of_le_of_lt (le_foldl_digits ds _) h)]
    exact ih h

theorem absorb_digitValues {m : Nat} (hm : m < UInt64.size) :
    Numeral.absorb 0 (digitValues m) = (m, []) := by
  have hval : (digitValues m).foldl (fun acc d => 10 * acc + d) 0 = m := by
    have hof := Nat.ofDigitChars_toDigits (b := 10) (n := m) (by decide) (by decide)
    rw [Nat.ofDigitChars_eq_foldl] at hof
    rw [digitValues, List.foldl_map]
    exact hof
  rw [absorb_eq (by rw [hval]; exact hm), hval]

theorem ofInt?_eq {i k : Int} (h : -9223372036854775808 ≤ i ∧ i < 18446744073709551616) (hk : k = i) :
    Number.ofInt? k = some (.int i h) := by
  subst hk
  rw [Number.ofInt?, dif_pos h]

theorem value?_of_integer? {n : Numeral} {i : Number} (h : n.integer? = some i) :
    n.value? = some i := by
  rw [Numeral.value?, h]

/-- Digits alone are read as an integer. -/
theorem value?_digitValues {m : Nat} (hm : m < UInt64.size) {i : Int}
    (h : -9223372036854775808 ≤ i ∧ i < 18446744073709551616) (hi : (m : Int) = i) :
    Numeral.value? ⟨false, digitValues m, none, none⟩ = some (.int i h) := by
  refine value?_of_integer? ?_
  unfold Numeral.integer?
  dsimp only
  rw [absorb_digitValues hm]
  dsimp only
  rw [if_neg Bool.false_ne_true]
  exact ofInt?_eq h hi

/-- Digits behind a minus sign are read as an integer, unless it is zero. -/
theorem value?_neg_digitValues {m : Nat} (hm : m < UInt64.size) (hpos : m ≠ 0) {i : Int}
    (h : -9223372036854775808 ≤ i ∧ i < 18446744073709551616) (hi : -(m : Int) = i) :
    Numeral.value? ⟨true, digitValues m, none, none⟩ = some (.int i h) := by
  refine value?_of_integer? ?_
  unfold Numeral.integer?
  dsimp only
  rw [absorb_digitValues hm]
  dsimp only
  rw [if_pos rfl, if_neg hpos]
  exact ofInt?_eq h hi

/-- An integer is stable. -/
theorem stable_int (i : Int) (h : -9223372036854775808 ≤ i ∧ i < 18446744073709551616) : (Number.int i h).Stable := by
  have hsize : UInt64.size = 18446744073709551616 := rfl
  show (Numeral.ofChars? (toString i).toList).bind Numeral.value? = some (.int i h)
  rw [Int.toString_eq_repr, Int.repr_eq_if]
  split
  · rename_i hpos
    rw [Nat.toList_repr, ofChars?_toDigits, Option.bind_some]
    exact value?_digitValues (by omega) h (by omega)
  · rename_i hneg
    have hminus : "-".toList = ['-'] := rfl
    rw [String.toList_append, Nat.toList_repr, hminus, List.singleton_append,
      ofChars?_neg_toDigits, Option.bind_some]
    exact value?_neg_digitValues (by omega) (by omega) h (by omega)

end AlertRules.Json
