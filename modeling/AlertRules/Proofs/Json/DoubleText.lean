import AlertRules.Proofs.Json.Scaling
import AlertRules.Proofs.Json.Shortest

/-!
# AlertRules.Proofs.Json.DoubleText — the text of a double is a number

Digits with a point among them, and digits with an exponent, are numerals whose significand is the
number that all the digits spell.  The digits of the shortest decimal fit a word, and the decimal is in
range, so the numeral has a value (`Double.exists_value`).  That it is the same double is not claimed:
it is found by two more roundings than the digits were.
-/

namespace AlertRules.Json

/-- The text is a number, with a minus sign before it as well as without. -/
def Readable (body : List Char) : Prop :=
  ∀ negative, ((Numeral.unsigned? negative body).bind Numeral.value?).isSome = true

/-- The characters are decimal digits. -/
def Digits (cs : List Char) : Prop :=
  ∀ c ∈ cs, c.isDigit = true

namespace Numeral

/-! ## Digits -/

/-- The values of digits. -/
def values (ds : List Char) : List Nat :=
  ds.map fun c => c.toNat - 48

theorem digitValues_eq (m : Nat) : digitValues m = values (Nat.toDigits 10 m) :=
  rfl

theorem magnitudeOf_digitValues (m : Nat) : magnitudeOf (digitValues m) = m := by
  have hof := Nat.ofDigitChars_toDigits (b := 10) (n := m) (by decide) (by decide)
  rw [Nat.ofDigitChars_eq_foldl] at hof
  rw [magnitudeOf, digitValues, List.foldl_map]
  exact hof

theorem magnitudeOf_zeros_append (k : Nat) (ds : List Nat) :
    magnitudeOf (List.replicate k 0 ++ ds) = magnitudeOf ds := by
  induction k with
  | zero => rfl
  | succ k ih => exact ih

theorem magnitudeOf_append_zeros (k : Nat) (ds : List Nat) :
    magnitudeOf (ds ++ List.replicate k 0) = magnitudeOf ds * 10 ^ k := by
  induction k with
  | zero => simp
  | succ k ih =>
    have hlast : magnitudeOf (ds ++ List.replicate k 0 ++ [0]) =
        10 * magnitudeOf (ds ++ List.replicate k 0) := List.foldl_append
    rw [List.replicate_succ', ← List.append_assoc, hlast, ih, Nat.pow_succ]
    ring

/-- The digits at the front of a text, as far as they go. -/
theorem takeDigits_append {ds rest : List Char} (hds : Digits ds)
    (hrest : rest.takeWhile Char.isDigit = []) : takeDigits (ds ++ rest) = (values ds, rest) := by
  have hdrop : rest.dropWhile Char.isDigit = rest := by
    have happend := List.takeWhile_append_dropWhile (p := Char.isDigit) (l := rest)
    rwa [hrest] at happend
  rw [takeDigits, List.takeWhile_append_of_pos hds, List.dropWhile_append_of_pos hds, hrest, hdrop,
    List.append_nil, values]

/-! ## Numerals by their parts -/

theorem takeFraction?_point {ds rest : List Char} (hds : Digits ds) (hne : ds ≠ [])
    (hrest : rest.takeWhile Char.isDigit = []) :
    takeFraction? ('.' :: (ds ++ rest)) = some (some (values ds), rest) := by
  obtain ⟨c, cs, rfl⟩ := List.exists_cons_of_ne_nil hne
  rw [takeFraction?, takeDigits_append hds hrest]
  rfl

theorem takeExponent?_spelled (e : Int) :
    takeExponent? ('e' :: (if e < 0 then '-' else '+') :: Nat.toDigits 10 e.natAbs) =
      some (some (decide (e < 0), digitValues e.natAbs), []) := by
  have hne : digitValues e.natAbs ≠ [] := by simp [digitValues, Nat.toDigits_ne_nil]
  obtain ⟨v, vs, hvs⟩ := List.exists_cons_of_ne_nil hne
  have hdigits : takeDigits (Nat.toDigits 10 e.natAbs) = (v :: vs, []) := by
    rw [takeDigits_toDigits, hvs]
  rw [hvs]
  by_cases he : e < 0
  · rw [if_pos he, takeExponent?, if_pos (.inl rfl)]
    rw [hdigits, decide_eq_true he]
  · rw [if_neg he, takeExponent?, if_pos (.inl rfl)]
    rw [hdigits, decide_eq_false he]

theorem unsigned?_of_parts (negative : Bool) {cs rest rest' : List Char} {whole : List Nat}
    {fraction : Option (List Nat)} {exponent : Option (Bool × List Nat)}
    (hwhole : takeDigits cs = (whole, rest)) (hne : whole ≠ [])
    (hzero : ∀ d ds, whole ≠ 0 :: d :: ds)
    (hfraction : takeFraction? rest = some (fraction, rest'))
    (hexponent : takeExponent? rest' = some (exponent, [])) :
    unsigned? negative cs = some { negative, whole, fraction, exponent } := by
  unfold unsigned?
  rw [hwhole]
  split
  · rename_i heq
    exact absurd (Prod.mk.inj heq).1 hne
  · rename_i heq
    exact absurd (Prod.mk.inj heq).1 (hzero _ _)
  · rename_i heq
    obtain ⟨rfl, rfl⟩ := Prod.mk.inj heq
    rw [hfraction]
    dsimp only
    rw [hexponent]

end Numeral

open Numeral

/-! ## Readable texts -/

theorem readable_of_parts {cs : List Char} {whole : List Nat} {fraction : Option (List Nat)}
    {exponent : Option (Bool × List Nat)}
    (hparts : ∀ negative, unsigned? negative cs = some { negative, whole, fraction, exponent })
    (hvalue : ∀ negative, ∃ v, value? { negative, whole, fraction, exponent } = some v) :
    Readable cs := by
  intro negative
  obtain ⟨v, hv⟩ := hvalue negative
  rw [hparts, Option.bind_some, hv]
  rfl

/-- Digits with a point among them are readable if they spell a word. -/
theorem readable_point {whole fraction : List Char} (hwhole : Digits whole) (hne : whole ≠ [])
    (hzero : ∀ d ds, values whole ≠ 0 :: d :: ds) (hfraction : Digits fraction)
    (hne' : fraction ≠ []) (hsize : magnitudeOf (values whole ++ values fraction) < 2 ^ 64) :
    Readable (whole ++ '.' :: fraction) := by
  have hpoint : takeFraction? ('.' :: (fraction ++ [])) = some (some (values fraction), []) :=
    takeFraction?_point hfraction hne' rfl
  rw [List.append_nil] at hpoint
  refine readable_of_parts (fun negative => unsigned?_of_parts negative
    (takeDigits_append hwhole rfl) (by simpa [values] using hne) hzero hpoint rfl) fun negative => ?_
  refine exists_value? hsize (fun _ _ h => by cases h) ?_
  have hpower : (power ⟨negative, values whole, some (values fraction), none⟩).toNat = 0 := by
    simp [power, writtenExponent]
  rw [hpower, Nat.pow_zero, Nat.mul_one]
  exact Rounding.safe_word.mono (Nat.le_of_lt hsize)

/-- Digits with an exponent are readable if they are in range. -/
theorem readable_scientific {c : Char} {cs : List Char} (hdigits : Digits (c :: cs)) {e : Int}
    (he : e.natAbs ≤ exponentLimit) (hsize : magnitudeOf (values (c :: cs)) < 2 ^ 64)
    (hsafe : Rounding.Safe (magnitudeOf (values (c :: cs)) * 10 ^ (e - cs.length).toNat)) :
    Readable (Double.scientific (c :: cs) e) := by
  obtain ⟨hc, hcs⟩ := List.forall_mem_cons.mp hdigits
  have hhead : Digits [c] := List.forall_mem_singleton.mpr hc
  have hwritten : writtenExponent (some (decide (e < 0), digitValues e.natAbs)) = e := by
    by_cases hneg : e < 0
    · rw [decide_eq_true hneg, writtenExponent, magnitudeOf_digitValues]
      omega
    · rw [decide_eq_false hneg, writtenExponent, magnitudeOf_digitValues]
      omega
  have hlimit : ∀ below ds, some (decide (e < 0), digitValues e.natAbs) = some (below, ds) →
      magnitudeOf ds ≤ exponentLimit := by
    intro below ds heq
    obtain ⟨-, rfl⟩ := Prod.mk.inj (Option.some.inj heq)
    rwa [magnitudeOf_digitValues]
  have hzero : ∀ d ds, values [c] ≠ 0 :: d :: ds := by simp [values]
  cases cs with
  | nil =>
    refine readable_of_parts (fun negative => unsigned?_of_parts negative
      (takeDigits_append hhead rfl) (List.cons_ne_nil _ _) hzero rfl
      (takeExponent?_spelled e)) fun negative => exists_value? hsize hlimit ?_
    rw [power, hwritten]
    exact hsafe
  | cons c' cs =>
    show Readable ([c] ++ '.' :: ((c' :: cs) ++
      'e' :: (if e < 0 then '-' else '+') :: Nat.toDigits 10 e.natAbs))
    refine readable_of_parts (fun negative => unsigned?_of_parts negative
      (takeDigits_append hhead rfl) (List.cons_ne_nil _ _) hzero
      (takeFraction?_point hcs (List.cons_ne_nil _ _) rfl)
      (takeExponent?_spelled e)) fun negative => exists_value? hsize hlimit ?_
    have hpower : power ⟨negative, values [c], some (values (c' :: cs)),
        some (decide (e < 0), digitValues e.natAbs)⟩ = e - (c' :: cs).length := by
      rw [power, hwritten]
      simp [values]
    rw [hpower]
    exact hsafe

theorem values_append (ds ds' : List Char) : values (ds ++ ds') = values ds ++ values ds' :=
  List.map_append

theorem values_zeros (k : Nat) : values (List.replicate k '0') = List.replicate k 0 :=
  List.map_replicate

theorem digits_zeros (k : Nat) : Digits (List.replicate k '0') :=
  fun _ hc => List.eq_of_mem_replicate hc ▸ rfl

theorem Digits.append {ds ds' : List Char} (h : Digits ds) (h' : Digits ds') : Digits (ds ++ ds') :=
  fun c hc => (List.mem_append.mp hc).elim (h c) (h' c)

theorem values_ne_zero_cons {c : Nat} (hc : 0 < c) {n : Nat} {ds : List Char} (d : Nat) (vs : List Nat) :
    values ((Nat.toDigits 10 c).take (n + 1) ++ ds) ≠ 0 :: d :: vs := by
  obtain ⟨x, xs, hxs⟩ := List.exists_cons_of_ne_nil (Nat.toDigits_ne_nil (n := c) (b := 10))
  have hdigit := Char.isDigit_iff_toNat.mp (isDigit_of_mem_toDigits x (hxs ▸ List.mem_cons_self))
  have hne := head_toDigits_ne_zero hc
  rw [hxs, List.head?_cons] at hne
  intro heq
  rw [hxs, List.take_succ_cons, List.cons_append, values, List.map_cons] at heq
  have hzero : x.toNat - 48 = 0 := (List.cons.inj heq).1
  refine hne (congrArg some (Char.toNat_inj.mp ?_))
  have h48 : '0'.toNat = 48 := rfl
  omega

/-- Digits written positionally are readable. -/
theorem readable_positional {c : Nat} (hc : 0 < c) (hc' : c ≤ 10 ^ 17) {e : Int} (he : e < 16) :
    Readable (Double.positional (Nat.toDigits 10 c) e) := by
  have hdigits : Digits (Nat.toDigits 10 c) := isDigit_of_mem_toDigits
  have hne : Nat.toDigits 10 c ≠ [] := Nat.toDigits_ne_nil
  unfold Double.positional
  split
  · have hvalue : magnitudeOf (values ['0'] ++
        values (List.replicate (-e - 1).toNat '0' ++ Nat.toDigits 10 c)) = c := by
      rw [values_append, values_zeros, ← List.append_assoc, ← digitValues_eq]
      exact (magnitudeOf_zeros_append _ _).trans (magnitudeOf_digitValues c)
    show Readable (['0'] ++ '.' :: (List.replicate (-e - 1).toNat '0' ++ Nat.toDigits 10 c))
    refine readable_point (digits_zeros 1) (List.cons_ne_nil _ _) (by simp [values])
      ((digits_zeros _).append hdigits) (by simp [hne]) ?_
    omega
  · dsimp only
    refine readable_point ?_ (by simp [hne]) (values_ne_zero_cons hc) ?_ ?_ ?_
    · exact .append (fun x hx => hdigits x (List.mem_of_mem_take hx)) (digits_zeros _)
    · split
      · exact digits_zeros 1
      · exact fun x hx => hdigits x (List.mem_of_mem_drop hx)
    · split
      · exact List.cons_ne_nil _ _
      · rename_i hlength
        simpa using hlength
    · split
      · rename_i hlength
        have hlt : c < 10 ^ (Nat.toDigits 10 c).length :=
          (Nat.length_toDigits_le_iff (by decide) (List.length_pos_iff.mpr hne)).mp (Nat.le_refl _)
        have hzero : values ['0'] = List.replicate 1 0 := rfl
        rw [List.take_of_length_le hlength, values_append, values_zeros, ← digitValues_eq, hzero,
          List.append_assoc, List.replicate_append_replicate, magnitudeOf_append_zeros,
          magnitudeOf_digitValues]
        calc c * 10 ^ (e.toNat + 1 - (Nat.toDigits 10 c).length + 1)
            < 10 ^ (Nat.toDigits 10 c).length *
                10 ^ (e.toNat + 1 - (Nat.toDigits 10 c).length + 1) :=
              Nat.mul_lt_mul_of_pos_right hlt (Nat.pow_pos (by decide))
          _ = 10 ^ (e.toNat + 2) := by
              rw [← Nat.pow_add]
              congr 1
              omega
          _ ≤ 10 ^ 17 := Nat.pow_le_pow_right (by decide) (by omega)
          _ < 2 ^ 64 := by decide
      · rename_i hlength
        rw [show e.toNat + 1 - (Nat.toDigits 10 c).length = 0 by omega, List.replicate_zero,
          List.append_nil, ← values_append, List.take_append_drop, ← digitValues_eq,
          magnitudeOf_digitValues]
        omega

/-! ## The shortest decimal -/

/-- The decimal `c * 10 ^ k` as the text of a double. -/
def layout (c : Nat) (k : Int) : List Char :=
  let digits := Nat.toDigits 10 c
  let e : Int := k + digits.length - 1
  if -5 ≤ e ∧ e < 16 then Double.positional digits e else Double.scientific digits e

theorem readable_layout {c : Nat} {k : Int} (hc : 0 < c) (hc' : c ≤ 10 ^ 17)
    (hk : -1093 ≤ k ∧ k ≤ 1040)
    (hsafe : Rounding.Safe (c * 10 ^ k.toNat)) :
    Readable (layout c k) := by
  have hlength : (Nat.toDigits 10 c).length ≤ 18 :=
    (Nat.length_toDigits_le_iff (by decide) (by decide)).mpr (by omega)
  obtain ⟨x, xs, hxs⟩ := List.exists_cons_of_ne_nil (Nat.toDigits_ne_nil (n := c) (b := 10))
  have hvalue : magnitudeOf (values (x :: xs)) = c := by
    rw [← hxs, ← digitValues_eq, magnitudeOf_digitValues]
  have hpower : k + (x :: xs).length - 1 - xs.length = k := by
    rw [List.length_cons]
    omega
  unfold layout
  dsimp only
  split
  · exact readable_positional hc hc' (by omega)
  · rw [hxs] at hlength ⊢
    refine readable_scientific (hxs ▸ isDigit_of_mem_toDigits) ?_ ?_ ?_
    · unfold exponentLimit
      omega
    · rw [hvalue]
      omega
    · rwa [hvalue, hpower]

namespace Double

variable {d : Double}

theorem toList_text (d : Double) : d.text.toList =
    if d.isNegative then '-' :: (if d.isZero then ['0', '.', '0'] else layout d.shortest.1 d.shortest.2)
    else if d.isZero then ['0', '.', '0'] else layout d.shortest.1 d.shortest.2 := by
  unfold text layout
  exact String.toList_ofList

/-- The text of the three greatest doubles is read by looking at them. -/
theorem readable_of_isGreatest (h : d.IsGreatest) : Readable (layout d.shortest.1 d.shortest.2) := by
  obtain ⟨-, hm⟩ := id h
  have hlt := significand_lt d
  unfold shortest
  rw [interval_of_isGreatest h]
  obtain heq | heq | heq : d.significand = 2 ^ 53 - 3 ∨ d.significand = 2 ^ 53 - 2 ∨
      d.significand = 2 ^ 53 - 1 := by omega
  · rw [heq]
    unfold Readable
    decide +kernel
  · rw [heq]
    unfold Readable
    decide +kernel
  · rw [heq]
    unfold Readable
    decide +kernel

theorem readable_shortest (h : d.isZero = false) : Readable (layout d.shortest.1 d.shortest.2) := by
  by_cases hgreatest : d.IsGreatest
  · exact readable_of_isGreatest hgreatest
  · obtain ⟨hbounds, hk⟩ := shortest_bounds h
    exact readable_layout hbounds.pos hbounds.le hk (safe_shortest h hgreatest)

theorem readable_zero : Readable ['0', '.', '0'] := by
  unfold Readable
  decide +kernel

theorem exists_value_of_readable {body : List Char} (h : Readable body) (negative : Bool) :
    ∃ v, (Numeral.ofChars? (if negative then '-' :: body else body)).bind Numeral.value? = some v := by
  refine Option.isSome_iff_exists.mp ?_
  cases negative with
  | true => exact h true
  | false =>
    rw [if_neg Bool.false_ne_true]
    unfold Numeral.ofChars?
    split
    · exact absurd (h true) (by simp [Numeral.unsigned?, Numeral.takeDigits])
    · exact h false

/-- The text of a double is a number. -/
theorem exists_value (d : Double) :
    ∃ v, (Numeral.ofChars? d.text.toList).bind Numeral.value? = some v := by
  rw [toList_text]
  cases hzero : d.isZero with
  | true => exact exists_value_of_readable readable_zero d.isNegative
  | false => exact exists_value_of_readable (readable_shortest hzero) d.isNegative

end Double

end AlertRules.Json
