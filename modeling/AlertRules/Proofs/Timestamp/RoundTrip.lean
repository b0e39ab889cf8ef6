import Mathlib.Algebra.Group.Nat.Defs
import Mathlib.Data.List.Induction
import Mathlib.Data.List.TakeWhile
import AlertRules.Proofs.Timestamp.Calendar

/-!
# AlertRules.Proofs.Timestamp.RoundTrip — moments that are printed and read

A moment is **valid** if it is one that a clock shows: its day is in the range of the calendar, and only
the last second of a minute is a leap second.  What is read is valid (`valid_of_read`), and a valid
moment is read from its text (`Valid.read_text`).
-/

namespace AlertRules.Timestamp

/-! ## Valid moments -/

/-- The day is in the range of the calendar, the second is one of the day, and a second has more than a
thousand million nanoseconds only at the end of a minute. -/
structure Valid (t : Timestamp) : Prop where
  first : dayNumber firstYear 1 1 ≤ t.day
  last : t.day ≤ dayNumber lastYear 12 31
  second : t.second < 86400
  nano : t.nano < 2 * secondInNanos
  leap : secondInNanos ≤ t.nano → t.second % 60 = 59

/-! ## Digits -/

/-- **`Spells ds n`** — the characters are the decimal digits of the number, perhaps behind zeros. -/
structure Spells (ds : List Char) (n : Nat) : Prop where
  digits : ∀ c ∈ ds, c.isDigit = true
  ne_nil : ds ≠ []
  value : ds.foldl (fun acc c => 10 * acc + (c.toNat - 48)) 0 = n

theorem foldl_zeros (k : Nat) (ds : List Char) :
    (List.replicate k '0' ++ ds).foldl (fun acc c => 10 * acc + (c.toNat - 48)) 0 =
      ds.foldl (fun acc c => 10 * acc + (c.toNat - 48)) 0 := by
  induction k with
  | zero => rfl
  | succ k ih => exact ih

theorem toList_padded (width n : Nat) :
    (padded width n).toList =
      List.replicate (width - (Nat.toDigits 10 n).length) '0' ++ Nat.toDigits 10 n :=
  String.toList_ofList

theorem spells_padded (width n : Nat) : Spells (padded width n).toList n := by
  rw [toList_padded]
  refine ⟨?_, ?_, ?_⟩
  · intro c hc
    rcases List.mem_append.mp hc with hzero | hdigit
    · rw [List.eq_of_mem_replicate hzero]
      rfl
    · exact Nat.isDigit_of_mem_toDigits (by decide) (by decide) hdigit
  · exact List.append_ne_nil_of_right_ne_nil _ Nat.toDigits_ne_nil
  · have hof := Nat.ofDigitChars_toDigits (b := 10) (n := n) (by decide) (by decide)
    rw [Nat.ofDigitChars_eq_foldl] at hof
    rw [foldl_zeros]
    exact hof

theorem length_padded {width n : Nat} (hwidth : 0 < width) (hn : n < 10 ^ width) :
    (padded width n).toList.length = width := by
  have hlength := (Nat.length_toDigits_le_iff (b := 10) (by decide) hwidth).mpr hn
  rw [toList_padded, List.length_append, List.length_replicate]
  omega

/-! ## Parts -/

/-- The text does not begin with white space. -/
def Solid (cs : List Char) : Prop :=
  skipBlanks cs = cs

theorem solid_cons {c : Char} {cs : List Char} (h : CodePoint.isBlank c = false) : Solid (c :: cs) := by
  rw [Solid, skipBlanks, List.dropWhile_cons_of_neg (by rw [h]; decide)]

theorem Spells.solid {ds : List Char} {n : Nat} (h : Spells ds n) (rest : List Char) :
    Solid (ds ++ rest) := by
  obtain ⟨c, cs, rfl⟩ := List.exists_cons_of_ne_nil h.ne_nil
  exact solid_cons (CodePoint.isBlank_digit (h.digits c List.mem_cons_self))

/-- As many digits as are allowed are taken, whatever follows. -/
theorem Spells.takeNumber_some {ds : List Char} {n : Nat} (h : Spells ds n)
    (hn : n < 9223372036854775808) (rest : List Char) :
    takeNumber (some ds.length) (ds ++ rest) = .ok ((n, ds.length), rest) := by
  have htake : ((ds ++ rest).takeWhile Char.isDigit).take ds.length = ds := by
    rw [List.takeWhile_append_of_pos h.digits, List.take_left']
    rfl
  unfold takeNumber
  simp only [htake, h.value]
  rw [if_neg (by simpa using h.ne_nil), if_neg (by omega), List.drop_left]

/-- Without a limit the digits up to another character are taken. -/
theorem Spells.takeNumber_none {ds : List Char} {n : Nat} (h : Spells ds n)
    (hn : n < 9223372036854775808) {c : Char} (hc : c.isDigit = false) (rest : List Char) :
    takeNumber none (ds ++ c :: rest) = .ok ((n, ds.length), c :: rest) := by
  have htake : (ds ++ c :: rest).takeWhile Char.isDigit = ds := by
    rw [List.takeWhile_append_of_pos h.digits, List.takeWhile_cons_of_neg (by rw [hc]; decide),
      List.append_nil]
  unfold takeNumber
  simp only [htake, h.value]
  rw [if_neg (by simpa using h.ne_nil), if_neg (by omega), List.drop_left]

theorem takeMark_cons {c : Char} (h : CodePoint.isBlank c = false) (cs : List Char) :
    takeMark c (c :: cs) = .ok cs := by
  have hskip : skipBlanks (c :: cs) = c :: cs := solid_cons h
  rw [takeMark, hskip]
  exact if_pos rfl

theorem takeField_padded {low high n : Nat} (hlow : low ≤ n) (hhigh : n ≤ high) (h : n < 100)
    (rest : List Char) : takeField low high ((padded 2 n).toList ++ rest) = .ok (n, rest) := by
  have hspells := spells_padded 2 n
  have hskip : skipBlanks _ = _ := hspells.solid rest
  have hnumber := hspells.takeNumber_some (by omega) rest
  rw [length_padded (by decide) h] at hnumber
  rw [takeField, hskip, hnumber]
  exact if_pos ⟨hlow, hhigh⟩

/-- **`FitsYear y`** — the year fits in 32 bits. -/
structure FitsYear (y : Int) : Prop where
  low : -2147483648 ≤ y
  high : y < 2147483648

-- the year is an unknown integer here: of a number that is cast the kernel would work out the range
theorem withinYears_of_number {x : Except Fault ((Nat × Nat) × List Char)} (f : Nat → Int) {n k : Nat}
    {rest : List Char} (h : x = .ok ((n, k), rest)) (hfits : FitsYear (f n)) :
    (do
      let ((n, _), rest) ← x
      let (y, rest) ← pure (f n, rest)
      if -2147483648 ≤ y ∧ y < 2147483648 then .ok (y, rest) else .error .outOfRange) =
      (.ok (f n, rest) : Except Fault (Int × List Char)) := by
  subst h
  exact if_pos ⟨hfits.low, hfits.high⟩

theorem takeYear_minus {cs rest : List Char} {n k : Nat}
    (h : takeNumber none cs = .ok ((n, k), rest)) (hfits : FitsYear (-(n : Int))) :
    takeYear ('-' :: cs) = .ok (-(n : Int), rest) := by
  have hskip : skipBlanks ('-' :: cs) = '-' :: cs := solid_cons (by decide)
  unfold takeYear
  rw [hskip]
  exact withinYears_of_number (fun n => -(n : Int)) h hfits

theorem takeYear_plus {cs rest : List Char} {n k : Nat}
    (h : takeNumber none cs = .ok ((n, k), rest)) (hfits : FitsYear n) :
    takeYear ('+' :: cs) = .ok ((n : Int), rest) := by
  have hskip : skipBlanks ('+' :: cs) = '+' :: cs := solid_cons (by decide)
  unfold takeYear
  rw [hskip]
  exact withinYears_of_number (fun n => (n : Int)) h hfits

theorem takeYear_digit {c : Char} {cs rest : List Char} {n k : Nat} (hc : c.isDigit = true)
    (h : takeNumber (some 4) (c :: cs) = .ok ((n, k), rest)) (hfits : FitsYear n) :
    takeYear (c :: cs) = .ok ((n : Int), rest) := by
  have hskip : skipBlanks (c :: cs) = c :: cs := solid_cons (CodePoint.isBlank_digit hc)
  unfold takeYear
  rw [hskip]
  split
  · rename_i heq
    rw [(List.cons.inj heq).1] at hc
    exact absurd hc (by decide)
  · rename_i heq
    rw [(List.cons.inj heq).1] at hc
    exact absurd hc (by decide)
  · exact withinYears_of_number (fun n => (n : Int)) h hfits

/-- Four digits, or a sign and as many as there are. -/
theorem takeYear_yearText {y : Int} (hfits : FitsYear y) {c : Char} (hc : c.isDigit = false)
    (rest : List Char) : takeYear ((yearText y).toList ++ c :: rest) = .ok (y, c :: rest) := by
  have habs : y.natAbs < 9223372036854775808 := by
    have hlow := hfits.low
    have hhigh := hfits.high
    omega
  unfold yearText
  split
  · have hnat : ((y.toNat : Nat) : Int) = y := by omega
    have hspells := spells_padded 4 y.toNat
    have hnumber := hspells.takeNumber_some (by omega) (c :: rest)
    rw [length_padded (by decide) (by omega)] at hnumber
    rw [← hnat] at hfits
    obtain ⟨d, ds, hds⟩ := List.exists_cons_of_ne_nil hspells.ne_nil
    have hdigit := hspells.digits d (by rw [hds]; exact List.mem_cons_self)
    rw [hds] at hnumber ⊢
    exact (takeYear_digit hdigit hnumber hfits).trans (by rw [hnat])
  · have hnumber := (spells_padded 4 y.natAbs).takeNumber_none habs hc rest
    rw [String.toList_append]
    split
    · have hnat : -((y.natAbs : Nat) : Int) = y := by omega
      rw [← hnat] at hfits
      exact (takeYear_minus hnumber hfits).trans (by rw [hnat])
    · have hnat : ((y.natAbs : Nat) : Int) = y := by omega
      rw [← hnat] at hfits
      exact (takeYear_plus hnumber hfits).trans (by rw [hnat])

/-- The digits of a fraction are tenths, hundredths and so on. -/
theorem Spells.takeFraction {ds : List Char} {n : Nat} (h : Spells ds n) (hlength : ds.length ≤ 9)
    (hn : n < 9223372036854775808) {c : Char} (hc : c.isDigit = false) (rest : List Char) :
    takeFraction ('.' :: (ds ++ c :: rest)) = .ok (n * 10 ^ (9 - ds.length), c :: rest) := by
  have htake : ((ds ++ c :: rest).takeWhile Char.isDigit).take 9 = ds := by
    rw [List.takeWhile_append_of_pos h.digits, List.takeWhile_cons_of_neg (by rw [hc]; decide),
      List.append_nil, List.take_of_length_le hlength]
  have hnumber : takeNumber (some 9) (ds ++ c :: rest) = .ok ((n, ds.length), c :: rest) := by
    unfold takeNumber
    simp only [htake, h.value]
    rw [if_neg (by simpa using h.ne_nil), if_neg (by omega), List.drop_left]
  rw [Timestamp.takeFraction, hnumber]
  simp only [bind, Except.bind]
  rw [List.dropWhile_cons_of_neg (by rw [hc]; decide)]
  rfl

theorem takeFraction_fractionText {nano : Nat} (h : nano < secondInNanos) {c : Char}
    (hpoint : c ≠ '.') (hc : c.isDigit = false) (rest : List Char) :
    takeFraction ((fractionText nano).toList ++ c :: rest) = .ok (nano, c :: rest) := by
  have hgroup : ∀ {width n : Nat}, 0 < width → width ≤ 9 → n < 10 ^ width →
      takeFraction (("." ++ padded width n).toList ++ c :: rest) =
        .ok (n * 10 ^ (9 - width), c :: rest) := by
    intro width n hpos hnine hn
    have hfraction := (spells_padded width n).takeFraction
      (by rw [length_padded hpos hn]; exact hnine)
      (by
        have := Nat.pow_le_pow_right (show 0 < 10 by decide) hnine
        omega) hc rest
    rw [length_padded hpos hn] at hfraction
    rw [String.toList_append]
    exact hfraction
  unfold secondInNanos at h
  unfold fractionText
  split
  · rename_i hzero
    rw [hzero]
    unfold takeFraction
    split
    · rename_i heq
      exact absurd (List.cons.inj heq).1 hpoint
    · rfl
  split
  · rw [hgroup (by decide) (by decide) (by omega)]
    congr 2
    omega
  split
  · rw [hgroup (by decide) (by decide) (by omega)]
    congr 2
    omega
  · rw [hgroup (by decide) (by decide) (by omega)]
    congr 2
    omega

/-! ## Whole texts -/

theorem toList_text {t : Timestamp} {y : Int} {m d : Nat} (h : dateOfDay t.day = (y, m, d)) :
    t.text.toList = (yearText y).toList ++ '-' :: ((padded 2 m).toList ++ '-' ::
      ((padded 2 d).toList ++ 'T' :: ((padded 2 (t.second / 3600)).toList ++ ':' ::
      ((padded 2 (t.second / 60 % 60)).toList ++ ':' ::
      ((padded 2 (t.second % 60 + t.nano / secondInNanos)).toList ++
      ((fractionText (t.nano % secondInNanos)).toList ++ ['Z'])))))) := by
  have hdash : "-".toList = ['-'] := rfl
  have hcolon : ":".toList = [':'] := rfl
  have hletter : "T".toList = ['T'] := rfl
  have hend : "Z".toList = ['Z'] := rfl
  unfold text
  simp only [h, String.toList_append, hdash, hcolon, hletter, hend, List.append_assoc,
    List.cons_append, List.nil_append]

theorem bind_of_ok {α β : Type} {x : Except Fault α} {f : α → Except Fault β} {a : α}
    {r : Except Fault β} (hx : x = .ok a) (hf : f a = r) : (x >>= f) = r := by
  rw [hx]
  exact hf

/-- The parts of a text in Universal Time are read one after the other. -/
theorem read_of_parts {s : String} {y : Int} {m d hour minute second nano : Nat}
    (hs : s.toList = (yearText y).toList ++ '-' :: ((padded 2 m).toList ++ '-' ::
      ((padded 2 d).toList ++ 'T' :: ((padded 2 hour).toList ++ ':' ::
      ((padded 2 minute).toList ++ ':' :: ((padded 2 second).toList ++
      ((fractionText nano).toList ++ ['Z'])))))))
    (hy : FitsYear y) (hm : 1 ≤ m ∧ m ≤ 12) (hd : 1 ≤ d ∧ d ≤ 31) (hhour : hour ≤ 23)
    (hminute : minute ≤ 59) (hsecond : second ≤ 60) (hnano : nano < secondInNanos) :
    read s =
      let leap := if second = 60 then 1 else 0
      ofLocal y m d (hour * 3600 + minute * 60 + (second - leap)) (nano + leap * secondInNanos) 0 := by
  unfold read
  rw [hs]
  refine bind_of_ok (takeYear_yearText hy (by decide) _) ?_
  refine bind_of_ok (takeMark_cons (by decide) _) ?_
  refine bind_of_ok (takeField_padded hm.1 hm.2 (by omega) _) ?_
  refine bind_of_ok (takeMark_cons (by decide) _) ?_
  refine bind_of_ok (takeField_padded hd.1 hd.2 (by omega) _) ?_
  refine bind_of_ok rfl ?_
  refine bind_of_ok (takeField_padded (Nat.zero_le _) hhour (by omega) _) ?_
  refine bind_of_ok (takeMark_cons (by decide) _) ?_
  refine bind_of_ok (takeField_padded (Nat.zero_le _) hminute (by omega) _) ?_
  refine bind_of_ok (takeMark_cons (by decide) _) ?_
  refine bind_of_ok (takeField_padded (Nat.zero_le _) hsecond (by omega) _) ?_
  refine bind_of_ok (takeFraction_fractionText hnano (by decide) (by decide) _) ?_
  have hoffset : takeOffset (skipBlanks ['Z']) = .ok (0, []) := by
    rw [show skipBlanks ['Z'] = ['Z'] from solid_cons (by decide)]
    rfl
  refine bind_of_ok hoffset ?_
  exact if_pos rfl

theorem ofLocal_universal {y : Int} {m d second : Nat} (nano : Nat) (hdate : IsDate y m d)
    (hfirst : dayNumber firstYear 1 1 ≤ dayNumber y m d)
    (hlast : dayNumber y m d ≤ dayNumber lastYear 12 31) (hsecond : second < 86400) :
    ofLocal y m d second nano 0 = .ok ⟨dayNumber y m d, second, nano⟩ := by
  obtain ⟨hlow, hhigh⟩ := hdate.year_bounds hfirst hlast
  have hd := hdate.day.2
  have hday : ((second : Int) - 0) / 86400 = 0 := by omega
  have hrest : (((second : Int) - 0) % 86400).toNat = second := by omega
  unfold ofLocal
  rw [if_neg (by omega), if_neg (by decide)]
  dsimp only
  rw [hday, hrest, Int.add_zero, if_neg (by omega)]

/-- A valid moment is read from its text. -/
theorem Valid.read_text {t : Timestamp} (h : t.Valid) : read t.text = .ok t := by
  rcases hdate : dateOfDay t.day with ⟨y, m, d⟩
  obtain ⟨hisDate, hday⟩ := dateOfDay_spec hdate
  obtain ⟨hlow, hhigh⟩ := hisDate.year_bounds (hday ▸ h.first) (hday ▸ h.last)
  have hsecond := h.second
  have hnano := h.nano
  have hleap := h.leap
  have hd31 := hisDate.day_le
  have hfits : FitsYear y := by
    unfold firstYear at hlow
    unfold lastYear at hhigh
    exact ⟨by omega, by omega⟩
  have hsixty : t.second % 60 + t.nano / secondInNanos = 60 ∧ t.nano / secondInNanos = 1 ∨
      t.second % 60 + t.nano / secondInNanos ≠ 60 ∧ t.nano / secondInNanos = 0 := by
    unfold secondInNanos at *
    omega
  have hcount : (if t.second % 60 + t.nano / secondInNanos = 60 then 1 else 0) =
      t.nano / secondInNanos := by
    split <;> omega
  have hclock : t.second / 3600 * 3600 + t.second / 60 % 60 * 60 + t.second % 60 = t.second := by
    omega
  rw [read_of_parts (toList_text hdate) hfits hisDate.month ⟨hisDate.day.1, hd31⟩ (by omega)
    (by omega) (by omega) (Nat.mod_lt _ (by decide))]
  dsimp only
  rw [hcount, Nat.add_sub_cancel, hclock, Nat.mod_add_div',
    ofLocal_universal _ hisDate (hday ▸ h.first) (hday ▸ h.last) hsecond, hday]

/-! ## What can be read -/

theorem exists_of_bind {α β : Type} {x : Except Fault α} {f : α → Except Fault β} {b : β}
    (h : (x >>= f) = .ok b) : ∃ a, x = .ok a ∧ f a = .ok b := by
  cases x with
  | error fault => exact absurd h (by simp [bind, Except.bind])
  | ok a => exact ⟨a, rfl, h⟩

theorem value_lt {ds : List Char} (h : ∀ c ∈ ds, c.isDigit = true) :
    ds.foldl (fun acc c => 10 * acc + (c.toNat - 48)) 0 < 10 ^ ds.length := by
  induction ds using List.reverseRecOn with
  | nil => decide
  | append_singleton ds c ih =>
    have hdigit := Char.isDigit_iff_toNat.mp (h c (by simp))
    have hnine : '9'.toNat = 57 := rfl
    have hrest := ih fun c' hc' => h c' (List.mem_append_left _ hc')
    rw [List.foldl_append, List.length_append, List.length_singleton, Nat.pow_succ]
    show 10 * ds.foldl _ 0 + (c.toNat - 48) < _
    omega

theorem takeField_bounds {low high n : Nat} {cs rest : List Char}
    (h : takeField low high cs = .ok (n, rest)) : low ≤ n ∧ n ≤ high := by
  obtain ⟨⟨⟨k, count⟩, rest'⟩, -, h⟩ := exists_of_bind h
  dsimp only at h
  split at h
  · rename_i hrange
    obtain ⟨rfl, -⟩ := Prod.mk.inj (Except.ok.inj h)
    exact hrange
  · exact absurd h (by simp)

theorem takeFraction_lt {n : Nat} {cs rest : List Char} (h : takeFraction cs = .ok (n, rest)) :
    n < secondInNanos := by
  unfold takeFraction at h
  split at h
  · rename_i cs
    obtain ⟨⟨⟨k, count⟩, rest'⟩, hnumber, h⟩ := exists_of_bind h
    obtain ⟨rfl, -⟩ := Prod.mk.inj (Except.ok.inj h)
    unfold takeNumber at hnumber
    dsimp only at hnumber
    split at hnumber
    · exact absurd hnumber (by simp)
    split at hnumber
    · exact absurd hnumber (by simp)
    obtain ⟨hvalue, -⟩ := Prod.mk.inj (Except.ok.inj hnumber)
    obtain ⟨rfl, rfl⟩ := Prod.mk.inj hvalue
    have hdigits : ∀ c ∈ (cs.takeWhile Char.isDigit).take 9, c.isDigit = true := fun c hc =>
      List.mem_takeWhile_imp (List.mem_of_mem_take hc)
    have hlt := value_lt hdigits
    have hnine : ((cs.takeWhile Char.isDigit).take 9).length ≤ 9 := List.length_take_le _ _
    generalize ((cs.takeWhile Char.isDigit).take 9).length = count at *
    calc _ < 10 ^ count * 10 ^ (9 - count) := Nat.mul_lt_mul_of_pos_right hlt (Nat.pow_pos (by decide))
      _ = 10 ^ (count + (9 - count)) := (Nat.pow_add ..).symm
      _ = secondInNanos := by rw [Nat.add_sub_cancel' hnine]; rfl
  · obtain ⟨rfl, -⟩ := Prod.mk.inj (Except.ok.inj h)
    decide

/-- Offsets are whole minutes. -/
theorem takeOffset_mod {offset : Int} {cs rest : List Char} (h : takeOffset cs = .ok (offset, rest)) :
    offset % 60 = 0 := by
  unfold takeOffset at h
  split at h
  · obtain ⟨rfl, -⟩ := Prod.mk.inj (Except.ok.inj h)
    rfl
  · obtain ⟨rfl, -⟩ := Prod.mk.inj (Except.ok.inj h)
    rfl
  · split at h
    · obtain ⟨rfl, -⟩ := Prod.mk.inj (Except.ok.inj h)
      rfl
    dsimp only at h
    split at h
    · obtain ⟨⟨hours, rest'⟩, -, h⟩ := exists_of_bind h
      obtain ⟨⟨minutes, rest''⟩, -, h⟩ := exists_of_bind h
      dsimp only at h
      split at h
      · exact absurd h (by simp)
      · obtain ⟨rfl, -⟩ := Prod.mk.inj (Except.ok.inj h)
        split <;> omega
    · exact absurd h (by simp)
  · exact absurd h (by simp)

theorem valid_of_ofLocal {y offset : Int} {m d second nano : Nat} {t : Timestamp}
    (h : ofLocal y m d second nano offset = .ok t) (hnano : nano < 2 * secondInNanos)
    (hoffset : offset % 60 = 0) (hleap : secondInNanos ≤ nano → second % 60 = 59) : t.Valid := by
  unfold ofLocal at h
  split at h
  · exact absurd h (by simp)
  split at h
  · exact absurd h (by simp)
  dsimp only at h
  split at h
  · exact absurd h (by simp)
  · rename_i hday
    rw [← Except.ok.inj h]
    exact ⟨by dsimp only; omega, by dsimp only; omega, by dsimp only; omega, hnano,
      fun hle => by
        have := hleap hle
        dsimp only
        omega⟩

/-- What is read is a valid moment. -/
theorem valid_of_read {s : String} {t : Timestamp} (h : read s = .ok t) : t.Valid := by
  unfold read at h
  obtain ⟨⟨y, _⟩, -, h⟩ := exists_of_bind h
  obtain ⟨_, -, h⟩ := exists_of_bind h
  obtain ⟨⟨m, _⟩, -, h⟩ := exists_of_bind h
  obtain ⟨_, -, h⟩ := exists_of_bind h
  obtain ⟨⟨d, cs⟩, -, h⟩ := exists_of_bind h
  dsimp only at h
  split at h
  · obtain ⟨_, hfault, -⟩ := exists_of_bind h
    exact absurd hfault (by simp)
  split at h
  · obtain ⟨_, -, h⟩ := exists_of_bind h
    obtain ⟨⟨hour, _⟩, -, h⟩ := exists_of_bind h
    obtain ⟨_, -, h⟩ := exists_of_bind h
    obtain ⟨⟨minute, _⟩, -, h⟩ := exists_of_bind h
    obtain ⟨_, -, h⟩ := exists_of_bind h
    obtain ⟨⟨second, _⟩, hsecond, h⟩ := exists_of_bind h
    obtain ⟨⟨nano, _⟩, hnano, h⟩ := exists_of_bind h
    obtain ⟨⟨offset, rest⟩, hoffset, h⟩ := exists_of_bind h
    dsimp only at h
    split at h
    · have hsixty := (takeField_bounds hsecond).2
      have hlt := takeFraction_lt hnano
      refine valid_of_ofLocal h ?_ (takeOffset_mod hoffset) ?_
      · split <;> omega
      · intro hle
        split at hle <;> split <;> omega
    · exact absurd h (by simp)
  · obtain ⟨_, hfault, -⟩ := exists_of_bind h
    exact absurd hfault (by simp)

end AlertRules.Timestamp
