import AlertRules.Proofs.Text.ByteOrder
import AlertRules.Text.Pieces

/-!
# AlertRules.Proofs.Text.Lines — lines in bytes

A file is cut into lines at the byte of the line feed.  In UTF-8 that byte stands for nothing else
(`lineFeed_notMem_utf8Bytes`), so a text without line feeds that is followed by one is the first line,
and the lines of what follows come behind it (`pieces_append_cons`).
-/

namespace AlertRules.Text

/-! ## Pieces -/

section Pieces

variable {α : Type} [DecidableEq α]

/-- What stands in front of the first separator is the first piece. -/
theorem pieces_append_cons {sep : α} {xs : List α} (h : sep ∉ xs) (ys : List α) :
    pieces sep (xs ++ sep :: ys) = xs :: pieces sep ys := by
  induction xs with
  | nil =>
    show push sep sep (pieces sep ys) = _
    rw [push.eq_def, if_pos rfl]
  | cons x xs ih =>
    obtain ⟨hx, hxs⟩ := List.ne_and_not_mem_of_not_mem_cons h
    show push sep x (pieces sep (xs ++ sep :: ys)) = _
    rw [ih hxs, push.eq_def, if_neg hx.symm]

theorem pieces_of_notMem {sep : α} {xs : List α} (h : sep ∉ xs) : pieces sep xs = [xs] := by
  induction xs with
  | nil => rfl
  | cons x xs ih =>
    obtain ⟨hx, hxs⟩ := List.ne_and_not_mem_of_not_mem_cons h
    show push sep x (pieces sep xs) = _
    rw [ih hxs, push.eq_def, if_neg hx.symm]

/-- Whatever goes on behind a piece, what is put in front does not change it. -/
theorem exists_push (sep x : α) (ps : List (List α)) (last : List α) : ∃ ps' last', ∀ ys rest,
    push sep x (ps ++ (last ++ ys) :: rest) = ps' ++ (last' ++ ys) :: rest := by
  by_cases hx : x = sep
  · exact ⟨[] :: ps, last, fun ys rest => by rw [push.eq_def, if_pos hx, List.cons_append]⟩
  · cases ps with
    | nil =>
      refine ⟨[], x :: last, fun ys rest => ?_⟩
      rw [push.eq_def, if_neg hx]
      rfl
    | cons p ps =>
      refine ⟨(x :: p) :: ps, last, fun ys rest => ?_⟩
      rw [push.eq_def, if_neg hx]
      rfl

/-- Behind the last separator there is a piece, and what comes next up to a separator continues it. -/
theorem exists_lastPiece (sep : α) (xs : List α) : ∃ ps last, pieces sep xs = ps ++ [last] ∧
    ∀ ys, sep ∉ ys → pieces sep (xs ++ (ys ++ [sep])) = ps ++ [last ++ ys, []] := by
  induction xs with
  | nil => exact ⟨[], [], rfl, fun ys hys => pieces_append_cons hys []⟩
  | cons x xs ih =>
    obtain ⟨ps, last, hpieces, happend⟩ := ih
    obtain ⟨ps', last', hpush⟩ := exists_push sep x ps last
    refine ⟨ps', last', ?_, fun ys hys => ?_⟩
    · show push sep x (pieces sep xs) = _
      rw [hpieces]
      simpa using hpush [] []
    · show push sep x (pieces sep (xs ++ (ys ++ [sep]))) = _
      rw [happend ys hys]
      exact hpush ys [[]]

end Pieces

/-! ## Bytes -/

theorem get!_eq_getElem {bytes : ByteArray} {i : Nat} (hi : i < bytes.data.toList.length) :
    bytes.get! i = bytes.data.toList[i] :=
  getElem!_pos bytes.data i hi

/-- What is still to be read stands behind what has been read, last byte first. -/
theorem toList_loop (bytes : ByteArray) (i : Nat) (before : List UInt8) :
    ByteArray.toList.loop bytes i before = before.reverse ++ bytes.data.toList.drop i := by
  rw [ByteArray.toList.loop]
  split
  · rename_i hi
    have hlength : i < bytes.data.toList.length := hi
    rw [toList_loop bytes (i + 1), List.reverse_cons, List.append_assoc, List.singleton_append,
      List.drop_eq_getElem_cons hlength, get!_eq_getElem hlength]
  · rename_i hi
    have hlength : bytes.data.toList.length ≤ i := Nat.not_lt.mp hi
    rw [List.drop_eq_nil_of_le hlength, List.append_nil]
termination_by bytes.size - i

theorem toList_eq (bytes : ByteArray) : bytes.toList = bytes.data.toList := by
  rw [ByteArray.toList, toList_loop]
  rfl

theorem fromUTF8?_toUTF8 (s : String) : String.fromUTF8? s.toUTF8 = some s := by
  unfold String.fromUTF8?
  exact dif_pos s.isValidUTF8

theorem utf8Bytes_append (s t : String) : utf8Bytes (s ++ t) = utf8Bytes s ++ utf8Bytes t := by
  rw [utf8Bytes_eq_flatMap, utf8Bytes_eq_flatMap, utf8Bytes_eq_flatMap, String.toList_append,
    List.flatMap_append]

/-- A byte below 128 stands alone for the character of that number. -/
theorem encode_of_mem {c : Char} {b : UInt8} (hb : b.toNat < 128)
    (h : b ∈ String.utf8EncodeChar c) : c.toNat = b.toNat ∧ String.utf8EncodeChar c = [b] := by
  have heq : ∀ {n : Nat}, n < 256 → (b = UInt8.ofNat n ↔ b.toNat = n) := fun {n} hn => by
    rw [← UInt8.toNat_inj, UInt8.toNat_ofNat', Nat.mod_eq_of_lt hn]
  unfold String.utf8EncodeChar at h ⊢
  dsimp only at h ⊢
  split_ifs at h ⊢ <;>
    simp (disch := omega) only [List.mem_cons, List.not_mem_nil, or_false, heq] at h
  · exact ⟨h.symm, by rw [← (heq (by omega)).mpr h]⟩
  all_goals omega

/-- The byte of the line feed belongs to no other character. -/
theorem eq_lineFeed_of_mem {c : Char} (h : 10 ∈ String.utf8EncodeChar c) : c = '\n' :=
  Char.toNat_inj.mp (encode_of_mem (by decide) h).1

theorem lineFeed_notMem_utf8Bytes {s : String} (h : '\n' ∉ s.toList) : (10 : UInt8) ∉ utf8Bytes s := by
  rw [utf8Bytes_eq_flatMap]
  intro hmem
  obtain ⟨c, hc, hbyte⟩ := List.mem_flatMap.mp hmem
  exact h (eq_lineFeed_of_mem hbyte ▸ hc)

/-! ## Bytes that are a text -/

/-- The bytes are the UTF-8 form of a text. -/
def IsText (bytes : List UInt8) : Prop :=
  ∃ s, utf8Bytes s = bytes

theorem fromUTF8?_eq_some_iff {bytes : List UInt8} {s : String} :
    String.fromUTF8? ⟨bytes.toArray⟩ = some s ↔ utf8Bytes s = bytes := by
  constructor
  · intro h
    unfold String.fromUTF8? at h
    split at h
    · rw [← Option.some.inj h]
      exact List.toList_toArray
    · exact absurd h (by simp)
  · rintro rfl
    exact fromUTF8?_toUTF8 s

theorem utf8Bytes_inj {s t : String} : utf8Bytes s = utf8Bytes t ↔ s = t := by
  rw [← fromUTF8?_eq_some_iff]
  show String.fromUTF8? t.toUTF8 = some s ↔ s = t
  rw [fromUTF8?_toUTF8, Option.some_inj, eq_comm]

theorem isSome_fromUTF8?_iff {bytes : List UInt8} :
    (String.fromUTF8? ⟨bytes.toArray⟩).isSome = true ↔ IsText bytes := by
  rw [Option.isSome_iff_exists]
  exact exists_congr fun s => fromUTF8?_eq_some_iff

/-- What stands in front of a byte below 128 is a text if the whole is one. -/
theorem IsText.of_append_cons {xs ys : List UInt8} {b : UInt8} (hb : b.toNat < 128)
    (h : IsText (xs ++ b :: ys)) : IsText xs := by
  obtain ⟨s, hs⟩ := h
  rw [utf8Bytes_eq_flatMap] at hs
  suffices hchars : ∀ cs : List Char, ∀ xs, cs.flatMap String.utf8EncodeChar = xs ++ b :: ys →
      ∃ ds : List Char, ds.flatMap String.utf8EncodeChar = xs by
    obtain ⟨ds, hds⟩ := hchars s.toList xs hs
    exact ⟨String.ofList ds, by rw [utf8Bytes_eq_flatMap, String.toList_ofList, hds]⟩
  intro cs
  induction cs with
  | nil => exact fun xs h => absurd h.symm (List.append_ne_nil_of_right_ne_nil _ (by simp))
  | cons c cs ih =>
    intro xs h
    rw [List.flatMap_cons] at h
    rcases List.append_eq_append_iff.mp h with ⟨as, rfl, hrest⟩ | ⟨bs, hchar, hrest⟩
    · obtain ⟨ds, rfl⟩ := ih as hrest
      exact ⟨c :: ds, List.flatMap_cons⟩
    · cases bs with
      | nil =>
        rw [List.append_nil] at hchar
        exact ⟨[c], by rw [List.flatMap_cons, List.flatMap_nil, List.append_nil, hchar]⟩
      | cons b' bs =>
        obtain rfl : b = b' := (List.cons.inj hrest).1
        obtain ⟨-, halone⟩ := encode_of_mem hb (by rw [hchar]; simp)
        rw [halone] at hchar
        cases xs with
        | nil => exact ⟨[], rfl⟩
        | cons x xs => simp at hchar

end AlertRules.Text
