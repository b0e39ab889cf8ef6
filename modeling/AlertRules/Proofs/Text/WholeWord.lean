import Mathlib.Data.List.Basic
import AlertRules.Text.WholeWord

/-!
# AlertRules.Proofs.Text.WholeWord — what it means to contain a word

A text contains a needle iff the needle stands somewhere in it, letter by letter, with a word boundary
at either end (`containsWord_iff`).  What makes a boundary depends on the needle itself: beside a word
character there must not be another one, beside any other character there must be one.

So a needle that begins and ends with word characters (`Worded`) is found where no word character
stands beside it, as one expects of a word.  A name that begins or ends with a sign or an emoji is
found where that end touches a word, and a text that is exactly this name does not contain it
(`containsWord_iff_bounded`).
-/

namespace AlertRules.Text

open CodePoint (isWord isBoundary)

/-! ## Places -/

/-- Behind `a` and in front of `b`, the needle stands between two word boundaries. -/
def Bounded (a needle b : List Char) : Prop :=
  isBoundary a.getLast? (needle ++ b).head? = true ∧
    isBoundary (a ++ needle).getLast? b.head? = true

/-- What stands between `a` and `b` has no word character beside it. -/
def Apart (a b : List Char) : Prop :=
  a.getLast?.any isWord = false ∧ b.head?.any isWord = false

/-- The text begins and ends with a word character. -/
def Worded (cs : List Char) : Prop :=
  cs.head?.any isWord = true ∧ cs.getLast?.any isWord = true

variable {needle pre cs a b : List Char}

theorem isBoundary_iff {before after : Option Char} :
    isBoundary before after = true ↔ before.any isWord ≠ after.any isWord := by
  unfold isBoundary
  exact bne_iff_ne

/-- A needle that is not empty brings the inner side of both boundaries with it. -/
theorem bounded_iff (hne : needle ≠ []) :
    Bounded a needle b ↔
      isBoundary a.getLast? needle.head? = true ∧ isBoundary needle.getLast? b.head? = true := by
  unfold Bounded
  rw [List.head?_append_of_ne_nil needle hne, List.getLast?_append_of_ne_nil a hne]

/-- Around a needle with word characters at its ends, boundaries are where none stands beside it. -/
theorem Worded.bounded_iff_apart (h : Worded needle) : Bounded a needle b ↔ Apart a b := by
  have hne : needle ≠ [] := by
    rintro rfl
    exact absurd h.1 (by simp)
  rw [bounded_iff hne, isBoundary_iff, isBoundary_iff, h.1, h.2, ne_eq, Bool.not_eq_true, ne_comm,
    ne_eq, Bool.not_eq_true]
  rfl

/-- With nothing around it, a needle lies between two boundaries iff word characters are its ends. -/
theorem bounded_nil_iff (hne : needle ≠ []) : Bounded [] needle [] ↔ Worded needle := by
  rw [bounded_iff hne, isBoundary_iff, isBoundary_iff, ne_comm]
  show needle.head?.any isWord ≠ false ∧ needle.getLast?.any isWord ≠ false ↔ _
  rw [ne_eq, Bool.not_eq_false, ne_eq, Bool.not_eq_false]
  rfl

/-! ## The search -/

theorem behind?_eq_some_iff {last : Option Char} {rest : List Char} :
    behind? pre.getLast? needle cs = some (last, rest) ↔
      cs = needle ++ rest ∧ last = (pre ++ needle).getLast? := by
  induction needle generalizing pre cs with
  | nil =>
    rw [behind?, List.append_nil, Option.some.injEq, Prod.mk.injEq, List.nil_append, and_comm]
    exact and_congr_right fun _ => eq_comm
  | cons n needle ih =>
    cases cs with
    | nil => simp [behind?]
    | cons c cs =>
      rw [behind?]
      split
      · rename_i heq
        subst heq
        have hrest := @ih (pre ++ [n]) cs
        rw [List.getLast?_concat, List.append_assoc, List.singleton_append] at hrest
        rw [hrest, List.cons_append, List.cons_inj_right]
      · rename_i hne
        apply iff_of_false
        · simp
        · rintro ⟨hcs, -⟩
          exact hne (List.cons.inj hcs).1.symm

/-- Behind `pre`, the needle is read here iff it stands here between two boundaries. -/
theorem wordAt_iff :
    wordAt needle pre.getLast? cs = true ↔ ∃ b, cs = needle ++ b ∧ Bounded pre needle b := by
  rw [wordAt, Bool.and_eq_true]
  constructor
  · rintro ⟨hstart, hend⟩
    split at hend
    · rename_i last rest hread
      obtain ⟨rfl, rfl⟩ := behind?_eq_some_iff.mp hread
      exact ⟨rest, rfl, hstart, hend⟩
    · exact absurd hend (by simp)
  · rintro ⟨b, rfl, hstart, hend⟩
    refine ⟨hstart, ?_⟩
    rw [behind?_eq_some_iff.mpr ⟨rfl, rfl⟩]
    exact hend

/-- Behind `pre`, the needle is found iff it stands somewhere in what follows. -/
theorem wordWithin_iff :
    wordWithin needle pre.getLast? cs = true ↔
      ∃ a b, cs = a ++ needle ++ b ∧ Bounded (pre ++ a) needle b := by
  induction cs generalizing pre with
  | nil =>
    rw [wordWithin, wordAt_iff]
    constructor
    · rintro ⟨b, hsplit, hbounded⟩
      exact ⟨[], b, hsplit, by rwa [List.append_nil]⟩
    · rintro ⟨a, b, hsplit, hbounded⟩
      rw [List.append_assoc] at hsplit
      obtain ⟨rfl, hrest⟩ := List.append_eq_nil_iff.mp hsplit.symm
      rw [List.append_nil] at hbounded
      exact ⟨b, hrest.symm, hbounded⟩
  | cons c cs ih =>
    have hlater := @ih (pre ++ [c])
    rw [List.getLast?_concat] at hlater
    rw [wordWithin, Bool.or_eq_true, wordAt_iff, hlater]
    constructor
    · rintro (⟨b, hsplit, hbounded⟩ | ⟨a, b, rfl, hbounded⟩)
      · exact ⟨[], b, hsplit, by rwa [List.append_nil]⟩
      · refine ⟨c :: a, b, rfl, ?_⟩
        rwa [List.append_assoc, List.singleton_append] at hbounded
    · rintro ⟨a, b, hsplit, hbounded⟩
      cases a with
      | nil =>
        rw [List.append_nil] at hbounded
        exact Or.inl ⟨b, hsplit, hbounded⟩
      | cons d a =>
        obtain ⟨rfl, htail⟩ := List.cons.inj hsplit
        refine Or.inr ⟨a, b, htail, ?_⟩
        rwa [List.append_assoc, List.singleton_append]

/-- A text contains the needle iff the needle stands in it between two word boundaries. -/
theorem containsWord_iff (haystack needle : String) :
    containsWord haystack needle = true ↔
      ∃ a b, haystack.toList = a ++ needle.toList ++ b ∧ Bounded a needle.toList b :=
  @wordWithin_iff needle.toList [] haystack.toList

/-! ## Names -/

/-- A needle is found where both of its ends are word boundaries.  Only if it begins and ends with
word characters does this mean that it has none beside it, and only then does it contain itself. -/
theorem containsWord_iff_bounded (haystack needle : String) (hne : needle ≠ "") :
    (containsWord haystack needle = true ↔
      ∃ a b, haystack.toList = a ++ needle.toList ++ b ∧
        isBoundary a.getLast? needle.toList.head? = true ∧
        isBoundary needle.toList.getLast? b.head? = true) ∧
    (Worded needle.toList →
      (containsWord haystack needle = true ↔
        ∃ a b, haystack.toList = a ++ needle.toList ++ b ∧ Apart a b)) ∧
    (containsWord needle needle = true ↔ Worded needle.toList) := by
  have hne' : needle.toList ≠ [] := by rwa [ne_eq, String.toList_eq_nil_iff]
  refine ⟨?place, ?worded, ?itself⟩
  case place =>
    simp only [containsWord_iff, bounded_iff hne']
  case worded =>
    intro hworded
    simp only [containsWord_iff, hworded.bounded_iff_apart]
  case itself =>
    rw [containsWord_iff, ← bounded_nil_iff hne']
    constructor
    · rintro ⟨a, b, hsplit, hbounded⟩
      have hlen := congrArg List.length hsplit
      simp only [List.length_append] at hlen
      obtain rfl : a = [] := List.eq_nil_of_length_eq_zero (by omega)
      obtain rfl : b = [] := List.eq_nil_of_length_eq_zero (by omega)
      exact hbounded
    · intro hbounded
      exact ⟨[], [], by simp, hbounded⟩

/-- The name `J.R` has word characters at its ends, so it stands apart where it is found. -/
theorem containsWord_iff_bounded_initials :
    "J.R" ≠ "" ∧ Worded "J.R".toList ∧
      ∃ a b, "ping J.R. now".toList = a ++ "J.R".toList ++ b ∧ Apart a b := by
  have hne : "J.R" ≠ "" := by decide
  have hworded : Worded "J.R".toList := ⟨by decide +kernel, by decide +kernel⟩
  obtain ⟨-, hplace, -⟩ := containsWord_iff_bounded "ping J.R. now" "J.R" hne
  refine ⟨hne, hworded, (hplace hworded).mp ?_⟩
  decide +kernel

/-- A text that is exactly the name `J.R.` does not contain it: behind the last dot the text ends, and
that is no word boundary. -/
theorem not_containsWord_itself :
    ¬ ∀ haystack needle : String, needle ≠ "" →
      (containsWord haystack needle = true ↔
        ∃ a b, haystack.toList = a ++ needle.toList ++ b ∧ Apart a b) := by
  intro h
  have hmiss : containsWord "J.R." "J.R." = false := by decide +kernel
  have hfound := (h "J.R." "J.R." (by decide)).mpr ⟨[], [], rfl, rfl, rfl⟩
  exact Bool.false_ne_true (hmiss.symm.trans hfound)

end AlertRules.Text
