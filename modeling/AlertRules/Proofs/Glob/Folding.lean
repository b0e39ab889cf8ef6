import AlertRules.Proofs.CodePoint.Word
import AlertRules.Proofs.Glob.Literal

/-!
# AlertRules.Proofs.Glob.Folding — a matcher does not see case

Two characters that have one case folding are taken by the same atoms (`takes_congr`): a class closes
each of its lists under case variants first, so that whatever is taken away or negated afterwards
holds both or neither, and the line feed, which the dot leaves out, has no case variant.  They are also
word characters together.  So they move the places of a matcher alike (`advance_congr`), and two texts
that differ in case only lead to the same places from beginning to end (`foldl_advance_congr`,
`foundFrom_congr`).

That is all that matchers do not see.  Read in legacy mode, a text is a glob for its case variants
alone, so that it tells every other text from itself (`matched_alike_iff`).
-/

namespace AlertRules.Glob

open CodePoint (isWord isWord_congr isBoundary)

variable {c d : Char} {v w : List Char}

/-! ## One character -/

theorem covers_congr (rs : List Range) (h : SameFold c d) : covers rs c = covers rs d := by
  have hfold : CodePoint.fold c.toNat = CodePoint.fold d.toNat := h
  have hvariants : CodePoint.variants c.toNat = CodePoint.variants d.toNat := by
    rw [CodePoint.variants, CodePoint.variants, hfold]
  rw [covers, covers, hvariants]

theorem contains_congr (k : CharClass) (h : SameFold c d) : k.contains c = k.contains d := by
  simp only [CharClass.contains, covers_congr _ h]

theorem eq_lineFeed_of_sameFold (h : SameFold '\n' d) : d = '\n' := by
  have hcaseless : ∀ c ∈ ['\n'], ∀ d, SameFold c d → d = c :=
    caseless_of_mask (by decide +kernel) (by decide +kernel)
  exact hcaseless _ List.mem_cons_self d h

theorem eq_lineFeed_congr (h : SameFold c d) : c = '\n' ↔ d = '\n' := by
  constructor
  · rintro rfl
    exact eq_lineFeed_of_sameFold h
  · rintro rfl
    exact eq_lineFeed_of_sameFold h.symm

/-- An atom takes both of two case variants, or neither. -/
theorem takes_congr (a : Atom) (h : SameFold c d) : a.takes c = a.takes d := by
  cases a with
  | folded n =>
    show (CodePoint.fold c.toNat == n) = (CodePoint.fold d.toNat == n)
    rw [h]
  | any | run =>
    show (c != '\n') = (d != '\n')
    rw [Bool.eq_iff_iff, bne_iff_ne, bne_iff_ne, ne_eq, ne_eq, eq_lineFeed_congr h]
  | set k => exact contains_congr k h

theorem advance_congr (h : SameFold c d) (carry : Bool) (as : List Atom) (live : Live) :
    advance c carry as live = advance d carry as live := by
  induction as generalizing carry live with
  | nil => cases live <;> rfl
  | cons a as ih =>
    cases live with
    | nil => rfl
    | cons b bs => simp only [advance, takes_congr a h, ih]

/-! ## Texts -/

theorem foldl_advance_congr (as : List Atom) (h : List.Forall₂ SameFold v w) (live : Live) :
    v.foldl (fun live c => advance c false as live) live =
      w.foldl (fun live c => advance c false as live) live := by
  induction h generalizing live with
  | nil => rfl
  | cons hhead _ ih => rw [List.foldl_cons, List.foldl_cons, advance_congr hhead, ih]

/-- A match is found in both of two texts that differ in case only, or in neither. -/
theorem foundFrom_congr (as : List Atom) (h : List.Forall₂ SameFold v w) (live : Live)
    {before before' : Option Char} (hbefore : before.any isWord = before'.any isWord) :
    Matcher.foundFrom as live before v = Matcher.foundFrom as live before' w := by
  induction h generalizing live before before' with
  | nil => simp only [Matcher.foundFrom, isBoundary, hbefore]
  | @cons c d v w hhead _ ih =>
    have hword : (some c).any isWord = (some d).any isWord := isWord_congr hhead
    have hboundary : isBoundary before (some c) = isBoundary before' (some d) := by
      rw [isBoundary, isBoundary, hbefore, hword]
    simp only [Matcher.foundFrom, hboundary, advance_congr hhead, ih _ hword]

/-! ## Values -/

namespace Matcher

/-- A matcher gives one answer on texts that differ in case only. -/
theorem isMatch_congr (m : Matcher) {text text' : String}
    (h : List.Forall₂ SameFold text.toList text'.toList) : m.isMatch text = m.isMatch text' := by
  have hempty : text = "" ↔ text' = "" := by
    rw [← String.toList_eq_nil_iff, ← String.toList_eq_nil_iff, ← List.length_eq_zero_iff,
      h.length_eq, List.length_eq_zero_iff]
  have hne : (text != "") = (text' != "") := by
    rw [Bool.eq_iff_iff, bne_iff_ne, bne_iff_ne, ne_eq, ne_eq, hempty]
  rw [isMatch, isMatch, hne]
  cases m.anchor with
  | full =>
    show (_ && spans _ _) = (_ && spans _ _)
    rw [spans, spans, foldl_advance_congr _ h]
  | word =>
    show (_ && foundFrom _ _ _ _) = (_ && foundFrom _ _ _ _)
    rw [foundFrom_congr _ h _ rfl]

/-- Read in legacy mode, a text is a glob for the texts that differ from it in case only. -/
theorem exists_matcher_legacy (text : String) :
    ∃ m, compile? text .full .legacy = some m ∧ ∀ text' : String,
      m.isMatch text' = true ↔ text' ≠ "" ∧ List.Forall₂ SameFold text.toList text'.toList := by
  have hsound : Sound .legacy text.toList := fun h => absurd h (by decide)
  have hsome := (isSome_compile?_iff text .full .legacy).mpr hsound
  obtain ⟨m, hm⟩ := Option.isSome_iff_exists.mp hsome
  refine ⟨m, hm, fun text' => ?_⟩
  have haccepts := any_isMatch_iff text .legacy text'
  rw [hm, Option.any_some, Accepts, and_iff_right hsound, ne_eq, String.toList_eq_nil_iff]
    at haccepts
  exact haccepts

/-- Two values are of one length and have, character by character, the same case folding iff no glob
tells them apart, whatever its mode and anchor. -/
theorem matched_alike_iff (value value' : String) :
    List.Forall₂ SameFold value.toList value'.toList ↔
      ∀ glob anchor mode m, compile? glob anchor mode = some m →
        m.isMatch value = m.isMatch value' := by
  constructor
  · exact fun h _ _ _ m _ => m.isMatch_congr h
  · intro halike
    by_cases hvalue : value = ""
    · by_cases hvalue' : value' = ""
      · rw [hvalue, hvalue']
        exact .nil
      · obtain ⟨m, hm, hmatch⟩ := exists_matcher_legacy value'
        have hself := (hmatch value').mpr ⟨hvalue', forall₂_sameFold_self _⟩
        rw [← halike _ _ _ m hm] at hself
        exact absurd hvalue ((hmatch value).mp hself).1
    · obtain ⟨m, hm, hmatch⟩ := exists_matcher_legacy value
      have hself := (hmatch value).mpr ⟨hvalue, forall₂_sameFold_self _⟩
      rw [halike _ _ _ m hm] at hself
      exact ((hmatch value').mp hself).2

/-- The class that leaves out all letters but `k` holds the Kelvin sign, which folds to `k`. -/
theorem matched_alike_iff_kelvin :
    ∃ m, compile? "[!a-z--k]" .word .strict = some m ∧
      List.Forall₂ SameFold "\u212A".toList "k".toList ∧
      m.isMatch "\u212A" = m.isMatch "k" ∧ m.isMatch "k" = true := by
  have hm : compile? "[!a-z--k]" .word .strict =
      some ⟨.word, [.set ⟨true, [⟨'a', 'z'⟩], [[⟨'k', 'k'⟩]]⟩]⟩ := by
    decide +kernel
  have hfold : List.Forall₂ SameFold "\u212A".toList "k".toList :=
    .cons (by decide +kernel : CodePoint.fold 0x212A = CodePoint.fold 0x6B) .nil
  exact ⟨_, hm, hfold, (matched_alike_iff _ _).mp hfold _ _ _ _ hm, by decide +kernel⟩

end Matcher

end AlertRules.Glob
