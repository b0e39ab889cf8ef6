import AlertRules.Proofs.Glob.Literal

/-!
# AlertRules.Proofs.Glob.Wildcards — what a wildcard takes

A glob with one wildcard between texts that are `Plain` has one item for each of their characters, and
one for the wildcard (`around`).  It accepts a text as a whole if that is like these texts in
front and behind, up to case, and what remains is something the wildcard takes
(`mem_prod_around_iff`).  Where the text in front and the one behind are the glob's own, their lengths
leave only one way to cut it (`append_mem_prod_around_iff`).

The star takes any run of characters and the question mark any character, but never a line feed: a
wildcard ends with its line (`wildcards_take_within_line`).
-/

namespace AlertRules.Glob

variable {p s m w : List Char} {i : Item}

/-- An item with the characters of `p` in front and those of `s` behind. -/
def around (p : List Char) (i : Item) (s : List Char) : List Item :=
  p.map .char ++ i :: s.map .char

/-! ## Taking -/

/-- A row of characters with one other item among them takes what that item takes, between texts that
are like the characters around it. -/
theorem mem_prod_around_iff :
    w ∈ ((around p i s).map Item.language).prod ↔
      ∃ a m b, w = a ++ m ++ b ∧
        List.Forall₂ SameFold p a ∧ m ∈ i.language ∧ List.Forall₂ SameFold s b := by
  rw [around, List.map_append, List.prod_append, List.map_cons, List.prod_cons, Language.mem_mul]
  constructor
  · rintro ⟨a, ha, x, hx, rfl⟩
    obtain ⟨m, hm, b, hb, rfl⟩ := Language.mem_mul.mp hx
    refine ⟨a, m, b, (List.append_assoc _ _ _).symm, ?_, hm, ?_⟩
    · exact (mem_prod_chars_iff p a).mp ha
    · exact (mem_prod_chars_iff s b).mp hb
  · rintro ⟨a, m, b, rfl, ha, hm, hb⟩
    refine ⟨a, (mem_prod_chars_iff p a).mpr ha, m ++ b, ?_, (List.append_assoc _ _ _).symm⟩
    exact Language.append_mem_mul hm ((mem_prod_chars_iff s b).mpr hb)

/-- Between the characters themselves only what the item takes is left. -/
theorem append_mem_prod_around_iff :
    p ++ m ++ s ∈ ((around p i s).map Item.language).prod ↔ m ∈ i.language := by
  rw [mem_prod_around_iff]
  constructor
  · rintro ⟨a, m', b, hsplit, ha, hm, hb⟩
    obtain ⟨hfront, rfl⟩ := List.append_inj' hsplit hb.length_eq
    obtain ⟨rfl, rfl⟩ := List.append_inj hfront ha.length_eq
    exact hm
  · intro hm
    exact ⟨p, m, s, rfl, forall₂_sameFold_self p, hm, forall₂_sameFold_self s⟩

theorem sound_around {glob : List Char} (hread : Reads glob (around p i s)) (hi : i.Sound) :
    Sound .strict glob := by
  rw [sound_iff, items, reads_iff.mp hread, around, List.forall_mem_append, List.forall_mem_cons]
  exact ⟨sound_of_mem_chars, hi, sound_of_mem_chars⟩

theorem accepts_around_iff {glob : List Char} (hread : Reads glob (around p i s)) (hi : i.Sound) :
    Accepts .strict glob (p ++ m ++ s) ↔ p ++ m ++ s ≠ [] ∧ m ∈ i.language := by
  rw [Accepts, and_iff_right (sound_around hread hi), language_eq_prod, items, reads_iff.mp hread,
    append_mem_prod_around_iff]

/-! ## Matching -/

/-- A glob that reads as characters around one item has a matcher.  Between its own characters the
matcher takes what the item takes. -/
theorem exists_matcher_around {glob p s : String}
    (hread : Reads glob.toList (around p.toList i s.toList)) (hi : i.Sound) :
    ∃ g, Matcher.compile? glob .full .strict = some g ∧
      ∀ m : String, g.isMatch (p ++ m ++ s) = true ↔
        p ++ m ++ s ≠ "" ∧ m.toList ∈ i.language := by
  have hsome := (Matcher.isSome_compile?_iff glob .full .strict).mpr (sound_around hread hi)
  obtain ⟨g, hg⟩ := Option.isSome_iff_exists.mp hsome
  refine ⟨g, hg, fun m => ?_⟩
  have haccepts := any_isMatch_iff glob .strict (p ++ m ++ s)
  rw [hg, Option.any_some, String.toList_append, String.toList_append,
    accepts_around_iff hread hi] at haccepts
  rw [haccepts, ← String.toList_append, ← String.toList_append, ne_eq, String.toList_eq_nil_iff]

/-- Between plain texts, the star takes any run of characters without a line feed and the question
mark any character but a line feed. -/
theorem wildcards_take_within_line (p s : String) (hp : Plain p.toList) (hs : Plain s.toList) :
    (∃ g, Matcher.compile? (p ++ "*" ++ s) .full .strict = some g ∧
      ∀ m : String, g.isMatch (p ++ m ++ s) = true ↔ p ++ m ++ s ≠ "" ∧ '\n' ∉ m.toList) ∧
    ∃ g, Matcher.compile? (p ++ "?" ++ s) .full .strict = some g ∧
      ∀ c : Char, g.isMatch (p ++ String.singleton c ++ s) = true ↔ c ≠ '\n' := by
  have hback : Reads s.toList (s.toList.map .char) := reads_chars hs.noMany hs.noOne hs.noOpen
  constructor
  · have hread : Reads (p ++ "*" ++ s).toList (around p.toList .many s.toList) := by
      rw [String.toList_append, String.toList_append, List.append_assoc]
      exact hp.reads_append (.many hback)
    exact exists_matcher_around hread trivial
  · have hread : Reads (p ++ "?" ++ s).toList (around p.toList .one s.toList) := by
      rw [String.toList_append, String.toList_append, List.append_assoc]
      exact hp.reads_append (.one hback)
    obtain ⟨g, hg, hmatch⟩ := exists_matcher_around hread trivial
    refine ⟨g, hg, fun c => ?_⟩
    have hne : p ++ String.singleton c ++ s ≠ "" := by
      intro h
      have hlen := congrArg String.length h
      simp at hlen
    rw [hmatch, and_iff_right hne, String.toList_singleton, singleton_mem_one_iff]

theorem plain_ab : Plain "a".toList ∧ Plain "b".toList :=
  ⟨⟨by decide, by decide, by decide⟩, ⟨by decide, by decide, by decide⟩⟩

/-- Between `a` and `b`, the star takes a tab and no line feed. -/
theorem wildcards_take_within_line_tab :
    Plain "a".toList ∧ Plain "b".toList ∧
      ∃ g, Matcher.compile? ("a" ++ "*" ++ "b") .full .strict = some g ∧
        g.isMatch ("a" ++ "\t" ++ "b") = true ∧ g.isMatch ("a" ++ "\n" ++ "b") = false := by
  obtain ⟨ha, hb⟩ := plain_ab
  obtain ⟨⟨g, hg, hmatch⟩, -⟩ := wildcards_take_within_line "a" "b" ha hb
  refine ⟨ha, hb, g, hg, (hmatch "\t").mpr ⟨by decide, by decide⟩, ?_⟩
  rw [Bool.eq_false_iff, ne_eq, hmatch "\n"]
  exact fun h => h.2 (by decide)

/-- A text of two lines is not taken by the star, though it begins and ends like the glob. -/
theorem not_always_taken :
    ¬ ∀ p s m : String, Plain p.toList → Plain s.toList → p ++ m ++ s ≠ "" →
      (Matcher.compile? (p ++ "*" ++ s) .full .strict).any (·.isMatch (p ++ m ++ s)) = true := by
  intro h
  obtain ⟨ha, hb⟩ := plain_ab
  have htaken := h "a" "b" "\n" ha hb (by decide)
  have hmiss : (Matcher.compile? ("a" ++ "*" ++ "b") .full .strict).any
      (·.isMatch ("a" ++ "\n" ++ "b")) = false := by
    decide +kernel
  exact Bool.false_ne_true (hmiss.symm.trans htaken)

end AlertRules.Glob
