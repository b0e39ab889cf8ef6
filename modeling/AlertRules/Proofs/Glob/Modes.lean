import AlertRules.Glob.Matcher
import AlertRules.Proofs.Glob.Reading

/-!
# AlertRules.Proofs.Glob.Modes — globs that are read alike in both modes

A glob is `Inert` if nothing in it expands: there is no wildcard, and no bracket opens a class.  A
bracket opens one unless it is never closed or there is nothing in it (`opensClass_iff`).

In legacy mode every character is written as itself.  The reading in strict mode is compared with that
from left to right: the first thing that expands is written without the backslash that its character
would have (`expression_append_ne`), and up to there both modes write the same.  So both write one
expression for the inert globs, and for no others (`modes_agree_iff`).
-/

namespace AlertRules.Glob

variable {c : Char} {cs : List Char}

/-! ## Inert globs -/

/-- Behind an opening bracket, `cs` is a class and what follows it. -/
def OpensClass (cs : List Char) : Prop :=
  ∃ negated body tail, Opens cs negated body tail

/-- **`Inert glob`** — every character of the glob stands for itself. -/
structure Inert (glob : List Char) : Prop where
  noMany : '*' ∉ glob
  noOne : '?' ∉ glob
  noClass : ∀ front cs, glob = front ++ '[' :: cs → ¬ OpensClass cs

/-- A bracket opens a class iff it is closed, and not at once or behind an exclamation mark alone. -/
theorem opensClass_iff : OpensClass cs ↔ ']' ∈ cs ∧ cs.head? ≠ some ']' ∧ cs.take 2 ≠ ['!', ']'] := by
  constructor
  · rintro ⟨negated, body, tail, hopens⟩
    cases hopens with
    | negated nonempty first =>
      obtain ⟨d, body, rfl⟩ := List.exists_cons_of_ne_nil nonempty
      have hd : d ≠ ']' := fun h => first (h ▸ List.mem_cons_self)
      exact ⟨by simp, by simp, by simp [hd]⟩
    | plain nonempty first unmarked =>
      obtain ⟨d, body, rfl⟩ := List.exists_cons_of_ne_nil nonempty
      have hd : d ≠ ']' := fun h => first (h ▸ List.mem_cons_self)
      have hmark : d ≠ '!' := fun h => unmarked (h ▸ rfl)
      exact ⟨by simp, by simp [hd], by simp [hmark]⟩
  · rintro ⟨hclosed, hhead, htake⟩
    obtain ⟨body, tail, rfl, hfirst⟩ := List.eq_append_cons_of_mem hclosed
    have hbody : body ≠ [] := by
      rintro rfl
      exact hhead rfl
    by_cases hmark : body.head? = some '!'
    · obtain ⟨body, rfl⟩ := List.head?_eq_some_iff.mp hmark
      have hbody : body ≠ [] := by
        rintro rfl
        exact htake rfl
      exact ⟨true, body, tail, .negated hbody fun h => hfirst (List.mem_cons_of_mem _ h)⟩
    · exact ⟨false, body, tail, .plain hbody hfirst hmark⟩

instance (cs : List Char) : Decidable (OpensClass cs) :=
  decidable_of_iff _ opensClass_iff.symm

theorem inert_nil : Inert [] :=
  ⟨List.not_mem_nil, List.not_mem_nil, fun _ _ h => absurd h (by simp)⟩

theorem inert_cons_iff : Inert (c :: cs) ↔
    (c ≠ '*' ∧ c ≠ '?' ∧ (c = '[' → ¬ OpensClass cs)) ∧ Inert cs := by
  constructor
  · rintro ⟨hmany, hone, hclass⟩
    rw [List.mem_cons, not_or] at hmany hone
    refine ⟨⟨Ne.symm hmany.1, Ne.symm hone.1, ?_⟩, hmany.2, hone.2, ?_⟩
    · rintro rfl
      exact hclass [] cs rfl
    · rintro front ds rfl
      exact hclass (c :: front) ds rfl
  · rintro ⟨⟨hmany, hone, hopen⟩, h⟩
    refine ⟨by simp [Ne.symm hmany, h.noMany], by simp [Ne.symm hone, h.noOne], ?_⟩
    intro front ds hsplit
    rcases List.cons_eq_append_iff.mp hsplit with ⟨rfl, hds⟩ | ⟨front, rfl, rfl⟩
    · obtain ⟨rfl, rfl⟩ := List.cons.inj hds
      exact hopen rfl
    · exact h.noClass front ds rfl

instance decidableInert : (glob : List Char) → Decidable (Inert glob)
  | [] => .isTrue inert_nil
  | _ :: cs =>
    have := decidableInert cs
    decidable_of_iff _ inert_cons_iff.symm

/-! ## Expressions -/

/-- What expands is not written like a character that has to be escaped. -/
theorem expression_append_ne {i : Item} (hi : ∀ d, i ≠ .char d) (hc : isMeta c = true)
    (rest rest' : List Char) : i.expression ++ rest ≠ (Item.char c).expression ++ rest' := by
  rw [Item.expression, escape, if_pos hc]
  cases i with
  | char d => exact absurd rfl (hi d)
  | one | many | oneOf => simp [Item.expression]

/-- The items of a glob in strict mode are written like its characters iff the glob is inert. -/
theorem Reads.expression_eq_iff {is : List Item} (h : Reads cs is) :
    is.flatMap Item.expression = (cs.map Item.char).flatMap Item.expression ↔ Inert cs := by
  induction h with
  | nil => exact iff_of_true rfl inert_nil
  | many rest ih =>
    refine iff_of_false ?_ fun hinert => hinert.noMany List.mem_cons_self
    exact expression_append_ne (by simp) (by decide) _ _
  | one rest ih =>
    refine iff_of_false ?_ fun hinert => hinert.noOne List.mem_cons_self
    exact expression_append_ne (by simp) (by decide) _ _
  | oneOf opens rest ih =>
    refine iff_of_false ?_ fun hinert => hinert.noClass [] _ rfl ⟨_, _, _, opens⟩
    exact expression_append_ne (by simp) (by decide) _ _
  | bracket literal rest ih =>
    have hopen : ¬ OpensClass _ := fun ⟨negated, body, tail, hopens⟩ =>
      literal negated body tail hopens
    rw [List.map_cons, List.flatMap_cons, List.flatMap_cons, List.append_right_inj, ih,
      inert_cons_iff]
    exact (and_iff_right ⟨by decide, by decide, fun _ => hopen⟩).symm
  | char plain rest ih =>
    rw [List.map_cons, List.flatMap_cons, List.flatMap_cons, List.append_right_inj, ih,
      inert_cons_iff]
    exact (and_iff_right ⟨plain.1, plain.2.1, fun hc => absurd hc plain.2.2⟩).symm

theorem expression_eq_iff (glob : String) :
    expression .strict glob = expression .legacy glob ↔ Inert glob.toList := by
  rw [expression, expression, String.ofList_inj]
  exact (reads_iff.mpr rfl).expression_eq_iff

/-- Both modes write one expression for a glob iff it is inert, and then they give one matcher. -/
theorem modes_agree_iff (glob : String) :
    (expression .strict glob = expression .legacy glob ↔ Inert glob.toList) ∧
      (Inert glob.toList → ∀ anchor,
        Matcher.compile? glob anchor .strict = Matcher.compile? glob anchor .legacy) := by
  refine ⟨expression_eq_iff glob, fun hinert anchor => ?_⟩
  rw [Matcher.compile?, Matcher.compile?, (expression_eq_iff glob).mpr hinert]

/-- Brackets that are empty or never closed expand nothing. -/
theorem modes_agree_iff_stray :
    Inert "[]x[!]+[y".toList ∧ ∀ anchor,
      Matcher.compile? "[]x[!]+[y" anchor .strict = Matcher.compile? "[]x[!]+[y" anchor .legacy := by
  have hinert : Inert "[]x[!]+[y".toList := by decide
  exact ⟨hinert, (modes_agree_iff "[]x[!]+[y").2 hinert⟩

end AlertRules.Glob
