import AlertRules.Proofs.Glob.Matching

/-!
# AlertRules.Proofs.Glob.Flaws — globs without a matcher

A glob has no matcher iff it is `Spoiled`: read in strict mode, a class in it has an inverted range or
nests too deep (`compile?_eq_none_iff`).  It takes a hyphen to bring that about, since without one a
class is a list of single characters (`hyphen_mem_of_spoiled`).
-/

namespace AlertRules.Glob

/-! ## Flaws -/

/-- A range is inverted, or the difference nests deeper than an expression may. -/
def Difference.Flawed (e : Difference) : Prop :=
  (∃ r ∈ e.ranges, r.last < r.first) ∨ CharClass.nestingLimit < 2 + e.height

/-- In strict mode, one of the classes in the glob is flawed. -/
def Spoiled (mode : Mode) (glob : List Char) : Prop :=
  mode = .strict ∧ ∃ is negated body, Reads glob is ∧ .oneOf negated body ∈ is ∧
    ∃ e : Difference, Body body e.parts ∧ e.Flawed

theorem Difference.flawed_iff {e : Difference} : e.Flawed ↔ ¬ (e.Ordered ∧ e.Shallow) := by
  have hordered : (∃ r ∈ e.ranges, r.last < r.first) ↔ ¬ e.Ordered := by
    simp [Ordered]
  have hshallow : CharClass.nestingLimit < 2 + e.height ↔ ¬ e.Shallow := Nat.not_le.symm
  rw [Flawed, hordered, hshallow, not_and_or]

variable {mode : Mode} {glob : List Char}

theorem not_sound_iff_spoiled : ¬ Sound mode glob ↔ Spoiled mode glob := by
  constructor
  · intro h
    obtain ⟨hstrict, is, his, i, hi, hflaw⟩ : mode = .strict ∧ ∃ is, Reads glob is ∧
        ∃ i ∈ is, ¬ i.Sound := by
      simpa [Sound] using h
    cases i with
    | oneOf negated body =>
      obtain ⟨e, he, hflaw⟩ : ∃ e : Difference, Body body e.parts ∧ ¬ (e.Ordered ∧ e.Shallow) := by
        simpa only [Item.Sound, not_forall, exists_prop] using hflaw
      exact ⟨hstrict, is, negated, body, his, hi, e, he, Difference.flawed_iff.mpr hflaw⟩
    | char | one | many => exact absurd trivial hflaw
  · rintro ⟨hstrict, is, negated, body, his, hi, e, he, hflaw⟩ hsound
    exact Difference.flawed_iff.mp hflaw (hsound hstrict is his _ hi e he)

/-! ## Hyphens -/

/-- What a class lists stands in the glob. -/
theorem Reads.body_subset {cs : List Char} {is : List Item} (h : Reads cs is) {negated : Bool}
    {body : List Char} (hmem : .oneOf negated body ∈ is) : body ⊆ cs := by
  induction h with
  | nil => exact absurd hmem List.not_mem_nil
  | many _ ih | one _ ih | bracket _ _ ih | char _ _ ih =>
    rcases List.mem_cons.mp hmem with heq | hmem
    · exact absurd heq (by simp)
    · exact List.subset_cons_of_subset _ (ih hmem)
  | @oneOf cs negated' body' tail is opens _ ih =>
    apply List.subset_cons_of_subset
    have hparts : body' ⊆ cs ∧ tail ⊆ cs := by
      cases opens with
      | negated | plain => constructor <;> intro c hc <;> simp [hc]
    rcases List.mem_cons.mp hmem with heq | hmem
    · obtain ⟨-, rfl⟩ := Item.oneOf.inj heq
      exact hparts.1
    · exact List.Subset.trans (ih hmem) hparts.2

theorem BodyParts.eq_singles {cs : List Char} {ps : List Part} (h : BodyParts cs ps)
    (hcs : '-' ∉ cs) : ps = cs.map Part.single := by
  induction h with
  | nil => rfl
  | minus | range | hyphen => exact absurd (by simp) hcs
  | char plain alone rest ih =>
    rw [List.map_cons, ih fun hmem => hcs (List.mem_cons_of_mem _ hmem)]

/-- Without hyphens a class body is a list of single characters. -/
theorem Body.eq_singles {cs : List Char} {ps : List Part} (h : Body cs ps) (hcs : '-' ∉ cs) :
    ps = cs.map Part.single := by
  cases h with
  | hyphen => exact absurd List.mem_cons_self hcs
  | parts head parts => exact parts.eq_singles hcs

theorem Difference.not_flawed_of_singles {e : Difference} {cs : List Char}
    (h : e.parts = cs.map Part.single) : ¬ e.Flawed := by
  cases e with
  | minus e rs =>
    have hminus : Part.minus ∈ cs.map Part.single := by
      rw [← h, parts]
      simp
    obtain ⟨c, -, hc⟩ := List.mem_map.mp hminus
    exact Part.noConfusion hc
  | list rs =>
    rintro (⟨r, hr, hlt⟩ | hdeep)
    · have hmem : Part.member r ∈ cs.map Part.single := by
        rw [← h]
        exact List.mem_map_of_mem hr
      obtain ⟨c, -, hc⟩ := List.mem_map.mp hmem
      obtain rfl : ⟨c, c⟩ = r := Part.member.inj hc
      exact absurd hlt (Char.lt_irrefl c)
    · rw [height, listHeight, CharClass.nestingLimit] at hdeep
      split at hdeep <;> omega

theorem hyphen_mem_of_spoiled (h : Spoiled mode glob) : '-' ∈ glob := by
  obtain ⟨-, is, negated, body, his, hi, e, he, hflaw⟩ := h
  by_contra hglob
  have hbody : '-' ∉ body := fun hmem => hglob (his.body_subset hi hmem)
  exact Difference.not_flawed_of_singles (he.eq_singles hbody) hflaw

/-! ## Matchers -/

/-- A glob has no matcher iff it is spoiled, wherever a match may lie. -/
theorem Matcher.compile?_eq_none_iff {pattern : String} {anchor : Anchor} :
    compile? pattern anchor mode = none ↔ Spoiled mode pattern.toList := by
  rw [← not_sound_iff_spoiled, ← isSome_compile?_iff pattern anchor mode,
    Option.not_isSome_iff_eq_none]

end AlertRules.Glob
