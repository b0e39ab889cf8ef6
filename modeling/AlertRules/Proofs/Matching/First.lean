import AlertRules.Proofs.KeyMap
import AlertRules.Proofs.Matching.Search
import AlertRules.Proofs.Text.ByteOrder

/-!
# AlertRules.Proofs.Matching.First — the rule that is found comes first

A rule of a rule set stands at a `Place`: under a device or with the rules for all devices, under a
kind, and at a position in that list.  Places come one before the other by device, then by kind, then
by position (`Place.Before`).  The search answers with the first of the places whose rules match, and
has no answer only when no rule matches anywhere (`Ruleset.match?_eq_first`).

Each level of the search contributes its own order: a list its positions (`find?_holds`), a set of
rules the precedence of kinds (`KindSet.match?_eq_some`), and the map of devices the order of its keys
(`Ruleset.match?_eq_some`), which is the order of the bytes of the names.
-/

namespace AlertRules

open Text (utf8Bytes)

/-! ## Places -/

/-- Where a rule stands in a rule set: under a device or with the rules for all devices, under a kind,
and at which position. -/
structure Place where
  device : Option String
  kind : Kind
  index : Nat

/-- **`p.Before q`** — the rule at `p` is tried before the one at `q`. -/
inductive Place.Before : Place → Place → Prop
  /-- Devices come in the order of the bytes of their names. -/
  | device {a b : String} {k l : Kind} {i j : Nat} (h : utf8Bytes a < utf8Bytes b) :
      Before ⟨some a, k, i⟩ ⟨some b, l, j⟩
  /-- The rules of devices come before those for all devices. -/
  | scope {a : String} {k l : Kind} {i j : Nat} : Before ⟨some a, k, i⟩ ⟨none, l, j⟩
  /-- Under one device, kinds come in the order of precedence. -/
  | kind {d : Option String} {k l : Kind} {i j : Nat} (h : k.rank < l.rank) :
      Before ⟨d, k, i⟩ ⟨d, l, j⟩
  /-- Rules of one kind come in the order of the list. -/
  | index {d : Option String} {k : Kind} {i j : Nat} (h : i < j) : Before ⟨d, k, i⟩ ⟨d, k, j⟩

theorem Place.Before.asymm {p q : Place} (h : p.Before q) : ¬ q.Before p := by
  intro h'
  cases h with
  | device h =>
    cases h' with
    | device h' => exact List.lt_asymm h h'
    | kind | index => exact List.lt_irrefl _ h
  | scope => cases h'
  | kind h =>
    cases h' with
    | device h' => exact List.lt_irrefl _ h'
    | kind h' => exact Nat.lt_asymm h h'
    | index => exact Nat.lt_irrefl _ h
  | index h =>
    cases h' with
    | device h' => exact List.lt_irrefl _ h'
    | kind h' => exact Nat.lt_irrefl _ h'
    | index h' => exact Nat.lt_asymm h h'

namespace Ruleset

/-- The rules of a device, or those for all devices. -/
def group? (rules : Ruleset) : Option String → Option KindSet
  | some name => rules.device.get? name
  | none => some rules.global

/-- The rule that stands at a place. -/
def ruleAt? (rules : Ruleset) (p : Place) : Option Rule :=
  (rules.group? p.device).bind fun set => (set.rules p.kind)[p.index]?

/-- A rule that the event matches stands at the place. -/
def MatchesAt (rules : Ruleset) (s : Setting) (e : Event) (p : Place) : Prop :=
  ∃ r, rules.ruleAt? p = some r ∧ r.holds s p.kind e = true

/-- **`rules.FirstMatch s e p`** — the rule at the place matches, and whatever else matches comes
later. -/
structure FirstMatch (rules : Ruleset) (s : Setting) (e : Event) (p : Place) : Prop where
  matchesAt : rules.MatchesAt s e p
  before : ∀ q, rules.MatchesAt s e q → q = p ∨ p.Before q

variable {rules : Ruleset} {s : Setting} {e : Event} {p q : Place}

theorem FirstMatch.unique (hp : rules.FirstMatch s e p) (hq : rules.FirstMatch s e q) : q = p := by
  rcases hp.before q hq.matchesAt with heq | hpq
  · exact heq
  · rcases hq.before p hp.matchesAt with heq | hqp
    · exact heq.symm
    · exact absurd hqp hpq.asymm

end Ruleset

/-! ## Within a list and a set -/

section Group

variable {s : Setting} {e : Event} {kind : Kind} {r : Rule} {set : KindSet}

/-- The rule of the kind at the position matches. -/
def KindSet.MatchesAt (set : KindSet) (s : Setting) (e : Event) (kind : Kind) (i : Nat) : Prop :=
  ∃ r, (set.rules kind)[i]? = some r ∧ r.holds s kind e = true

theorem find?_ne_none_of_matchesAt {i : Nat} (h : set.MatchesAt s e kind i) :
    (set.rules kind).find? (·.holds s kind e) ≠ none := by
  obtain ⟨r, hr, hholds⟩ := h
  intro hnone
  exact List.find?_eq_none.mp hnone r (List.mem_of_getElem? hr) hholds

/-- The rule that is found in a list matches, and those before it do not. -/
theorem find?_holds (h : (set.rules kind).find? (·.holds s kind e) = some r) :
    ∃ i, (set.rules kind)[i]? = some r ∧ r.holds s kind e = true ∧
      ∀ j, set.MatchesAt s e kind j → j = i ∨ i < j := by
  obtain ⟨hholds, i, hi, hr, hbefore⟩ := List.find?_eq_some_iff_getElem.mp h
  refine ⟨i, List.getElem?_eq_some_iff.mpr ⟨hi, hr⟩, hholds, fun j ⟨r', hr', hholds'⟩ => ?_⟩
  rcases Nat.lt_trichotomy j i with hlt | heq | hgt
  · obtain ⟨hj, rfl⟩ := List.getElem?_eq_some_iff.mp hr'
    have hnot := hbefore j hlt
    rw [hholds'] at hnot
    exact absurd hnot (by decide)
  · exact .inl heq
  · exact .inr hgt

theorem precedence_pairwise : Kind.precedence.Pairwise fun k l => k.rank < l.rank := by
  decide

theorem mem_precedence (kind : Kind) : kind ∈ Kind.precedence := by
  cases kind <;> decide

theorem KindSet.match?_ne_none {i : Nat} (h : set.MatchesAt s e kind i) : set.match? s e ≠ none := by
  intro hnone
  rw [KindSet.match?_eq, List.findSome?_eq_none_iff] at hnone
  exact find?_ne_none_of_matchesAt h (Option.map_eq_none_iff.mp (hnone kind (mem_precedence kind)))

/-- The rule that is found in a set matches, and whatever else matches is of a later kind or stands
behind it. -/
theorem KindSet.match?_eq_some (h : set.match? s e = some (kind, r)) :
    ∃ i, (set.rules kind)[i]? = some r ∧ r.holds s kind e = true ∧
      ∀ l j, set.MatchesAt s e l j → kind.rank < l.rank ∨ l = kind ∧ (j = i ∨ i < j) := by
  rw [KindSet.match?_eq] at h
  obtain ⟨k, -, hk, hlater⟩ := findSome?_eq_some_of_pairwise precedence_pairwise h
  obtain ⟨r', hfind, heq⟩ := Option.map_eq_some_iff.mp hk
  obtain ⟨rfl, rfl⟩ := Prod.mk.inj heq
  obtain ⟨i, hi, hholds, hbefore⟩ := find?_holds hfind
  refine ⟨i, hi, hholds, fun l j hlj => ?_⟩
  simp only [ne_eq, Option.map_eq_none_iff] at hlater
  rcases hlater l (mem_precedence l) (find?_ne_none_of_matchesAt hlj) with rfl | hrank
  · exact .inr ⟨rfl, hbefore j hlj⟩
  · exact .inl hrank

end Group

/-! ## Within a rule set -/

namespace Ruleset

variable {rules : Ruleset} {s : Setting} {e : Event}

theorem matchesAt_iff {p : Place} :
    rules.MatchesAt s e p ↔
      ∃ set, rules.group? p.device = some set ∧ set.MatchesAt s e p.kind p.index := by
  simp only [MatchesAt, ruleAt?, KindSet.MatchesAt, Option.bind_eq_some_iff]
  constructor
  · rintro ⟨r, ⟨set, hset, hr⟩, hholds⟩
    exact ⟨set, hset, r, hr, hholds⟩
  · rintro ⟨set, hset, r, hr, hholds⟩
    exact ⟨r, ⟨set, hset, hr⟩, hholds⟩

/-- Where a rule matches, its group has an answer. -/
theorem match?_group_ne_none {p : Place} (h : rules.MatchesAt s e p) :
    ∃ set, rules.group? p.device = some set ∧ set.match? s e ≠ none := by
  obtain ⟨set, hset, hmatches⟩ := matchesAt_iff.mp h
  exact ⟨set, hset, KindSet.match?_ne_none hmatches⟩

/-- The answer of the group that decides is at a first place, once every match is in that group or
in one that comes later. -/
theorem firstMatch_of_group {device : Option String} {set : KindSet} {kind : Kind} {r : Rule}
    (hset : rules.group? device = some set) (hfound : set.match? s e = some (kind, r))
    (hother : ∀ q, rules.MatchesAt s e q → q.device = device ∨ ∀ i, Place.Before ⟨device, kind, i⟩ q) :
    ∃ i, rules.FirstMatch s e ⟨device, kind, i⟩ ∧ rules.ruleAt? ⟨device, kind, i⟩ = some r := by
  obtain ⟨i, hi, hholds, hlater⟩ := KindSet.match?_eq_some hfound
  have hrule : rules.ruleAt? ⟨device, kind, i⟩ = some r := Option.bind_eq_some_iff.mpr ⟨set, hset, hi⟩
  refine ⟨i, ⟨⟨r, hrule, hholds⟩, fun q hq => ?_⟩, hrule⟩
  rcases hother q hq with hdevice | hbefore
  · obtain ⟨d, l, j⟩ := q
    obtain rfl : d = device := hdevice
    obtain ⟨set', hset', hmatches⟩ := matchesAt_iff.mp hq
    obtain rfl := Option.some.inj (hset.symm.trans hset')
    rcases hlater l j hmatches with hrank | ⟨rfl, rfl | hlt⟩
    · exact .inr (.kind hrank)
    · exact .inl rfl
    · exact .inr (.index hlt)
  · exact .inr (hbefore i)

/-- The rule that is found stands at the first place where a rule matches. -/
theorem match?_eq_some {found : MatchedRule} (h : rules.match? s e = some found) :
    ∃ i, rules.FirstMatch s e ⟨found.device, found.kind, i⟩ ∧
      rules.ruleAt? ⟨found.device, found.kind, i⟩ = some found.rule := by
  rw [match?_eq, Option.or_eq_some_iff] at h
  rcases h with hdevices | ⟨hnone, hglobal⟩
  · obtain ⟨⟨name, set⟩, hmem, hanswer, hlater⟩ :=
      findSome?_eq_some_of_pairwise rules.device.sorted hdevices
    obtain ⟨⟨kind, r⟩, hfound, rfl⟩ := Option.map_eq_some_iff.mp hanswer
    refine firstMatch_of_group (KeyMap.get?_eq_some_iff.mpr hmem) hfound fun q hq => ?_
    simp only [ne_eq, Option.map_eq_none_iff] at hlater
    obtain ⟨_ | other, l, j⟩ := q
    · exact .inr fun i => .scope
    · obtain ⟨set', hset', hne⟩ := match?_group_ne_none hq
      rcases hlater (other, set') (KeyMap.get?_eq_some_iff.mp hset') hne with heq | hlt
      · exact .inl (congrArg some (Prod.mk.inj heq).1)
      · exact .inr fun i => .device (Text.lt_iff_utf8Bytes_lt.mp hlt)
  · obtain ⟨⟨kind, r⟩, hfound, rfl⟩ := Option.map_eq_some_iff.mp hglobal
    refine firstMatch_of_group rfl hfound fun q hq => ?_
    obtain ⟨_ | other, l, j⟩ := q
    · exact .inl rfl
    · obtain ⟨set', hset', hne⟩ := match?_group_ne_none hq
      have hnothing := List.findSome?_eq_none_iff.mp hnone (other, set')
        (KeyMap.get?_eq_some_iff.mp hset')
      exact absurd (Option.map_eq_none_iff.mp hnothing) hne

theorem match?_ne_none {p : Place} (h : rules.MatchesAt s e p) : rules.match? s e ≠ none := by
  intro hnone
  rw [match?_eq, Option.or_eq_none_iff] at hnone
  obtain ⟨hdevices, hglobal⟩ := hnone
  obtain ⟨set, hset, hne⟩ := match?_group_ne_none h
  obtain ⟨_ | name, kind, i⟩ := p
  · obtain rfl := Option.some.inj hset
    exact hne (Option.map_eq_none_iff.mp hglobal)
  · have hnothing := List.findSome?_eq_none_iff.mp hdevices (name, set)
      (KeyMap.get?_eq_some_iff.mp hset)
    exact hne (Option.map_eq_none_iff.mp hnothing)

end Ruleset

/-! ## Rules that never match -/

section Never

variable {s : Setting} {e : Event} {r : Rule} {kind : Kind}

theorem Condition.not_holds_device (tag : Option String) : (Condition.device tag).holds s e = false :=
  rfl

theorem Condition.not_holds_malformed (raw : Json) : (Condition.malformed raw).holds s e = false :=
  rfl

/-- **`r.Able kind`** — the rule can match as one of that kind: it is switched on, a content rule says
what it looks for, and no condition is malformed or about devices. -/
structure Rule.Able (r : Rule) (kind : Kind) : Prop where
  enabled : r.enabled = true
  pattern : kind = .content → r.conditions = none → r.pattern ≠ none
  conditions : ∀ cs, r.conditions = some cs →
    ∀ c ∈ cs, (∀ tag, c ≠ .device tag) ∧ ∀ raw, c ≠ .malformed raw

theorem Rule.able_of_holds (h : r.holds s kind e = true) : r.Able kind := by
  obtain ⟨henabled, cs, hcs, hall⟩ := Rule.holds_iff.mp h
  refine ⟨henabled, ?_, ?_⟩
  · rintro rfl hconditions hpattern
    simp only [Rule.conditionsAs, hconditions, hpattern] at hcs
    exact absurd hcs (by simp)
  · intro cs' hconditions c hc
    simp only [Rule.conditionsAs, hconditions] at hcs
    obtain rfl := Option.some.inj hcs
    have hholds := hall c hc
    constructor
    · rintro tag rfl
      rw [Condition.not_holds_device] at hholds
      exact absurd hholds (by decide)
    · rintro raw rfl
      rw [Condition.not_holds_malformed] at hholds
      exact absurd hholds (by decide)

end Never

/-! ## The search as a whole -/

/-- **`Ruleset.match?_eq_first`** — no rule is found exactly when no rule of any device or for all
devices matches, and a rule is found exactly when it stands at the first place where a rule matches.
A rule that is found is able to match: one that is switched off, a content template without a
pattern, and a rule with a malformed condition or one about devices are never found. -/
theorem Ruleset.match?_eq_first (rules : Ruleset) (s : Setting) (e : Event) :
    (rules.match? s e = none ↔ ∀ p, ¬ rules.MatchesAt s e p) ∧
    (∀ found, rules.match? s e = some found ↔
      ∃ i, rules.FirstMatch s e ⟨found.device, found.kind, i⟩ ∧
        rules.ruleAt? ⟨found.device, found.kind, i⟩ = some found.rule) ∧
    (∀ found, rules.match? s e = some found → found.rule.Able found.kind) := by
  refine ⟨⟨fun hnone p hp => match?_ne_none hp hnone, fun hnever => ?_⟩,
    fun found => ⟨match?_eq_some, ?_⟩, fun found hfound => ?_⟩
  · cases hfound : rules.match? s e with
    | none => rfl
    | some found =>
      obtain ⟨i, hfirst, -⟩ := match?_eq_some hfound
      exact absurd hfirst.matchesAt (hnever _)
  · rintro ⟨i, hfirst, hrule⟩
    obtain ⟨found', hfound'⟩ := Option.ne_none_iff_exists'.mp (match?_ne_none hfirst.matchesAt)
    obtain ⟨j, hfirst', hrule'⟩ := match?_eq_some hfound'
    have heq := hfirst.unique hfirst'
    rw [heq, hrule] at hrule'
    cases found'
    cases found
    cases heq
    cases hrule'
    exact hfound'
  · obtain ⟨i, ⟨⟨r, hr, hholds⟩, -⟩, hrule⟩ := match?_eq_some hfound
    obtain rfl := Option.some.inj (hrule.symm.trans hr)
    exact Rule.able_of_holds hholds

end AlertRules
