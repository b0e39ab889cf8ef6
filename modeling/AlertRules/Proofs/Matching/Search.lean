import AlertRules.Matching

/-!
# AlertRules.Proofs.Matching.Search — the search in terms of its parts

When globs are compiled where they are needed, the search is a plain function: a rule matches when it
is switched on and the event meets each of its conditions (`Rule.holds_iff`), and every level of the
search takes the first answer of the level below (`firstRule?_eq_find?`, `firstOfKinds?_eq_findSome?`,
`firstOfDevices?_eq_findSome?`, `Ruleset.match?_eq`).

What the levels share is a search through a list whose members stand in some order:
`findSome?_eq_some_of_pairwise` says that whatever else has an answer comes later.
-/

namespace AlertRules

/-! ## First answers -/

section First

variable {α β : Type} {R : α → α → Prop} {f : α → Option β} {l : List α}

/-- The first answer in a list that is ordered by `R` comes from the least member that has one. -/
theorem findSome?_eq_some_of_pairwise (hl : l.Pairwise R) {b : β} (h : l.findSome? f = some b) :
    ∃ a ∈ l, f a = some b ∧ ∀ x ∈ l, f x ≠ none → x = a ∨ R a x := by
  obtain ⟨before, a, after, rfl, ha, hnone⟩ := List.findSome?_eq_some_iff.mp h
  refine ⟨a, by simp, ha, fun x hx hsome => ?_⟩
  obtain ⟨-, hafter, -⟩ := List.pairwise_append.mp hl
  rcases List.mem_append.mp hx with hbefore | hrest
  · exact absurd (hnone x hbefore) hsome
  · rcases List.mem_cons.mp hrest with rfl | hmem
    · exact .inl rfl
    · exact .inr ((List.pairwise_cons.mp hafter).1 x hmem)

end First

/-! ## One condition, one rule -/

variable {s : Setting} {e : Event}

/-- A condition on a key holds iff the pattern has a matcher that accepts the text there. -/
theorem onKey_holds_iff_isMatch {key pattern : String} :
    (Condition.onKey key pattern).holds s e = true ↔
      ∃ v, (e.at? key).bind Json.text? = some v ∧
        (Glob.Matcher.compile? pattern (.ofKey key) s.mode).any (·.isMatch v) = true := by
  show (eventMatches compiling s (some key) (some pattern) e).run = true ↔ _
  simp only [eventMatches]
  cases (e.at? key).bind Json.text? with
  | none => simp
  | some v =>
    simp only [Option.some.injEq, exists_eq_left']
    rfl

theorem allHold_eq_all (cs : List Condition) :
    (allHold compiling s e cs).run = cs.all (·.holds s e) := by
  induction cs with
  | nil => rfl
  | cons c cs ih =>
    rw [List.all_cons, ← ih]
    simp only [allHold, Condition.holds, Id.run_bind]
    cases (conditionHolds compiling s e c).run <;> rfl

/-- A rule matches exactly when it is switched on, has conditions as a rule of that kind, and the
event meets them all. -/
theorem Rule.holds_iff {r : Rule} {kind : Kind} :
    r.holds s kind e = true ↔ r.enabled = true ∧
      ∃ cs, r.conditionsAs kind = some cs ∧ ∀ c ∈ cs, c.holds s e = true := by
  unfold Rule.holds ruleHolds
  cases r.enabled with
  | false => simp
  | true =>
    cases r.conditionsAs kind with
    | none => simp
    | some cs =>
      simp only [if_true, allHold_eq_all, List.all_eq_true, Option.some.injEq, exists_eq_left', true_and]

/-! ## Lists of rules, kinds and devices -/

theorem firstRule?_eq_find? (kind : Kind) (rs : List Rule) :
    (firstRule? compiling s kind e rs).run = rs.find? (·.holds s kind e) := by
  induction rs with
  | nil => rfl
  | cons r rs ih =>
    rw [List.find?_cons, ← ih]
    simp only [firstRule?, Rule.holds, Id.run_bind]
    cases (ruleHolds compiling s kind e r).run <;> rfl

theorem firstOfKinds?_eq_findSome? (set : KindSet) (kinds : List Kind) :
    (firstOfKinds? compiling s e set kinds).run =
      kinds.findSome? fun kind =>
        ((set.rules kind).find? (·.holds s kind e)).map fun r => (kind, r) := by
  induction kinds with
  | nil => rfl
  | cons kind kinds ih =>
    rw [List.findSome?_cons, ← ih, ← firstRule?_eq_find?]
    simp only [firstOfKinds?, Id.run_bind]
    cases (firstRule? compiling s kind e (set.rules kind)).run <;> rfl

theorem KindSet.match?_eq (set : KindSet) :
    set.match? s e = Kind.precedence.findSome? fun kind =>
      ((set.rules kind).find? (·.holds s kind e)).map fun r => (kind, r) :=
  firstOfKinds?_eq_findSome? set Kind.precedence

theorem firstOfDevices?_eq_findSome? (devices : List (String × KindSet)) :
    (firstOfDevices? compiling s e devices).run =
      devices.findSome? fun d =>
        (d.2.match? s e).map fun found => ⟨found.1, some d.1, found.2⟩ := by
  induction devices with
  | nil => rfl
  | cons d devices ih =>
    rw [List.findSome?_cons, ← ih]
    simp only [firstOfDevices?, KindSet.match?, Id.run_bind]
    cases (firstInSet? compiling s e d.2).run <;> rfl

theorem Ruleset.match?_eq (rules : Ruleset) :
    rules.match? s e =
      (rules.device.entries.findSome? fun d =>
        (d.2.match? s e).map fun found => ⟨found.1, some d.1, found.2⟩).or
      ((rules.global.match? s e).map fun found => ⟨found.1, none, found.2⟩) := by
  rw [← firstOfDevices?_eq_findSome?]
  simp only [Ruleset.match?, firstInRuleset?, KindSet.match?, Id.run_bind]
  cases (firstOfDevices? compiling s e rules.device.entries).run with
  | some found => rfl
  | none =>
    dsimp only
    rw [Id.run_bind, Option.none_or]
    cases (firstInSet? compiling s e rules.global).run <;> rfl

end AlertRules
