import Mathlib.Data.List.Basic
import AlertRules.Proofs.Matching.First
import AlertRules.Proofs.RulesFile.Adding

/-!
# AlertRules.Proofs.RulesFile.Placing — matching after a rule has been added

A rule that is added under an id that no rule of its kind shows takes nothing away: the entries that are
dropped for the id were not read as rules (`wellFormed_without`), so the rules of the kind are those from
before with the new one behind them (`fetch_added`).  A search then finds what it found, or the new rule
where nothing was found, or only a rule of a later kind (`match?_added`).
-/

namespace AlertRules

open RulesFile (Scope)

/-! ## One more rule of a kind -/

namespace KindSet

variable {s : Setting} {e : Event} {set set' : KindSet} {kind : Kind} {new : Option Rule}

/-- What the search finds among the rules of a kind. -/
def found (set : KindSet) (s : Setting) (e : Event) (kind : Kind) : Option (Kind × Rule) :=
  ((set.rules kind).find? (·.holds s kind e)).map fun r => (kind, r)

theorem fst_of_found {old : Kind × Rule} (h : set.found s e kind = some old) : old.1 = kind := by
  obtain ⟨r, -, rfl⟩ := Option.map_eq_some_iff.mp h
  rfl

theorem fst_mem_of_findSome? {kinds : List Kind} {old : Kind × Rule}
    (h : kinds.findSome? (set.found s e) = some old) : old.1 ∈ kinds := by
  obtain ⟨k, hk, hfound⟩ := List.exists_of_findSome?_eq_some h
  exact fst_of_found hfound ▸ hk

/-- The kinds in front of one and behind it in the order of precedence. -/
theorem precedence_split (kind : Kind) :
    ∃ before after, Kind.precedence = before ++ kind :: after ∧
      (∀ k ∈ before, k.rank < kind.rank) ∧ ∀ k ∈ after, kind.rank < k.rank := by
  obtain ⟨before, after, hsplit⟩ := List.append_of_mem (mem_precedence kind)
  have hpairwise := precedence_pairwise
  rw [hsplit] at hpairwise
  obtain ⟨-, hafter, hbefore⟩ := List.pairwise_append.mp hpairwise
  refine ⟨before, after, hsplit, ?_, (List.pairwise_cons.mp hafter).1⟩
  intro k hk
  exact hbefore k hk kind List.mem_cons_self

theorem match?_split (set : KindSet) (s : Setting) (e : Event) {before after : List Kind}
    (h : Kind.precedence = before ++ kind :: after) :
    set.match? s e = (before.findSome? (set.found s e)).or
      ((set.found s e kind).or (after.findSome? (set.found s e))) := by
  have hmatch : set.match? s e = Kind.precedence.findSome? (set.found s e) := match?_eq set
  rw [hmatch, h, List.findSome?_append, List.findSome?_cons]
  cases set.found s e kind <;> rfl

/-- **`Appended set kind new set'`** — the rules of the kind have the new one, if any, behind them, and
those of the other kinds are the same. -/
structure Appended (set : KindSet) (kind : Kind) (new : Option Rule) (set' : KindSet) : Prop where
  rules_eq : set'.rules kind = set.rules kind ++ new.toList
  others_eq : ∀ k, k ≠ kind → set'.rules k = set.rules k

namespace Appended

theorem found_eq (h : Appended set kind new set') :
    set'.found s e kind = (set.found s e kind).or
      ((new.filter (·.holds s kind e)).map fun r => (kind, r)) := by
  rw [found, found, h.rules_eq, List.find?_append, Option.map_or]
  cases new with
  | none => rfl
  | some r =>
    rw [Option.toList_some, List.find?_singleton, Option.filter_some]

theorem found_other (h : Appended set kind new set') {k : Kind} (hk : k ≠ kind) :
    set'.found s e k = set.found s e k := by
  rw [found, found, h.others_eq k hk]

theorem findSome?_eq (h : Appended set kind new set') {kinds : List Kind}
    (hkinds : ∀ k ∈ kinds, k ≠ kind) :
    kinds.findSome? (set'.found s e) = kinds.findSome? (set.found s e) := by
  induction kinds with
  | nil => rfl
  | cons k kinds ih =>
    obtain ⟨hk, hrest⟩ := List.forall_mem_cons.mp hkinds
    rw [List.findSome?_cons, List.findSome?_cons, h.found_other hk, ih hrest]

/-- Either something is found that does not come behind the rules of the kind, and stays found, or the
new rule is in front of everything that is found. -/
theorem match?_cases (h : Appended set kind new set') (s : Setting) (e : Event) :
    (∃ old, set.match? s e = some old ∧ set'.match? s e = some old ∧ old.1.rank ≤ kind.rank) ∨
      set'.match? s e =
          ((new.filter (·.holds s kind e)).map fun r => (kind, r)).or (set.match? s e) ∧
        ∀ old, set.match? s e = some old → kind.rank < old.1.rank := by
  obtain ⟨before, after, hsplit, hbefore, hafter⟩ := precedence_split kind
  have hmatch := match?_split set s e hsplit
  have hmatch' := match?_split set' s e hsplit
  rw [h.findSome?_eq fun k hk heq => Nat.lt_irrefl _ (heq ▸ hbefore k hk),
    h.findSome?_eq fun k hk heq => Nat.lt_irrefl _ (heq ▸ hafter k hk), h.found_eq] at hmatch'
  cases hearlier : before.findSome? (set.found s e) with
  | some old =>
    rw [hearlier, Option.some_or] at hmatch hmatch'
    exact .inl ⟨old, hmatch, hmatch', Nat.le_of_lt (hbefore _ (fst_mem_of_findSome? hearlier))⟩
  | none =>
    rw [hearlier, Option.none_or] at hmatch hmatch'
    cases hsame : set.found s e kind with
    | some old =>
      rw [hsame, Option.some_or] at hmatch hmatch'
      exact .inl ⟨old, hmatch, hmatch', by rw [fst_of_found hsame]⟩
    | none =>
      rw [hsame, Option.none_or] at hmatch hmatch'
      refine .inr ⟨hmatch'.trans (by rw [hmatch]), ?_⟩
      intro old hold
      exact hafter _ (fst_mem_of_findSome? (hmatch.symm.trans hold))

/-- The new rule is found if it matches and nothing was found, or only a rule of a later kind. -/
theorem match?_of_holds (h : Appended set kind new set') {r : Rule} (hnew : new = some r)
    (hholds : r.holds s kind e = true)
    (hlater : ∀ old, set.match? s e = some old → kind.rank < old.1.rank) :
    set'.match? s e = some (kind, r) := by
  rcases h.match?_cases s e with ⟨old, hold, -, hrank⟩ | ⟨heq, -⟩
  · exact absurd (hlater old hold) (Nat.not_lt.mpr hrank)
  · rw [heq, hnew, Option.filter_some, if_pos hholds]
    rfl

/-- Otherwise the search finds what it found. -/
theorem match?_of_not (h : Appended set kind new set')
    (hnot : ∀ r, new = some r → r.holds s kind e = true →
      ∃ old, set.match? s e = some old ∧ old.1.rank ≤ kind.rank) :
    set'.match? s e = set.match? s e := by
  rcases h.match?_cases s e with ⟨old, hold, hold', -⟩ | ⟨heq, hlater⟩
  · rw [hold, hold']
  · have hnothing : new.filter (·.holds s kind e) = none := by
      rw [Option.filter_eq_none_iff]
      intro r hr hholds
      obtain ⟨old, hold, hrank⟩ := hnot r hr hholds
      exact absurd (hlater old hold) (Nat.not_lt.mpr hrank)
    rw [heq, hnothing]
    rfl

end Appended

end KindSet

/-! ## One more rule for all devices -/

namespace Ruleset

variable {s : Setting} {e : Event} {r r' : Ruleset} {kind : Kind} {new : Option Rule}

/-- A search finds nothing, or a rule for all devices of a kind that comes behind this one. -/
def GivesWay (r : Ruleset) (s : Setting) (e : Event) (kind : Kind) : Prop :=
  r.match? s e = none ∨
    ∃ old, r.match? s e = some old ∧ old.device = none ∧ kind.rank < old.kind.rank

/-- What a search finds among the rules of devices. -/
def ofDevices (r : Ruleset) (s : Setting) (e : Event) : Option MatchedRule :=
  r.device.entries.findSome? fun d =>
    (d.2.match? s e).map fun found => ⟨found.1, some d.1, found.2⟩

theorem match?_of_devices {old : MatchedRule} (h : r.ofDevices s e = some old) :
    r.match? s e = some old := by
  have hmatch := r.match?_eq (s := s) (e := e)
  rw [hmatch, show r.device.entries.findSome? _ = some old from h, Option.some_or]

theorem match?_of_global (h : r.ofDevices s e = none) :
    r.match? s e = (r.global.match? s e).map fun found => ⟨found.1, none, found.2⟩ := by
  have hmatch := r.match?_eq (s := s) (e := e)
  rw [hmatch, show r.device.entries.findSome? _ = none from h, Option.none_or]

theorem device_ne_none {old : MatchedRule} (h : r.ofDevices s e = some old) : old.device ≠ none := by
  obtain ⟨d, -, hd⟩ := List.exists_of_findSome?_eq_some h
  obtain ⟨found, -, rfl⟩ := Option.map_eq_some_iff.mp hd
  simp

theorem givesWay_iff_of_global (h : r.ofDevices s e = none) :
    r.GivesWay s e kind ↔ ∀ old, r.global.match? s e = some old → kind.rank < old.1.rank := by
  rw [GivesWay, match?_of_global h]
  cases r.global.match? s e with
  | none => simp
  | some old => simp

variable (hdevice : r'.device = r.device) (hglobal : r.global.Appended kind new r'.global)

include hdevice hglobal

/-- With one more rule behind those of a kind, a search finds that rule if it matches and what was found
gives way, and otherwise what it found. -/
theorem match?_appended (s : Setting) (e : Event) :
    (∀ rule, new = some rule → rule.holds s kind e = true → r.GivesWay s e kind →
        r'.match? s e = some ⟨kind, none, rule⟩) ∧
      ((∀ rule, new = some rule → rule.holds s kind e = true → ¬ r.GivesWay s e kind) →
        r'.match? s e = r.match? s e) := by
  have hsame : r'.ofDevices s e = r.ofDevices s e := by
    rw [ofDevices, ofDevices, hdevice]
  cases hdevices : r.ofDevices s e with
  | some old =>
    have hold := match?_of_devices hdevices
    have hold' := match?_of_devices (hsame.trans hdevices)
    refine ⟨?_, fun _ => hold'.trans hold.symm⟩
    rintro rule - - (hnone | ⟨old', hold'', hnone, -⟩)
    · exact absurd (hold.symm.trans hnone) (by simp)
    · obtain rfl := Option.some.inj (hold.symm.trans hold'')
      exact absurd hnone (device_ne_none hdevices)
  | none =>
    rw [match?_of_global hdevices, match?_of_global (hsame.trans hdevices),
      givesWay_iff_of_global hdevices]
    constructor
    · intro rule hnew hholds hway
      rw [hglobal.match?_of_holds hnew hholds hway]
      rfl
    · intro hnot
      rw [hglobal.match?_of_not]
      intro rule hnew hholds
      by_contra hnone
      refine hnot rule hnew hholds ?_
      intro old hold
      exact Nat.lt_of_not_le fun hrank => hnone ⟨old, hold, hrank⟩

end Ruleset

/-! ## The file with the rule -/

namespace RulesFile

variable {path : String} {kind : Kind} {id : String} {members : List (String × Json)}
  {c : File.Content} {r r' : Ruleset}

/-- The entries that are dropped for an id that no rule has were not read as rules. -/
theorem wellFormed_without {rules : List Json} (hrules : (Json.arr rules).Canonical)
    (hid : ∀ rule ∈ KindSet.wellFormed rules, rule.id ≠ id) :
    KindSet.wellFormed (without id rules) = KindSet.wellFormed rules := by
  rw [KindSet.wellFormed, KindSet.wellFormed, without, List.filterMap_filter]
  apply List.filterMap_congr
  intro j hj
  cases hfound : hasId id j with
  | false => rfl
  | true =>
    cases hread : Rule.read j with
    | error refusal => rfl
    | ok rule =>
      have hshown := hid rule (KindSet.mem_wellFormed.mpr ⟨j, hj, hread⟩)
      exact absurd (id_of_hasId (Json.allCanonical_iff.mp hrules j hj) hfound hread) hshown

theorem wellFormed_toList (j : Json) :
    KindSet.wellFormed [j] = (Rule.read j).toOption.toList := by
  cases hread : Rule.read j with
  | error refusal => rw [KindSet.wellFormed, List.filterMap_cons, hread]; rfl
  | ok rule => rw [KindSet.wellFormed_singleton hread]; rfl

/-- So the rules of the list are those from before, with the new one behind them. -/
theorem wellFormed_placed {rules : List Json} (hrules : (Json.arr rules).Canonical)
    (hid : ∀ rule ∈ KindSet.wellFormed rules, rule.id ≠ id) (j : Json) :
    KindSet.wellFormed (without id rules ++ [j]) =
      KindSet.wellFormed rules ++ (Rule.read j).toOption.toList := by
  rw [KindSet.wellFormed_append, wellFormed_without hrules hid, wellFormed_toList]

/-- If the text that is written for the value can be read, it is read as the value. -/
def ReadsBack (j : Json) : Prop :=
  ∀ i, root (holding j) = .ok i → i = j

/-- The body with the id among its members is read as this rule. -/
def Makes (id : String) (body : Json) (new : Rule) : Prop :=
  ∃ members rule, body = .obj members ∧ Named id members rule ∧ Rule.read rule = .ok new

/-- Putting the body into a file with the value `j`, as a rule of the kind for all devices under the id,
writes the value `j'`. -/
def Writes (kind : Kind) (id : String) (body j j' : Json) : Prop :=
  ∃ members, body = .obj members ∧ editRoot "global" kind (placing id members) j = .ok j'

/-- What is read from a file to which a rule has been added under an id that no rule of the kind
shows. -/
theorem fetch_added (hfetch : fetch path c = .ok r)
    (hid : ∀ rule ∈ r.global.rules kind, rule.id ≠ id)
    (hadd : (add "global" kind id (.obj members) c).1 = .ok ())
    (hback : ∀ j j', root c = .ok j → Writes kind id (.obj members) j j' → ReadsBack j')
    (hfetch' : fetch path (add "global" kind id (.obj members) c).2 = .ok r') :
    r'.device = r.device ∧
      r.global.Appended kind (Rule.read (withId id members)).toOption r'.global := by
  obtain ⟨hvoid, j, rules, hroot, hrules⟩ := add_fst_eq_ok_iff.mp hadd
  have hscope : Scope.ofString? "global" = some .global := rfl
  have hfile := modify_snd (f := placing id members) hscope hvoid hroot hrules rfl
  have hedit := (edits_editRoot hscope kind (placing id members) j _).mpr
    ⟨rules, _, hrules, rfl, rfl⟩
  obtain ⟨i, hi, hread⟩ := fetch_eq_ok_iff.mp hfetch
  obtain rfl := Except.ok.inj (hroot.symm.trans hi)
  have hcanonical := (canonical_of_root hroot).1
  obtain ⟨i', hi', hread'⟩ := fetch_eq_ok_iff.mp hfetch'
  rw [add_obj_snd, hfile] at hi'
  obtain rfl := hback j _ hroot ⟨members, rfl, hedit⟩ i' hi'
  rw [read_withListAt (s := .global) hcanonical hread hrules] at hread'
  obtain rfl := Except.ok.inj hread'
  have hrulesOf : r.global.rules kind = KindSet.wellFormed rules :=
    rulesIn_of_listAt (s := .global) hcanonical hread hrules
  refine ⟨rfl, ?_, ?_⟩
  · show (r.global.withRules kind _).rules kind = _
    rw [KindSet.rules_withRules, if_pos rfl, hrulesOf]
    exact wellFormed_placed (canonical_listAt hcanonical hrules) (hrulesOf ▸ hid) _
  · intro k hk
    show (r.global.withRules kind _).rules k = _
    rw [KindSet.rules_withRules, if_neg hk]

theorem makes_obj_iff {new : Rule} :
    Makes id (.obj members) new ↔ (Rule.read (withId id members)).toOption = some new := by
  constructor
  · rintro ⟨members', rule, heq, hnamed, hread⟩
    obtain rfl := Json.obj.inj heq
    rw [← hnamed.value_eq, hread]
    rfl
  · intro hsome
    cases hread : Rule.read (withId id members) with
    | error refusal =>
      rw [hread] at hsome
      exact absurd hsome (by simp [Except.toOption])
    | ok rule =>
      rw [hread] at hsome
      exact ⟨members, _, rfl, named_withId id members,
        hread.trans (congrArg Except.ok (Option.some.inj hsome))⟩

theorem Makes.id_eq {body : Json} {new : Rule} (hbody : body.Canonical) (h : Makes id body new) :
    new.id = id := by
  obtain ⟨members, rule, rfl, hnamed, hread⟩ := h
  obtain rfl := hnamed.value_eq
  exact id_of_hasId (canonical_withId id hbody) (hasId_withId id members) hread

/-- A rule for all devices that is found is one of its kind. -/
theorem mem_of_match? {s : Setting} {e : Event} {rule : Rule}
    (h : r.match? s e = some ⟨kind, none, rule⟩) : rule ∈ r.global.rules kind := by
  obtain ⟨i, -, hat⟩ := Ruleset.match?_eq_some h
  obtain ⟨set, hset, hrule⟩ := Option.bind_eq_some_iff.mp hat
  obtain rfl := Option.some.inj hset
  exact List.mem_of_getElem? hrule

/-- **`match?_added`** — when a rule has been added for all devices under an id that no rule of its kind
showed, and rules can be read again, every search finds what it found before or the new rule, as one of
its kind and of no device.  It finds the new rule exactly when the body makes a rule, that rule matches,
and the search found nothing before or only a rule for all devices of a kind that comes later. -/
theorem match?_added {body : Json} (hbody : body.Canonical) (hfetch : fetch path c = .ok r)
    (hid : ∀ rule ∈ r.global.rules kind, rule.id ≠ id)
    (hadd : (add "global" kind id body c).1 = .ok ())
    (hback : ∀ j j', root c = .ok j → Writes kind id body j j' → ReadsBack j')
    (hfetch' : fetch path (add "global" kind id body c).2 = .ok r') (s : Setting) (e : Event) :
    (r'.match? s e = r.match? s e ∨
        ∃ new, Makes id body new ∧ r'.match? s e = some ⟨kind, none, new⟩) ∧
      ((∃ new, Makes id body new ∧ r'.match? s e = some ⟨kind, none, new⟩) ↔
        ∃ new, Makes id body new ∧ new.holds s kind e = true ∧ r.GivesWay s e kind) := by
  obtain ⟨members, rfl⟩ : ∃ members, body = .obj members := by
    cases body with
    | obj members => exact ⟨members, rfl⟩
    | _ => exact absurd hadd (by simp [add, failureOf, Except.mapError])
  obtain ⟨hdevice, hglobal⟩ := fetch_added hfetch hid hadd hback hfetch'
  obtain ⟨hfound, hstays⟩ := Ruleset.match?_appended hdevice hglobal s e
  by_cases hnew : ∃ new, Makes id (.obj members) new ∧ new.holds s kind e = true ∧ r.GivesWay s e kind
  · obtain ⟨new, hnew', hholds, hway⟩ := hnew
    have hfinds := hfound new (makes_obj_iff.mp hnew') hholds hway
    exact ⟨.inr ⟨new, hnew', hfinds⟩,
      iff_of_true ⟨new, hnew', hfinds⟩ ⟨new, hnew', hholds, hway⟩⟩
  · have hsame : r'.match? s e = r.match? s e := by
      apply hstays
      intro rule hrule hholds hway
      exact hnew ⟨rule, makes_obj_iff.mpr hrule, hholds, hway⟩
    refine ⟨.inl hsame, iff_of_false ?_ hnew⟩
    rintro ⟨new, hnew', hfinds⟩
    exact hid new (mem_of_match? (hsame ▸ hfinds)) (hnew'.id_eq hbody)

/-- The same with a template that overrides all rules. -/
def overriddenTwice : Json :=
  .obj [("global", .obj [("content",
    .arr [.obj [("rule_id", .str "a")], .null, .obj [("rule_id", .str "b")],
      .obj [("enabled", .bool false), ("rule_id", .str "a")]]),
    ("override", .arr [.obj [("rule_id", .str "a")]])])]

/-- Where no rule can be found, a template that overrides all rules is found in every search. -/
theorem match?_added_overriddenTwice :
    ∃ r r', fetch "rules.json" (holding listedTwice) = .ok r ∧
      (add "global" .override "a" (.obj []) (holding listedTwice)).1 = .ok () ∧
      fetch "rules.json" (add "global" .override "a" (.obj []) (holding listedTwice)).2 = .ok r' ∧
      ∀ s e, r.match? s e = none ∧
        ∃ new, Makes "a" (.obj []) new ∧ r'.match? s e = some ⟨.override, none, new⟩ := by
  have hadd : (add "global" .override "a" (.obj []) (holding listedTwice)).1 = .ok () :=
    add_fst_eq_ok_iff.mpr ⟨by simp [holding], _, _, root_listedTwice, rfl⟩
  have hfile : (add "global" .override "a" (.obj []) (holding listedTwice)).2 =
      holding overriddenTwice := by
    have hscope : Scope.ofString? "global" = some .global := rfl
    have hrules : listAt? (Scope.path .global .override) listedTwice = some [] := rfl
    have hvalue : withListAt (without "a" [] ++ [withId "a" []]) (Scope.path .global .override)
        listedTwice = overriddenTwice := rfl
    rw [add_obj_snd, modify_snd (f := placing "a" []) hscope (by simp [holding]) root_listedTwice
      hrules rfl, hvalue]
  have hroot : root (holding overriddenTwice) = .ok overriddenTwice :=
    root_holding (j := overriddenTwice) (by decide) (by decide)
  have hback : ∀ j j', root (holding listedTwice) = .ok j → Writes .override "a" (.obj []) j j' →
      ReadsBack j' := by
    rintro j j' hj ⟨members, heq, hwritten⟩ i hi
    obtain rfl := Except.ok.inj (root_listedTwice.symm.trans hj)
    obtain rfl := Json.obj.inj heq
    obtain rfl : overriddenTwice = j' := Except.ok.inj hwritten
    exact Except.ok.inj (hi.symm.trans hroot)
  obtain ⟨r', hread'⟩ : ∃ r', Ruleset.read overriddenTwice = .ok r' := ⟨_, rfl⟩
  have hfetch' : fetch "rules.json"
      (add "global" .override "a" (.obj []) (holding listedTwice)).2 = .ok r' := by
    rw [hfile]
    exact fetch_eq_ok_iff.mpr ⟨_, hroot, hread'⟩
  have hfetch : fetch "rules.json" (holding listedTwice) = .ok _ :=
    fetch_eq_ok_iff.mpr ⟨_, root_listedTwice, rfl⟩
  refine ⟨_, r', hfetch, hadd, hfetch', ?_⟩
  intro s e
  have hadded := match?_added (by decide) hfetch (fun rule hrule => absurd hrule List.not_mem_nil)
    hadd hback hfetch' s e
  exact ⟨rfl, hadded.2.mpr ⟨.template "a" [], ⟨[], _, rfl, named_withId "a" [], rfl⟩, rfl, .inl rfl⟩⟩

end RulesFile

end AlertRules
