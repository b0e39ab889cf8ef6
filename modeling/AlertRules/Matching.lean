import AlertRules.Decision
import AlertRules.Event
import AlertRules.Glob.Cache
import AlertRules.MemberCount
import AlertRules.Rooms
import AlertRules.Ruleset
import AlertRules.Text.WholeWord

/-!
# AlertRules.Matching — which rule an event matches

A rule matches an event if it is enabled and the event meets all its conditions.  Of the rules that
match, the first one counts: rules of a device come before those for all devices, devices in the
order of their names, kinds in the order of precedence, and rules of a kind in the order of the list.

The order of the search is written once, over any way to obtain compiled globs (`Globs`).  Compiling
each glob when it is needed gives `Ruleset.match?`, asking a cache gives `Ruleset.matchCached?`.
-/

namespace AlertRules

open Glob (CacheKey Matcher Mode Anchor)

/-- What a match depends on besides the rules and the event: what is known of rooms, whose display name
is looked for (the sender's if nobody is given), and how globs are read. -/
structure Setting where
  rooms : RoomView
  ownUser : Option String
  mode : Mode

/-- A way to obtain compiled globs. -/
abbrev Globs (m : Type → Type) := CacheKey → m (Option Matcher)

/-- Every glob is compiled when it is needed. -/
def compiling : Globs Id :=
  fun key => key.compile?

/-- Globs are looked up in a cache. -/
def cached : Globs (StateM Glob.Cache) :=
  fun key cache =>
    let (found, cache) := cache.get key
    (found.map (·.matcher), cache)

/-! ## Conditions -/

/-- The message contains, as a whole word, the display name that the own user (or the sender) has in the
room. -/
def containsDisplayName (s : Setting) (e : Event) : Bool :=
  match e.body?, s.ownUser <|> e.userId?, e.roomId? with
  | some body, some user, some room =>
    let name := s.rooms.displayName user room
    body != "" && name != "" && Text.containsWord body name
  | _, _, _ => false

/-- The room's member count passes the comparison. -/
def memberCountHolds (s : Setting) (comparison : Option String) (e : Event) : Bool :=
  match comparison.bind MemberCount.Comparison.ofString?, e.roomId?.bind s.rooms.memberCount? with
  | some k, some count => k.holds count
  | _, _ => false

section Search

variable {m : Type → Type} [Monad m] (globs : Globs m) (s : Setting)

/-- The text under the key matches the glob. -/
def eventMatches (key pattern : Option String) (e : Event) : m Bool :=
  match key, pattern with
  | some key, some pattern =>
    match (e.at? key).bind Json.text? with
    | none => pure false
    | some text => do
      let matcher ← globs ⟨Anchor.ofKey key, pattern, s.mode⟩
      pure (matcher.any (·.isMatch text))
  | _, _ => pure false

/-- The event meets the condition.  Conditions of unknown kind are met, malformed ones are not, and no
device has a profile tag. -/
def conditionHolds (e : Event) : Condition → m Bool
  | .eventMatch key pattern => eventMatches globs s key pattern e
  | .device _ => pure false
  | .containsDisplayName => pure (containsDisplayName s e)
  | .memberCount comparison => pure (memberCountHolds s comparison e)
  | .unknown _ => pure true
  | .malformed _ => pure false

/-- The event meets all conditions; the first one that is not met ends the test. -/
def allHold (e : Event) : List Condition → m Bool
  | [] => pure true
  | c :: cs => do
    if ← conditionHolds globs s e c then allHold e cs else pure false

/-- The rule, as one of that kind, matches the event. -/
def ruleHolds (kind : Kind) (e : Event) (r : Rule) : m Bool :=
  if r.enabled then
    match r.conditionsAs kind with
    | some cs => allHold globs s e cs
    | none => pure false
  else pure false

/-- The first rule of the list that matches. -/
def firstRule? (kind : Kind) (e : Event) : List Rule → m (Option Rule)
  | [] => pure none
  | r :: rs => do
    if ← ruleHolds globs s kind e r then pure (some r) else firstRule? kind e rs

/-- The first matching rule of the kinds, one kind after the other. -/
def firstOfKinds? (e : Event) (set : KindSet) : List Kind → m (Option (Kind × Rule))
  | [] => pure none
  | kind :: kinds => do
    match ← firstRule? globs s kind e (set.rules kind) with
    | some r => pure (some (kind, r))
    | none => firstOfKinds? e set kinds

/-- The first matching rule in the order of precedence. -/
def firstInSet? (e : Event) (set : KindSet) : m (Option (Kind × Rule)) :=
  firstOfKinds? globs s e set Kind.precedence

end Search

/-- A rule that matches, its kind, and the device if it is a rule of one. -/
structure MatchedRule where
  kind : Kind
  device : Option String
  rule : Rule

section Search

variable {m : Type → Type} [Monad m] (globs : Globs m) (s : Setting)

/-- The first matching rule of the devices, one device after the other. -/
def firstOfDevices? (e : Event) : List (String × KindSet) → m (Option MatchedRule)
  | [] => pure none
  | (device, set) :: devices => do
    match ← firstInSet? globs s e set with
    | some (kind, r) => pure (some ⟨kind, some device, r⟩)
    | none => firstOfDevices? e devices

/-- The first matching rule of a device or, failing that, of the rules for all devices. -/
def firstInRuleset? (e : Event) (rules : Ruleset) : m (Option MatchedRule) := do
  match ← firstOfDevices? globs s e rules.device.entries with
  | some found => pure (some found)
  | none =>
    match ← firstInSet? globs s e rules.global with
    | some (kind, r) => pure (some ⟨kind, none, r⟩)
    | none => pure none

end Search

/-! ## Without and with a cache -/

/-- The event meets the condition. -/
def Condition.holds (c : Condition) (s : Setting) (e : Event) : Bool :=
  (conditionHolds compiling s e c).run

/-- The rule, as one of that kind, matches the event. -/
def Rule.holds (r : Rule) (s : Setting) (kind : Kind) (e : Event) : Bool :=
  (ruleHolds compiling s kind e r).run

/-- The rule of the set that the event matches. -/
def KindSet.match? (set : KindSet) (s : Setting) (e : Event) : Option (Kind × Rule) :=
  (firstInSet? compiling s e set).run

/-- The rule that the event matches. -/
def Ruleset.match? (rules : Ruleset) (s : Setting) (e : Event) : Option MatchedRule :=
  (firstInRuleset? compiling s e rules).run

/-- The same, with compiled globs from a cache. -/
def Ruleset.matchCached? (rules : Ruleset) (s : Setting) (e : Event) :
    StateM Glob.Cache (Option MatchedRule) :=
  firstInRuleset? cached s e rules

/-- What the actions of the rule amount to. -/
def MatchedRule.decision (found : MatchedRule) : Decision :=
  .resolve found.rule.actions

/-- The rule asks for an alert, and for one that is highlighted. -/
def MatchedRule.highlights (found : MatchedRule) : Bool :=
  found.decision.notify && found.decision.highlight

end AlertRules
