import AlertRules.Rule

/-!
# AlertRules.Ruleset — all rules of a user

Rules are listed by kind, once for all devices and once for each device that has rules of its own.
Reading is lenient: an entry of a list that is no rule is skipped, and a list may be null or absent.
-/

namespace AlertRules

/-- The rules of each kind. -/
structure KindSet where
  override : List Rule
  content : List Rule
  room : List Rule
  sender : List Rule
  underride : List Rule

namespace KindSet

/-- No rules. -/
def empty : KindSet := ⟨[], [], [], [], []⟩

/-- The rules of a kind. -/
def rules (s : KindSet) : Kind → List Rule
  | .override => s.override
  | .content => s.content
  | .room => s.room
  | .sender => s.sender
  | .underride => s.underride

/-- There is no rule of any kind. -/
def isEmpty (s : KindSet) : Bool :=
  Kind.precedence.all fun k => (s.rules k).isEmpty

/-- The rules among the values. -/
def wellFormed (js : List Json) : List Rule :=
  js.filterMap fun j => (Rule.read j).toOption

open Json in
/-- A list of rules, or null for none; what is no rule is skipped. -/
def readRules (j : Json) : Except Refusal (List Rule) :=
  (Read.option (Read.list .ok) j).map fun js => wellFormed (js.getD [])

open Json in
/-- The form of the rules of each kind. -/
def record : Record Json KindSet :=
  KindSet.mk <$> Record.withDefault "override" [] readRules
    <*> Record.withDefault "content" [] readRules
    <*> Record.withDefault "room" [] readRules
    <*> Record.withDefault "sender" [] readRules
    <*> Record.withDefault "underride" [] readRules

/-- The rules of each kind. -/
def read (j : Json) : Except Json.Refusal KindSet :=
  record.read "KindSet" j

/-- The rules of each kind as JSON. -/
def toJson (s : KindSet) : Json :=
  .ofMembers (Kind.precedence.map fun k => (k.text, .arr ((s.rules k).map Rule.toJson)))

end KindSet

/-- The rules for all devices, and those for single devices by their names. -/
structure Ruleset where
  global : KindSet
  device : KeyMap KindSet

namespace Ruleset

/-- No rules. -/
def empty : Ruleset := ⟨.empty, .empty⟩

/-- There is no rule anywhere. -/
def isEmpty (r : Ruleset) : Bool :=
  r.global.isEmpty && r.device.values.all KindSet.isEmpty

open Json in
/-- The form of a rule set. -/
def record : Record Json Ruleset :=
  Ruleset.mk <$> Record.withDefault "global" .empty KindSet.read
    <*> Record.withDefault "device" .empty (Read.map KindSet.read)

/-- The rule set that a value describes. -/
def read (j : Json) : Except Json.Refusal Ruleset :=
  record.read "Ruleset" j

/-- The rule set as JSON. -/
def toJson (r : Ruleset) : Json :=
  .ofMembers [("global", r.global.toJson), ("device", .ofMap r.device KindSet.toJson)]

end Ruleset

end AlertRules
