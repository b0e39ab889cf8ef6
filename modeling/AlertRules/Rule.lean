import AlertRules.Action
import AlertRules.Condition
import AlertRules.Json.Decode

/-!
# AlertRules.Rule — rules

A rule has an id, conditions, actions, and may be switched off.  A rule without conditions is a
**template**: what it asks follows from the kind under which it stands.  A content template looks for
its pattern in messages, a room template means the room with its id, a sender template the user with
its id, and a template of another kind asks nothing.
-/

namespace AlertRules

/-! ## Kinds -/

/-- The five kinds of rules. -/
inductive Kind where
  | override
  | content
  | room
  | sender
  | underride
  deriving DecidableEq

namespace Kind

/-- The kinds in the order in which their rules are tried. -/
def precedence : List Kind :=
  [.override, .content, .room, .sender, .underride]

/-- The name of the kind. -/
def text : Kind → String
  | .override => "override"
  | .content => "content"
  | .room => "room"
  | .sender => "sender"
  | .underride => "underride"

/-- The place of the kind in the order of precedence. -/
def rank : Kind → Nat
  | .override => 0
  | .content => 1
  | .room => 2
  | .sender => 3
  | .underride => 4

/-- A kind by its name. -/
def read {δ : Type} [Json.Source δ] (d : δ) : Except Json.Refusal Kind :=
  Json.Read.choice (precedence.map fun k => (k.text, k)) d

end Kind

/-! ## Rules -/

/-- A rule. -/
structure Rule where
  id : String
  /-- Without conditions the rule is a template; an empty list asks nothing. -/
  conditions : Option (List Condition)
  actions : List Action
  /-- What a content template looks for. -/
  pattern : Option String
  enabled : Bool
  /-- The rule came with the account. -/
  isDefault : Bool

namespace Rule

/-- A rule with conditions. -/
def conditional (id : String) (conditions : List Condition) (actions : List Action) : Rule :=
  ⟨id, some conditions, actions, none, true, false⟩

/-- A content template. -/
def forPattern (id pattern : String) (actions : List Action) : Rule :=
  ⟨id, none, actions, some pattern, true, false⟩

/-- A template for a room or a sender. -/
def template (id : String) (actions : List Action) : Rule :=
  ⟨id, none, actions, none, true, false⟩

/-- The conditions of the rule as one of that kind.  A content template without a pattern has none and
never matches. -/
def conditionsAs (r : Rule) (kind : Kind) : Option (List Condition) :=
  match r.conditions with
  | some cs => some cs
  | none =>
    match kind with
    | .content => r.pattern.map fun p => [Condition.onKey "content.body" p]
    | .room => some [Condition.onKey "room_id" r.id]
    | .sender => some [Condition.onKey "user_id" r.id]
    | .override => some []
    | .underride => some []

open Json in
/-- The form of a rule. -/
def record : Record Json Rule :=
  Rule.mk <$> Record.required "rule_id" Read.text
    <*> Record.optional "conditions" (Read.list fun j => .ok (Condition.ofJson j))
    <*> Record.withDefault "actions" [] (Read.list fun j => .ok (Action.ofJson j))
    <*> Record.optional "pattern" Read.text
    <*> Record.withDefault "enabled" true Read.flag
    <*> Record.withDefault "default" false Read.flag

/-- The rule that a value describes. -/
def read (j : Json) : Except Json.Refusal Rule :=
  record.read "Rule" j

/-- The rule as JSON. -/
def toJson (r : Rule) : Json :=
  .ofMembers ([("rule_id", .str r.id), ("actions", .arr (r.actions.map Action.toJson)),
    ("enabled", .bool r.enabled), ("default", .bool r.isDefault)]
    ++ Json.optional "conditions" (r.conditions.map fun cs => .arr (cs.map Condition.toJson))
    ++ Json.optional "pattern" (r.pattern.map .str))

end Rule

end AlertRules
