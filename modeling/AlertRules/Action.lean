import AlertRules.Json.Printer

/-!
# AlertRules.Action — actions of rules

Every JSON value is an action.  Three words are known, and an object may set a **tweak**, with a value
or without one (a null value counts as none).  Anything else is kept as a word: a text as it is, any
other value as its compact JSON text.
-/

namespace AlertRules

/-- An action of a rule. -/
inductive Action where
  | notify
  | dontNotify
  | coalesce
  | setTweak (name : String) (value : Option Json)
  | other (word : String)

namespace Action

/-- The action that a word stands for. -/
def ofWord (w : String) : Action :=
  if w = "notify" then .notify
  else if w = "dont_notify" then .dontNotify
  else if w = "coalesce" then .coalesce
  else .other w

/-- The value, unless it is null or there is none. -/
def present? : Option Json → Option Json
  | some .null => none
  | v => v

/-- The action that a value stands for. -/
def ofJson (raw : Json) : Action :=
  match raw with
  | .str w => ofWord w
  | raw =>
    match (raw.field? "set_tweak").bind Json.text? with
    | some name => .setTweak name (present? (raw.field? "value"))
    | none => .other raw.compact

/-- The action as JSON. -/
def toJson : Action → Json
  | .notify => .str "notify"
  | .dontNotify => .str "dont_notify"
  | .coalesce => .str "coalesce"
  | .setTweak name value => .ofMembers (("set_tweak", .str name) :: Json.optional "value" value)
  | .other word => .str word

end Action

end AlertRules
