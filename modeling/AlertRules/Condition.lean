import AlertRules.Json.Value

/-!
# AlertRules.Condition — conditions of rules

Every JSON value is a condition.  Four kinds are known.  A value of another kind is **unknown**, and
one without a kind, or of a known kind with a field of the wrong type, is **malformed**; both keep
the value as it came.  Fields that are null count as absent, and fields that the kind does not have
are dropped.
-/

namespace AlertRules

/-- A condition of a rule. -/
inductive Condition where
  /-- The text under a key of the event matches a glob. -/
  | eventMatch (key pattern : Option String)
  /-- The rule is meant for a device with a profile tag. -/
  | device (profileTag : Option String)
  /-- The message contains the user's display name. -/
  | containsDisplayName
  /-- The room's member count passes a comparison. -/
  | memberCount (comparison : Option String)
  | unknown (raw : Json)
  | malformed (raw : Json)

namespace Condition

/-- The text under the key matches the glob. -/
def onKey (key pattern : String) : Condition :=
  .eventMatch (some key) (some pattern)

/-- A member that is a text, or absent or null; nothing when it is anything else. -/
def textOrAbsent? (raw : Json) (name : String) : Option (Option String) :=
  match raw.field? name with
  | none => some none
  | some .null => some none
  | some (.str s) => some (some s)
  | some _ => none

/-- A condition of a known kind; nothing when the kind is not known, and nothing inside when a field has
the wrong type. -/
def ofKind? (kind : String) (raw : Json) : Option (Option Condition) :=
  if kind = "event_match" then
    some <|
      match textOrAbsent? raw "key", textOrAbsent? raw "pattern" with
      | some key, some pattern => some (.eventMatch key pattern)
      | _, _ => none
  else if kind = "device" then some ((textOrAbsent? raw "profile_tag").map .device)
  else if kind = "contains_display_name" then some (some .containsDisplayName)
  else if kind = "room_member_count" then some ((textOrAbsent? raw "is").map .memberCount)
  else none

/-- The condition that a value stands for. -/
def ofJson (raw : Json) : Condition :=
  match (raw.field? "kind").bind Json.text? with
  | none => .malformed raw
  | some kind =>
    match ofKind? kind raw with
    | none => .unknown raw
    | some none => .malformed raw
    | some (some c) => c

/-- A condition of that kind as JSON, without the fields that are absent. -/
def tagged (kind : String) (fields : List (String × Option String)) : Json :=
  .ofMembers (("kind", .str kind) :: fields.flatMap fun f => Json.optional f.1 (f.2.map .str))

/-- The condition as JSON. -/
def toJson : Condition → Json
  | .eventMatch key pattern => tagged "event_match" [("key", key), ("pattern", pattern)]
  | .device profileTag => tagged "device" [("profile_tag", profileTag)]
  | .containsDisplayName => tagged "contains_display_name" []
  | .memberCount comparison => tagged "room_member_count" [("is", comparison)]
  | .unknown raw => raw
  | .malformed raw => raw

end Condition

end AlertRules
