import AlertRules.Json.Decode
import AlertRules.Json.Printer

/-!
# AlertRules.Request — requests to present an alert

A request holds all that a sink needs to show an alert.
-/

namespace AlertRules

/-- An alert to be presented. -/
structure Request where
  title : String
  body : String
  /-- The sender's avatar. -/
  icon : Option String
  /-- Where a click leads. -/
  clickTarget : String
  tag : String
  /-- Which sound to play. -/
  audio : Option String
  dismissAfter : UInt64
  room : String
  rule : String
  deriving DecidableEq

namespace Request

section Reading

open Json

variable {δ : Type} [Source δ]

/-- The form of a request. -/
def record : Record δ Request :=
  Request.mk <$> Record.required "title" Read.text
    <*> Record.required "body" Read.text
    <*> Record.optional "icon" Read.text
    <*> Record.required "click_target" Read.text
    <*> Record.required "tag" Read.text
    <*> Record.optional "audio" Read.text
    <*> Record.required "dismiss_after_secs" Read.word
    <*> Record.required "room_id" Read.text
    <*> Record.required "rule_id" Read.text

/-- A request. -/
def read (d : δ) : Except Refusal Request :=
  record.read "PresentationRequest" d

end Reading

/-- The request as JSON, in the order of its fields. -/
def toJson (r : Request) : Json :=
  .obj ([("title", .str r.title), ("body", .str r.body)]
    ++ Json.optional "icon" (r.icon.map .str)
    ++ [("click_target", .str r.clickTarget), ("tag", .str r.tag)]
    ++ Json.optional "audio" (r.audio.map .str)
    ++ [("dismiss_after_secs", .num (.ofUInt64 r.dismissAfter)), ("room_id", .str r.room),
      ("rule_id", .str r.rule)])

end Request

end AlertRules
