import AlertRules.Request

/-!
# AlertRules.Record — records of alerts that were shown

A record is what is kept of a request once it has been presented, with the moment at which that
happened.  It is written as one line of JSON.
-/

namespace AlertRules

/-- An alert that was shown. -/
structure AlertRecord where
  moment : Timestamp
  room : String
  rule : String
  title : String
  body : String
  tag : String
  audio : Option String
  deriving DecidableEq

namespace AlertRecord

section Reading

open Json

variable {δ : Type} [Source δ]

/-- The form of a record. -/
def record : Record δ AlertRecord :=
  AlertRecord.mk <$> Record.required "ts" Read.moment
    <*> Record.required "room_id" Read.text
    <*> Record.required "rule_id" Read.text
    <*> Record.required "title" Read.text
    <*> Record.required "body" Read.text
    <*> Record.required "tag" Read.text
    <*> Record.optional "audio" Read.text

/-- A record. -/
def read (d : δ) : Except Refusal AlertRecord :=
  record.read "PresentationRecord" d

end Reading

/-- The members of the record other than the moment, in the order of the fields. -/
def untimed (r : AlertRecord) : List (String × Json) :=
  [("room_id", .str r.room), ("rule_id", .str r.rule), ("title", .str r.title),
    ("body", .str r.body), ("tag", .str r.tag)] ++ Json.optional "audio" (r.audio.map .str)

/-- The record as JSON, in the order of its fields. -/
def toJson (r : AlertRecord) : Json :=
  .obj (("ts", .str r.moment.text) :: r.untimed)

/-- The record as a line. -/
def line (r : AlertRecord) : String :=
  r.toJson.compact ++ "\n"

/-- The record that a line holds. -/
def ofLine? (s : String) : Option AlertRecord :=
  (Json.Document.read? s).bind fun d => (read d).toOption

/-- How many characters of a body are recorded. -/
def bodyLimit : Nat := 200

/-- A text of at most `bodyLimit` characters: the text itself, or its beginning with an ellipsis. -/
def shortened (s : String) : String :=
  if s.length ≤ bodyLimit then s
  else String.ofList (s.toList.take (bodyLimit - 3)) ++ "..."

/-- The record of a request that was presented then. -/
def ofRequest (moment : Timestamp) (r : Request) : AlertRecord where
  moment := moment
  room := r.room
  rule := r.rule
  title := r.title
  body := shortened r.body
  tag := r.tag
  audio := r.audio

end AlertRecord

end AlertRules
