import AlertRules.Json.Value
import AlertRules.Text.Pieces

/-!
# AlertRules.Event — room events

An event is any JSON value.  What a rule wants to know of it is read in two ways: by the accessors
(`type?`, `roomId?`, `body?`, …), which give texts only, and by a **key** whose parts between dots
name one member after the other (`at?`).  Who sent the event stands under `user_id` or, failing that,
under `sender`, in both ways.
-/

namespace AlertRules

/-- A room event as it came. -/
structure Event where
  raw : Json

namespace Event

/-- The text under a member of the event. -/
def textMember? (e : Event) (name : String) : Option String :=
  (e.raw.field? name).bind Json.text?

/-- The kind of event. -/
def type? (e : Event) : Option String :=
  e.textMember? "type"

/-- The room. -/
def roomId? (e : Event) : Option String :=
  e.textMember? "room_id"

/-- Who sent it. -/
def userId? (e : Event) : Option String :=
  match e.textMember? "user_id" with
  | some user => some user
  | none => e.textMember? "sender"

/-- What a state event is about. -/
def stateKey? (e : Event) : Option String :=
  e.textMember? "state_key"

/-- The content, which may be any value. -/
def content? (e : Event) : Option Json :=
  e.raw.field? "content"

/-- The text under a member of the content. -/
def contentText? (e : Event) (name : String) : Option String :=
  (e.content?.bind (·.field? name)).bind Json.text?

/-- The text of a message. -/
def body? (e : Event) : Option String :=
  e.contentText? "body"

/-- The kind of message. -/
def messageType? (e : Event) : Option String :=
  e.contentText? "msgtype"

/-- What became of a membership. -/
def membership? (e : Event) : Option String :=
  e.contentText? "membership"

/-- The value behind one member after the other. -/
def follow : List String → Json → Option Json
  | [], j => some j
  | name :: path, j => (j.field? name).bind (follow path)

/-- The value under a dotted key.  The empty key names nothing, and `user_id` falls back to the sender.
-/
def at? (e : Event) (key : String) : Option Json :=
  if key = "" then none
  else
    match follow (Text.dotted key) e.raw with
    | some j => some j
    | none => if key = "user_id" then e.raw.field? "sender" else none

end Event

end AlertRules
