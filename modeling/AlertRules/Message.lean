import AlertRules.Event
import AlertRules.Rooms

/-!
# AlertRules.Message — the words of an alert

The title names the sender and the room.  The text is the message itself, or a sentence about a
picture, a gesture, somebody who joined, or an invitation.  Other events have no text and raise no
alert.
-/

namespace AlertRules.Message

variable (rooms : RoomView)

/-- What the sender is called in the room. -/
def senderName (e : Event) : String :=
  match e.userId?, e.roomId? with
  | some user, some room => rooms.displayName user room
  | some user, none => user
  | none, _ => ""

/-- The sender and the room. -/
def title (e : Event) : String :=
  senderName rooms e ++ " (" ++ (e.roomId?.map rooms.roomName).getD "" ++ ")"

/-- The text about a message. -/
def ofMessage? (e : Event) : Option String :=
  match e.messageType? with
  | some "m.emote" => e.body?.map fun body => "* " ++ senderName rooms e ++ " " ++ body
  | some "m.image" => some (senderName rooms e ++ " sent an image.")
  | _ => e.body?.filter (· ≠ "")

/-- The text about a membership: others who join, and invitations of the own user. -/
def ofMembership? (own : Option String) (e : Event) : Option String :=
  match e.stateKey?, e.membership? with
  | some user, some "join" =>
    if own = some user then none
    else e.roomId?.map fun room => rooms.displayName user room ++ " joined"
  | some user, some "invite" =>
    if own = some user then some (senderName rooms e ++ " invited you to a room") else none
  | _, _ => none

/-- The text about an event. -/
def text? (own : Option String) (e : Event) : Option String :=
  match e.type? with
  | some "m.room.message" => ofMessage? rooms e
  | some "m.room.member" => ofMembership? rooms own e
  | _ => none

end AlertRules.Message
