import AlertRules.Json.Decode

/-!
# AlertRules.Rooms — rooms, their members and their names

`RoomView` is all that the rules and the messages may ask about rooms.  `Directory` is a list of
rooms with their members, given as JSON, and answers these questions: a member without a display name
is called by the local part of the user id, a room without a name by its id.
-/

namespace AlertRules

/-- What can be asked about rooms and names. -/
structure RoomView where
  /-- The members of a known room, in order. -/
  members : (room : String) → Option (List String)
  avatar : (room user : String) → Option String
  displayName : (user room : String) → String
  roomName : (room : String) → String

/-- How many members a known room has. -/
def RoomView.memberCount? (v : RoomView) (room : String) : Option Nat :=
  (v.members room).map List.length

/-- **`localPart? user`** — `alice` of `@alice:example.org`: what lies between the leading sign and
the last colon.  Neither it nor what follows the colon may be empty. -/
def localPart? (user : String) : Option String :=
  match user.toList with
  | '@' :: rest =>
    let server := rest.reverse.takeWhile (· ≠ ':')
    match rest.reverse.dropWhile (· ≠ ':') with
    | _ :: name =>
      if name = [] ∨ server = [] then none else some (String.ofList name.reverse)
    | [] => none
  | _ => none

/-- What is known of a member. -/
structure Member where
  displayName : Option String
  avatar : Option String

/-- The name of a room and its members by user id. -/
structure Room where
  name : Option String
  members : KeyMap Member

/-- The known rooms by room id. -/
structure Directory where
  rooms : KeyMap Room

/-! ## Reading and writing -/

section Reading

open Json

variable {δ : Type} [Source δ]

/-- The form of a member. -/
def Member.record : Record δ Member :=
  Member.mk <$> Record.optional "displayname" Read.text <*> Record.optional "avatar_url" Read.text

/-- A member. -/
def Member.read (d : δ) : Except Refusal Member :=
  Member.record.read "MemberInfo" d

/-- The form of a room. -/
def Room.record : Record δ Room :=
  Room.mk <$> Record.optional "name" Read.text
    <*> Record.withDefault "members" .empty (Read.map Member.read)

/-- A room. -/
def Room.read (d : δ) : Except Refusal Room :=
  Room.record.read "RoomInfo" d

/-- The form of a directory. -/
def Directory.record : Record δ Directory :=
  Directory.mk <$> Record.withDefault "rooms" .empty (Read.map Room.read)

/-- A directory. -/
def Directory.read (d : δ) : Except Refusal Directory :=
  Directory.record.read "StaticRoomDirectory" d

end Reading

/-- The member as JSON. -/
def Member.toJson (m : Member) : Json :=
  .ofMembers (Json.optional "displayname" (m.displayName.map .str)
    ++ Json.optional "avatar_url" (m.avatar.map .str))

/-- The room as JSON. -/
def Room.toJson (r : Room) : Json :=
  .ofMembers (Json.optional "name" (r.name.map .str) ++ [("members", .ofMap r.members Member.toJson)])

namespace Directory

/-- The directory as JSON. -/
def toJson (d : Directory) : Json :=
  .ofMembers [("rooms", .ofMap d.rooms Room.toJson)]

/-- No rooms. -/
def empty : Directory := ⟨.empty⟩

/-! ## Building -/

/-- The user as a member of the room under that name, without an avatar.  The room is created if need
be. -/
def withMember (d : Directory) (room user : String) (name : Option String) : Directory :=
  ⟨d.rooms.modify room ⟨none, .empty⟩ fun r =>
    { r with members := r.members.insert user ⟨name, none⟩ }⟩

/-- The room under that name.  It is created if need be. -/
def withRoomName (d : Directory) (room name : String) : Directory :=
  ⟨d.rooms.modify room ⟨none, .empty⟩ fun r => { r with name := some name }⟩

/-! ## Questions -/

/-- The member of a room. -/
def member? (d : Directory) (room user : String) : Option Member :=
  (d.rooms.get? room).bind (·.members.get? user)

/-- The display name unless it is empty, else the local part of the user id, else the user id. -/
def displayName (d : Directory) (user room : String) : String :=
  match ((d.member? room user).bind Member.displayName).filter (· ≠ "") with
  | some name => name
  | none => (localPart? user).getD user

/-- The name of the room, else its id. -/
def roomName (d : Directory) (room : String) : String :=
  ((d.rooms.get? room).bind Room.name).getD room

/-- The directory's answers. -/
def view (d : Directory) : RoomView where
  members room := (d.rooms.get? room).map (·.members.keys)
  avatar room user := (d.member? room user).bind Member.avatar
  displayName := d.displayName
  roomName := d.roomName

/-- The same without avatars. -/
def plainView (d : Directory) : RoomView :=
  { d.view with avatar := fun _ _ => none }

end Directory

end AlertRules
