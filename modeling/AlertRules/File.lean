/-!
# AlertRules.File — what lies under a path

Under a path there is nothing, a file with its bytes, which may be the UTF-8 form of a text, or
something else: what gives no bytes, such as a directory, or the empty device, which can be read and
swallows what is written, but cannot be replaced.  Reading a file as something fails in one of two
ways: it holds no text, or the text does not say such a thing.
-/

namespace AlertRules.File

-- bytes are compared by the library's own function, whichever other instance is in scope
local instance bytesDecEq : DecidableEq ByteArray := ByteArray.decEq

/-- What lies under a path: nothing, a file with these bytes, what can be neither read nor changed, for
that reason, or the empty device. -/
inductive Content where
  | missing
  | present (bytes : ByteArray)
  | blocked (reason : String)
  | void
  deriving DecidableEq

/-- The file that holds the text. -/
def ofText (s : String) : Content :=
  .present s.toUTF8

/-- The bytes that there are. -/
def Content.bytes : Content → ByteArray
  | .present bytes => bytes
  | _ => .empty

/-- The text that the file holds. -/
def Content.text? : Content → Option String
  | .present bytes => String.fromUTF8? bytes
  | .void => some ""
  | _ => none

/-- What lies there once it has been opened for a change, which creates a missing file. -/
def Content.opened : Content → Content
  | .missing => .present .empty
  | c => c

/-- The bytes put in place of what was opened. -/
def Content.replaced (c : Content) (bytes : ByteArray) : Except String Content :=
  match c with
  | .void => .error "Invalid argument (os error 22)"
  | _ => .ok (.present bytes)

/-- Why a file could not be read as what it should be. -/
inductive Fault where
  | unreadable (what path : String)
  | malformed (what path : String)
  deriving DecidableEq

/-- The fault in words. -/
def Fault.message : Fault → String
  | .unreadable what path => "Failed to read " ++ what ++ " " ++ path
  | .malformed what path => "Failed to parse " ++ what ++ " " ++ path

/-- What the text of the file says. -/
def load {α : Type} (what path : String) (parse : String → Option α) (c : Content) :
    Except Fault α :=
  match c.text? with
  | none => .error (.unreadable what path)
  | some s =>
    match parse s with
    | none => .error (.malformed what path)
    | some a => .ok a

end AlertRules.File
