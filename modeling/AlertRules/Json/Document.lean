import AlertRules.Json.Token
import AlertRules.Json.Value

/-!
# AlertRules.Json.Document — what a JSON text says

A `Document` is a JSON text by its form alone: members in the order and as often as they are
written, texts that may be unreadable, numbers that may be out of range.  Two kinds of reading start
from it:

* `Json.read?` takes the whole text as a value: everything must be readable, lists and objects may
  be nested at most `depthLimit` deep, and the last of equal keys wins;
* a typed reading (`AlertRules.Json.Decode`) looks only at the members that it knows.
-/

namespace AlertRules.Json

/-- A JSON text by its form. -/
inductive Document where
  | null
  | bool (b : Bool)
  | num (n : Option Number)
  | str (l : Literal)
  | arr (items : List Document)
  | obj (members : List (Literal × Document))

namespace Document

/-- A list or an object that is still open, with what it holds so far, last first. -/
inductive Frame where
  | list (items : List Document)
  | object (members : List (Literal × Document))
  /-- An object behind a key, whose value comes next. -/
  | member (members : List (Literal × Document)) (key : Literal)

/-- What may come next. -/
inductive Expecting where
  | value
  | valueOrClose
  | key
  | keyOrClose
  | colon
  | commaOrClose
  | nothing

/-- A document while it is read: the open lists and objects, innermost first, what may come next, and
the finished document. -/
structure Builder where
  frames : List Frame
  expecting : Expecting
  done : Option Document

namespace Builder

/-- Before the first token. -/
def start : Builder := ⟨[], .value, none⟩

/-- A finished value goes into the innermost open list or object. -/
def place (d : Document) : List Frame → Option Builder
  | [] => some ⟨[], .nothing, some d⟩
  | .list items :: frames => some ⟨.list (d :: items) :: frames, .commaOrClose, none⟩
  | .member members key :: frames =>
    some ⟨.object ((key, d) :: members) :: frames, .commaOrClose, none⟩
  | .object _ :: _ => none

/-- A token that is a value or opens one. -/
def beginValue (frames : List Frame) : Token → Option Builder
  | .null => place .null frames
  | .bool b => place (.bool b) frames
  | .number n => place (.num n.value?) frames
  | .text l => place (.str l) frames
  | .openList => some ⟨.list [] :: frames, .valueOrClose, none⟩
  | .openObject => some ⟨.object [] :: frames, .keyOrClose, none⟩
  | _ => none

/-- The builder one token further; nothing when the text is no JSON text. -/
def step? (b : Builder) (t : Token) : Option Builder :=
  match b.expecting, t, b.frames with
  | .value, t, frames => beginValue frames t
  | .valueOrClose, .closeList, .list items :: frames => place (.arr items.reverse) frames
  | .valueOrClose, t, frames => beginValue frames t
  | .key, .text k, .object members :: frames => some ⟨.member members k :: frames, .colon, none⟩
  | .keyOrClose, .text k, .object members :: frames =>
    some ⟨.member members k :: frames, .colon, none⟩
  | .keyOrClose, .closeObject, .object members :: frames => place (.obj members.reverse) frames
  | .colon, .colon, frames => some ⟨frames, .value, none⟩
  | .commaOrClose, .comma, .list items :: frames => some ⟨.list items :: frames, .value, none⟩
  | .commaOrClose, .comma, .object members :: frames => some ⟨.object members :: frames, .key, none⟩
  | .commaOrClose, .closeList, .list items :: frames => place (.arr items.reverse) frames
  | .commaOrClose, .closeObject, .object members :: frames => place (.obj members.reverse) frames
  | _, _, _ => none

end Builder

/-- The document of a text; nothing when it is no JSON text. -/
def read? (text : String) : Option Document :=
  (tokens? text).bind fun ts =>
    (ts.foldlM Builder.step? Builder.start).bind Builder.done

mutual

/-- How many lists and objects lie around the deepest value. -/
def depth : Document → Nat
  | .arr items => depthOfItems items + 1
  | .obj members => depthOfMembers members + 1
  | _ => 0

/-- The greatest depth among the items. -/
def depthOfItems : List Document → Nat
  | [] => 0
  | d :: items => max d.depth (depthOfItems items)

/-- The greatest depth among the members. -/
def depthOfMembers : List (Literal × Document) → Nat
  | [] => 0
  | (_, d) :: members => max d.depth (depthOfMembers members)

end

mutual

/-- The value that the document stands for, if all of it is readable. -/
def value? : Document → Option Json
  | .null => some .null
  | .bool b => some (.bool b)
  | .num n => n.map .num
  | .str l => l.map .str
  | .arr items => (itemValues? items).map .arr
  | .obj members => (memberValues? [] members).map .obj

/-- The values of all items. -/
def itemValues? : List Document → Option (List Json)
  | [] => some []
  | d :: items =>
    match d.value?, itemValues? items with
    | some j, some js => some (j :: js)
    | _, _ => none

/-- The values of all members, put over the given entries one after the other. -/
def memberValues? (entries : List (String × Json)) :
    List (Literal × Document) → Option (List (String × Json))
  | [] => some entries
  | (key, d) :: members =>
    match key, d.value? with
    | some k, some j => memberValues? (Entries.insert k j entries) members
    | _, _ => none

end

end Document

/-- How deep lists and objects may be nested in a text that is read as a value. -/
def depthLimit : Nat := 127

/-- The value of a JSON text. -/
def read? (text : String) : Option Json :=
  (Document.read? text).bind fun d => if d.depth ≤ depthLimit then d.value? else none

end AlertRules.Json
