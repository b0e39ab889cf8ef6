import AlertRules.Json.Number
import AlertRules.KeyMap

/-!
# AlertRules.Json.Value — JSON values

A value is null, a truth value, a number, a text, a list, or an object.  An object is the list of
its members; in a **canonical** value the keys of every object increase strictly, so that a value
has one form.  `Json.ofMembers` builds such objects, and everything that is read from a text is
canonical.
-/

namespace AlertRules

/-- A JSON value. -/
inductive Json where
  | null
  | bool (b : Bool)
  | num (n : Json.Number)
  | str (s : String)
  | arr (items : List Json)
  | obj (members : List (String × Json))

namespace Json

instance : Inhabited Json := ⟨.null⟩

/-- The object with the given members; the last of equal keys wins. -/
def ofMembers (ms : List (String × Json)) : Json :=
  .obj (Entries.ofList ms)

/-- The object that holds `f v` for every value `v` of the map. -/
def ofMap {β : Type} (m : KeyMap β) (f : β → Json) : Json :=
  .obj (m.entries.map fun e => (e.1, f e.2))

/-- The text, or null when there is none. -/
def strOrNull : Option String → Json
  | some s => .str s
  | none => .null

/-- The member when there is a value, and no member otherwise. -/
def optional (key : String) : Option Json → List (String × Json)
  | some v => [(key, v)]
  | none => []

/-- The member of an object; nothing else has members. -/
def field? : Json → String → Option Json
  | .obj members, key => members.lookup key
  | _, _ => none

/-- The text, if the value is one. -/
def text? : Json → Option String
  | .str s => some s
  | _ => none

mutual

/-- The keys of every object in the value increase strictly. -/
def Canonical : Json → Prop
  | .arr items => AllCanonical items
  | .obj members => Entries.Sorted members ∧ MembersCanonical members
  | _ => True

/-- Every item is canonical. -/
def AllCanonical : List Json → Prop
  | [] => True
  | j :: items => j.Canonical ∧ AllCanonical items

/-- The value of every member is canonical. -/
def MembersCanonical : List (String × Json) → Prop
  | [] => True
  | (_, j) :: members => j.Canonical ∧ MembersCanonical members

end

mutual

/-- How many lists and objects lie around the deepest value. -/
def depth : Json → Nat
  | .arr items => depthOfItems items + 1
  | .obj members => depthOfMembers members + 1
  | _ => 0

/-- The greatest depth among the items. -/
def depthOfItems : List Json → Nat
  | [] => 0
  | j :: items => max j.depth (depthOfItems items)

/-- The greatest depth among the members. -/
def depthOfMembers : List (String × Json) → Nat
  | [] => 0
  | (_, j) :: members => max j.depth (depthOfMembers members)

end

end Json

end AlertRules
