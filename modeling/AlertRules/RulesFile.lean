import AlertRules.CodePoint.Blank
import AlertRules.Failure
import AlertRules.File
import AlertRules.Json.Printer
import AlertRules.Ruleset

/-!
# AlertRules.RulesFile — the file that holds the rules

The rules of a user lie in a file of JSON text.  A file that is missing or blank holds no rules.

**Reading** the file (`RulesFile.fetch`) is lenient, as reading rules is.  **Changing** it (`add` and
`delete`) works on the JSON value: it replaces one list, the one of a kind within a scope, and leaves
everything else as it is.  Levels that are missing on the way are created.  A change that fails leaves
the bytes of the file alone; it may leave an empty file where there was none.
-/

namespace AlertRules.RulesFile

/-! ## The value in the file -/

/-- Why there is no JSON value under a path. -/
inductive RootFault where
  | blocked (reason : String)
  | notText
  | notJson
  deriving DecidableEq

/-- The fault in words. -/
def RootFault.message : RootFault → String
  | .blocked reason => reason
  | .notText => "stream did not contain valid UTF-8"
  | .notJson => "<json text error>"

/-- The JSON value in a file; no file and a blank one stand for the empty object. -/
def root : File.Content → Except RootFault Json
  | .blocked reason => .error (.blocked reason)
  | .missing | .void => .ok (.obj [])
  | .present bytes =>
    match String.fromUTF8? bytes with
    | none => .error .notText
    | some s =>
      if s.toList.all CodePoint.isBlank then .ok (.obj [])
      else
        match Json.read? s with
        | none => .error .notJson
        | some j => .ok j

/-- The rules that a value describes. -/
def interpret (j : Json) : Except Failure Ruleset :=
  (Ruleset.read j).mapError fun refusal => .parse "ruleset" refusal.message

/-- The rules in the file under that path. -/
def fetch (path : String) (c : File.Content) : Except Failure Ruleset :=
  match root c with
  | .error .notJson => .error (.parse "ruleset file" RootFault.notJson.message)
  | .error fault => .error (.fetch (path ++ ": " ++ fault.message))
  | .ok j => interpret j

/-! ## Changes -/

/-- The rules for all devices, or those of one device. -/
inductive Scope where
  | global
  | device (name : String)
  deriving DecidableEq

/-- **`Scope.ofString? s`** — `global`, or `device/` and the name of a device. -/
def Scope.ofString? (s : String) : Option Scope :=
  if s = "global" then some .global
  else if "device/".toList.isPrefixOf s.toList ∧ s ≠ "device/" then
    some (.device (String.ofList (s.toList.drop "device/".length)))
  else none

/-- Why a change is refused. -/
inductive Fault where
  | bodyNotObject
  | root (fault : RootFault)
  | rootNotObject
  | devicesNotObject
  | unknownScope (scope : String)
  | scopeNotObject (scope : String)
  | kindNotList (scope : String) (kind : Kind)
  | ruleNotFound
  | notWritten (reason : String)
  deriving DecidableEq

/-- A name in a message. -/
def quoted (s : String) : String :=
  "'" ++ s ++ "'"

/-- The fault in words. -/
def Fault.message : Fault → String
  | .bodyNotObject => "rule body must be a JSON object"
  | .root fault => fault.message
  | .rootNotObject => "ruleset file is not a JSON object"
  | .devicesNotObject => "device scope is not an object"
  | .unknownScope scope => "unknown scope " ++ quoted scope
  | .scopeNotObject scope => "scope " ++ quoted scope ++ " is not an object"
  | .kindNotList scope kind => scope ++ "/" ++ kind.text ++ " is not an array"
  | .ruleNotFound => "rule not found"
  | .notWritten reason => reason

/-- The members with `f` applied to the one under the key, or to `absent` when there is none. -/
def editMember (key : String) (absent : Json) (f : Json → Except Fault Json)
    (members : List (String × Json)) : Except Fault Json :=
  (f ((members.lookup key).getD absent)).map fun j => .obj (Entries.insert key j members)

/-- A change to the list of rules of a kind. -/
abbrev Edit := List Json → Except Fault (List Json)

/-- The list of rules with the change. -/
def editList (scope : String) (kind : Kind) (f : Edit) : Json → Except Fault Json
  | .arr rules => (f rules).map .arr
  | _ => .error (.kindNotList scope kind)

/-- The rules of a scope with the change to those of the kind. -/
def editKind (scope : String) (kind : Kind) (f : Edit) : Json → Except Fault Json
  | .obj members => editMember kind.text (.arr []) (editList scope kind f) members
  | _ => .error (.scopeNotObject scope)

/-- The rules of all devices with the change to those of one. -/
def editDevice (scope device : String) (kind : Kind) (f : Edit) : Json → Except Fault Json
  | .obj members => editMember device (.obj []) (editKind scope kind f) members
  | _ => .error .devicesNotObject

/-- All rules with the change to those of the kind within the scope. -/
def editRoot (scope : String) (kind : Kind) (f : Edit) : Json → Except Fault Json
  | .obj members =>
    match Scope.ofString? scope with
    | some .global => editMember "global" (.obj []) (editKind scope kind f) members
    | some (.device name) => editMember "device" (.obj []) (editDevice scope name kind f) members
    | none => .error (.unknownScope scope)
  | _ => .error .rootNotObject

/-- The bytes of the file after the change. -/
def edited (scope : String) (kind : Kind) (f : Edit) (c : File.Content) : Except Fault ByteArray :=
  match root c with
  | .error fault => .error (.root fault)
  | .ok j => (editRoot scope kind f j).map fun j => j.pretty.toUTF8

/-- Whether the change succeeds, and the file afterwards. -/
def modify (scope : String) (kind : Kind) (f : Edit) (c : File.Content) :
    Except Fault Unit × File.Content :=
  match edited scope kind f c with
  | .error fault => (.error fault, c.opened)
  | .ok bytes =>
    match c.replaced bytes with
    | .error reason => (.error (.notWritten reason), c.opened)
    | .ok c => (.ok (), c)

/-- The entry of a list has that id. -/
def hasId (id : String) (j : Json) : Bool :=
  (j.field? "rule_id").bind Json.text? == some id

/-- The entries that do not have that id. -/
def without (id : String) (rules : List Json) : List Json :=
  rules.filter fun j => !hasId id j

/-- The rule of that id with the given members. -/
def withId (id : String) (body : List (String × Json)) : Json :=
  .obj (Entries.insert "rule_id" (.str id) body)

/-- The rule put at the end of the list, instead of any of that id. -/
def placing (id : String) (body : List (String × Json)) : Edit :=
  fun rules => .ok (without id rules ++ [withId id body])

/-- The rules of that id taken out of the list; there must be one. -/
def removing (id : String) : Edit :=
  fun rules =>
    if (without id rules).length = rules.length then .error .ruleNotFound
    else .ok (without id rules)

/-- A refused change as a failure. -/
def failureOf (scope : String) (kind : Kind) (id : String) (result : Except Fault Unit) :
    Except Failure Unit :=
  result.mapError fun fault => .mutation scope kind.text id fault.message

/-- A rule put into the file, and the file afterwards. -/
def add (scope : String) (kind : Kind) (id : String) (body : Json) (c : File.Content) :
    Except Failure Unit × File.Content :=
  match body with
  | .obj members =>
    let (result, c) := modify scope kind (placing id members) c
    (failureOf scope kind id result, c)
  | _ => (failureOf scope kind id (.error .bodyNotObject), c)

/-- The rules of that id taken out of the file, and the file afterwards. -/
def delete (scope : String) (kind : Kind) (id : String) (c : File.Content) :
    Except Failure Unit × File.Content :=
  let (result, c) := modify scope kind (removing id) c
  (failureOf scope kind id result, c)

end AlertRules.RulesFile
