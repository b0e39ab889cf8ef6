import AlertRules.Json.Document
import AlertRules.Json.Shortest
import AlertRules.Text.Quoted
import AlertRules.Timestamp

/-!
# AlertRules.Json.Decode — typed readings

A typed reading takes a JSON value, or the document of a text, and gives a value of a type or a
**refusal**, which says what stands there and what was expected.  Values and documents are read
alike: a reader sees only the `View` of what it reads.

A record is read from an object by the names of its fields, where unknown members are skipped, or
from a list in the order of its fields.  `Record` describes one; it is put together field by field
with `<*>`.  A record is read iff all fields that are there can be read and no required one is
missing.  Of several faults in an object the one of the earliest member is reported, and a missing
field only when every member is sound.
-/

namespace AlertRules.Json

/-! ## Refusals -/

/-- Why a typed reading fails. -/
inductive Refusal where
  | wrongType (found expected : String)
  | wrongValue (found expected : String)
  | missingField (name : String)
  | duplicateField (name : String)
  | unknownVariant (name : String) (known : List String)
  | wrongLength (length : Nat) (expected : String)
  | moment (fault : Timestamp.Fault)
  /-- The document holds a text or a number that has no value. -/
  | unreadable
  deriving DecidableEq

/-- A name as messages write it. -/
def ticked (name : String) : String :=
  "`" ++ name ++ "`"

/-- The names that were possible. -/
def choiceText : List String → String
  | [] => "nothing"
  | [a] => ticked a
  | [a, b] => ticked a ++ " or " ++ ticked b
  | known => "one of " ++ ", ".intercalate (known.map ticked)

/-- The refusal in words. -/
def Refusal.message : Refusal → String
  | .wrongType found expected => "invalid type: " ++ found ++ ", expected " ++ expected
  | .wrongValue found expected => "invalid value: " ++ found ++ ", expected " ++ expected
  | .missingField name => "missing field " ++ ticked name
  | .duplicateField name => "duplicate field " ++ ticked name
  | .unknownVariant name known =>
    "unknown variant " ++ ticked name ++ ", expected " ++ choiceText known
  | .wrongLength length expected =>
    "invalid length " ++ toString length ++ ", expected " ++ expected
  | .moment fault => fault.message
  | .unreadable => "unreadable value"

/-! ## What a reader sees -/

/-- The outermost layer of a value whose parts are of type `δ`. -/
inductive View (δ : Type) where
  | null
  | bool (b : Bool)
  | num (n : Number)
  | str (s : String)
  | arr (items : List δ)
  | obj (members : List (String × δ))

/-- What stands there, in the words of a refusal. -/
def View.found {δ : Type} : View δ → String
  | .null => "null"
  | .bool b => "boolean " ++ ticked (if b then "true" else "false")
  | .num (.int value _) => "integer " ++ ticked (toString value)
  | .num (.double d) => "floating point " ++ ticked d.text
  | .str s => "string " ++ Text.quoted s
  | .arr _ => "sequence"
  | .obj _ => "map"

/-- A type whose values can be read: values themselves and documents. -/
class Source (δ : Type) where
  /-- The outermost layer, unless it is an unreadable text or number or has an unreadable key. -/
  view : δ → Option (View δ)

/-- The outermost layer of a value. -/
def view : Json → View Json
  | .null => .null
  | .bool b => .bool b
  | .num n => .num n
  | .str s => .str s
  | .arr items => .arr items
  | .obj members => .obj members

instance : Source Json := ⟨fun j => some j.view⟩

/-- The members with their keys, if every key can be read. -/
def Document.readableKeys? : List (Literal × Document) → Option (List (String × Document))
  | [] => some []
  | (key, d) :: members =>
    match key, readableKeys? members with
    | some k, some ms => some ((k, d) :: ms)
    | _, _ => none

/-- The outermost layer of a document. -/
def Document.view? : Document → Option (View Document)
  | .null => some .null
  | .bool b => some (.bool b)
  | .num n => n.map .num
  | .str l => l.map .str
  | .arr items => some (.arr items)
  | .obj members => (readableKeys? members).map .obj

instance : Source Document := ⟨Document.view?⟩

/-! ## Readers -/

namespace Read

variable {δ α : Type} [Source δ]

/-- The refusal of something of the wrong type. -/
def mismatch (d : δ) (expected : String) : Refusal :=
  match Source.view d with
  | some v => .wrongType v.found expected
  | none => .unreadable

/-- A text, which a refusal calls `expected`. -/
def textAs (expected : String) (d : δ) : Except Refusal String :=
  match Source.view d with
  | some (.str s) => .ok s
  | _ => .error (mismatch d expected)

/-- A text. -/
def text (d : δ) : Except Refusal String :=
  textAs "a string" d

/-- A truth value. -/
def flag (d : δ) : Except Refusal Bool :=
  match Source.view d with
  | some (.bool b) => .ok b
  | _ => .error (mismatch d "a boolean")

/-- An integer from 0 to `2 ^ 64 - 1`. -/
def word (d : δ) : Except Refusal UInt64 :=
  match Source.view d with
  | some (.num (.int value h)) =>
    if 0 ≤ value then .ok value.toNat.toUInt64
    else .error (.wrongValue (View.found (δ := δ) (.num (.int value h))) "u64")
  | _ => .error (mismatch d "u64")

/-- A moment in time. -/
def moment (d : δ) : Except Refusal Timestamp :=
  match Source.view d with
  | some (.str s) => (Timestamp.read s).mapError .moment
  | _ => .error (mismatch d "an RFC 3339 formatted date and time string")

/-- Nothing for null, otherwise what `read` gives. -/
def option (read : δ → Except Refusal α) (d : δ) : Except Refusal (Option α) :=
  match Source.view d with
  | some .null => .ok none
  | _ => (read d).map some

/-- Every item; the first refusal counts. -/
def all (read : δ → Except Refusal α) : List δ → Except Refusal (List α)
  | [] => .ok []
  | d :: ds =>
    match read d with
    | .error r => .error r
    | .ok a => (all read ds).map (a :: ·)

/-- A list. -/
def list (read : δ → Except Refusal α) (d : δ) : Except Refusal (List α) :=
  match Source.view d with
  | some (.arr items) => all read items
  | _ => .error (mismatch d "a sequence")

/-- The members put into `m`; the first refusal counts. -/
def entries (read : δ → Except Refusal α) (m : KeyMap α) :
    List (String × δ) → Except Refusal (KeyMap α)
  | [] => .ok m
  | (key, d) :: members =>
    match read d with
    | .error r => .error r
    | .ok a => entries read (m.insert key a) members

/-- A map; the last of equal keys wins. -/
def map (read : δ → Except Refusal α) (d : δ) : Except Refusal (KeyMap α) :=
  match Source.view d with
  | some (.obj members) => entries read .empty members
  | _ => .error (mismatch d "a map")

/-- The choice of that name. -/
def choose (choices : List (String × α)) (name : String) : Except Refusal α :=
  match choices.lookup name with
  | some a => .ok a
  | none => .error (.unknownVariant name (choices.map Prod.fst))

/-- One of several named values: the name as a text, or an object whose only member has that name and is
null. -/
def choice (choices : List (String × α)) (d : δ) : Except Refusal α :=
  match Source.view d with
  | some (.str name) => choose choices name
  | some (.obj [(name, payload)]) =>
    match choose choices name with
    | .error r => .error r
    | .ok a =>
      match Source.view payload with
      | some .null => .ok a
      | _ => .error (mismatch payload "unit")
  | some (.obj _) => .error (.wrongValue "map" "map with a single key")
  | _ => .error (mismatch d "string or map")

end Read

/-! ## Records -/

/-- A field of a record: its name, and what is wrong with a value for it. -/
structure Field (δ : Type) where
  name : String
  fault? : δ → Option Refusal

/-- Where a record finds its fields: the value of a field, and the refusal when a required one is
missing. -/
structure Lookup (δ : Type) where
  get : String → Except Refusal (Option δ)
  missing : String → Refusal

/-- How an `α` is put together from named fields. -/
structure Record (δ α : Type) where
  fields : List (Field δ)
  build : Lookup δ → Except Refusal α

namespace Record

variable {δ α β : Type}

/-- The refusal of `read`, if there is one. -/
def faultOf (read : δ → Except Refusal α) (d : δ) : Option Refusal :=
  match read d with
  | .ok _ => none
  | .error r => some r

/-- A field that has to be there. -/
def required (name : String) (read : δ → Except Refusal α) : Record δ α where
  fields := [⟨name, faultOf read⟩]
  build lookup :=
    match lookup.get name with
    | .error r => .error r
    | .ok none => .error (lookup.missing name)
    | .ok (some d) => read d

/-- A field that is `value` when it is not there. -/
def withDefault (name : String) (value : α) (read : δ → Except Refusal α) : Record δ α where
  fields := [⟨name, faultOf read⟩]
  build lookup :=
    match lookup.get name with
    | .error r => .error r
    | .ok none => .ok value
    | .ok (some d) => read d

/-- A field that may be absent or null. -/
def optional [Source δ] (name : String) (read : δ → Except Refusal α) : Record δ (Option α) :=
  withDefault name none (Read.option read)

/-- The fields of `f`, then those of `r`. -/
def apply (f : Record δ (α → β)) (r : Record δ α) : Record δ β where
  fields := f.fields ++ r.fields
  build lookup :=
    match f.build lookup with
    | .error e => .error e
    | .ok g =>
      match r.build lookup with
      | .error e => .error e
      | .ok a => .ok (g a)

instance : Applicative (Record δ) where
  pure a := ⟨[], fun _ => .ok a⟩
  map f r := ⟨r.fields, fun lookup => (r.build lookup).map f⟩
  seq f r := f.apply (r ())

/-! ### From the members of an object -/

/-- The member of that name, which must not stand there twice. -/
def memberNamed (members : List (String × δ)) (name : String) : Except Refusal (Option δ) :=
  match members.filter (·.1 == name) with
  | [] => .ok none
  | [(_, d)] => .ok (some d)
  | _ => .error (.duplicateField name)

/-- The first member that is a field for the second time or that its field refuses, behind members with
the names `seen`. -/
def firstFault? (fields : List (Field δ)) (seen : List String) :
    List (String × δ) → Option Refusal
  | [] => none
  | (key, d) :: members =>
    match fields.find? (·.name == key) with
    | none => firstFault? fields seen members
    | some field =>
      if key ∈ seen then some (.duplicateField key)
      else
        match field.fault? d with
        | some r => some r
        | none => firstFault? fields (key :: seen) members

/-- The record from the members of an object. -/
def ofMembers (r : Record δ α) (members : List (String × δ)) : Except Refusal α :=
  match r.build ⟨memberNamed members, .missingField⟩ with
  | .ok a => .ok a
  -- what was found wrong first may not stand first: the members decide which fault is told
  | .error e => .error ((firstFault? r.fields [] members).getD e)

/-! ### From the items of a list -/

/-- The position of a field. -/
def position (r : Record δ α) (name : String) : Nat :=
  r.fields.findIdx (·.name == name)

/-- The record of that name from the items of a list. -/
def ofItems (r : Record δ α) (name : String) (items : List δ) : Except Refusal α :=
  let size := "struct " ++ name ++ " with " ++ toString r.fields.length
    ++ (if r.fields.length = 1 then " element" else " elements")
  let lookup : Lookup δ :=
    ⟨fun field => .ok items[r.position field]?, fun field => .wrongLength (r.position field) size⟩
  match r.build lookup with
  | .error e => .error e
  | .ok a =>
    if items.length ≤ r.fields.length then .ok a
    else .error (.wrongLength items.length "fewer elements in array")

/-- The record of that name, from an object or a list. -/
def read [Source δ] (r : Record δ α) (name : String) (d : δ) : Except Refusal α :=
  match Source.view d with
  | some (.obj members) => r.ofMembers members
  | some (.arr items) => r.ofItems name items
  | _ => .error (Read.mismatch d ("struct " ++ name))

end Record

end AlertRules.Json
