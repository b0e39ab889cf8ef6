import AlertRules.Text.Pieces

/-!
# AlertRules.Path — paths as texts

A path is a text of names with slashes between them.  Empty parts and single dots in it lead nowhere.
Here it is only taken apart; what lies under it is not asked.
-/

namespace AlertRules.Path

/-- What stands between the slashes of a path. -/
def parts (path : String) : List String :=
  (Text.pieces '/' path.toList).map String.ofList

/-- The part leads nowhere. -/
def isIdle (part : String) : Bool :=
  part = "" || part = "."

/-- The parts that lead somewhere. -/
def names (path : String) : List String :=
  (parts path).filter (!isIdle ·)

/-- The parts without the idle ones at their end. -/
def trimmed (ps : List String) : List String :=
  (ps.reverse.dropWhile isIdle).reverse

/-- The path of the directory that leads to the last name. -/
def parent (path : String) : String :=
  "/".intercalate (trimmed (trimmed (parts path)).dropLast)

/-! ## Extensions -/

/-- A name, given from its end, with the extension `tmp` instead of its own.  The extension is what
follows the last dot, unless that dot begins the name.  When it is taken from a name such as `..x`, what
is left names no file, and nothing is put behind it. -/
def draftName (name : List Char) : List Char :=
  let renamed (stem : List Char) : List Char := ".tmp".toList.reverse ++ stem
  match name.dropWhile (· ≠ '.') with
  | [] => renamed name
  | [_] => renamed name
  | [_, '.'] => ['.', '.']
  | _ :: stem => renamed stem

/-- The path beside a file under which a new version of it is written, before that takes the place of
the file. -/
def draft (path : String) : String :=
  let name := path.toList.reverse.takeWhile (· ≠ '/')
  let way := path.toList.reverse.dropWhile (· ≠ '/')
  String.ofList (draftName name ++ way).reverse

/-! ## What the system takes for a path -/

/-- How many bytes a path may have. -/
def maxLength : Nat := 4095

/-- How many bytes a name in a path may have. -/
def maxNameLength : Nat := 255

/-- The path holds a zero byte, with which it would end for the system. -/
def hasZero (path : String) : Bool :=
  path.toList.contains '\x00'

end AlertRules.Path
