import AlertRules.CodePoint.Word

/-!
# AlertRules.Text.WholeWord — searching for whole words

A text contains another one as a whole word if it occurs there, letter by letter, between two word
boundaries.  The empty text occurs at every boundary.
-/

namespace AlertRules.Text

/-- **`behind? before needle cs`** — if `cs` starts with the needle: the character in front of what
follows it, and what follows it. -/
def behind? (before : Option Char) : List Char → List Char → Option (Option Char × List Char)
  | [], cs => some (before, cs)
  | n :: ns, c :: cs => if n = c then behind? (some c) ns cs else none
  | _ :: _, [] => none

/-- The needle stands at the front of `cs`, between two word boundaries. -/
def wordAt (needle : List Char) (before : Option Char) (cs : List Char) : Bool :=
  CodePoint.isBoundary before cs.head? &&
    match behind? before needle cs with
    | some (last, rest) => CodePoint.isBoundary last rest.head?
    | none => false

/-- **`wordWithin needle before cs`** — the needle stands somewhere in `cs`, between two word
boundaries. -/
def wordWithin (needle : List Char) (before : Option Char) : List Char → Bool
  | [] => wordAt needle before []
  | c :: cs => wordAt needle before (c :: cs) || wordWithin needle (some c) cs

/-- The needle occurs as a whole word. -/
def containsWord (haystack needle : String) : Bool :=
  wordWithin needle.toList none haystack.toList

end AlertRules.Text
