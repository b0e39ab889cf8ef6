import AlertRules.CodePoint.Word
import AlertRules.Glob.Atom

/-!
# AlertRules.Glob.Matcher — matching globs

A matcher is a row of **atoms**.  While a text is read, the matcher keeps for every place in the row
whether the text so far can be spread over the atoms in front of it, one flag for each place
(`Live`).  A character moves the flags in one pass, so matching takes time proportional to the length
of the text, whatever the glob.

An empty text matches nothing.
-/

namespace AlertRules.Glob

/-! ## Live places -/

/-- For each place in a row of atoms, from the front to the end, whether it can be reached. -/
abbrev Live := List Bool

/-- The first place reached as well if `carry`, and every place that can be reached from there without a
character. -/
def enter (carry : Bool) : List Atom → Live → Live
  | a :: as, b :: bs => (carry || b) :: enter ((carry || b) && a.repeats) as bs
  | [], b :: _ => [carry || b]
  | _, [] => []

/-- The places that can be reached behind the character `c`, the first one if `carry`. -/
def advance (c : Char) (carry : Bool) : List Atom → Live → Live
  | a :: as, b :: bs =>
    let taken := b && a.takes c
    -- an atom that repeats keeps its place, and lets the next one be reached without a character
    if a.repeats then (carry || taken) :: advance c (carry || taken) as bs
    else carry :: advance c taken as bs
  | [], _ :: _ => [carry]
  | _, [] => []

/-- No place is reached. -/
def nowhere (atoms : List Atom) : Live :=
  List.replicate (atoms.length + 1) false

/-- The end of the row is reached. -/
def finished (live : Live) : Bool :=
  live.getLast? == some true

/-! ## Matchers -/

/-- A row of atoms, and where a match may lie. -/
structure Matcher where
  anchor : Anchor
  atoms : List Atom
  deriving DecidableEq

namespace Matcher

/-- The matcher of a glob, by its regular expression; there is none if one of its classes is ill-formed.
-/
def compile? (glob : String) (anchor : Anchor) (mode : Mode) : Option Matcher :=
  (Atom.row? (expression mode glob).toList).map (⟨anchor, ·⟩)

/-- The whole text can be spread over the atoms. -/
def spans (atoms : List Atom) (cs : List Char) : Bool :=
  finished (cs.foldl (fun live c => advance c false atoms live) (enter true atoms (nowhere atoms)))

/-- **`foundFrom atoms live before cs`** — a part of the text that starts and ends at word
boundaries can be spread over the atoms: it starts in `cs`, or earlier with `live` the places that
are reached. -/
def foundFrom (atoms : List Atom) (live : Live) (before : Option Char) : List Char → Bool
  | [] => CodePoint.isBoundary before none && finished (enter true atoms live)
  | c :: cs =>
    -- here a match may begin, and one that began earlier may end
    let atBoundary := CodePoint.isBoundary before (some c)
    let entered := if atBoundary then enter true atoms live else live
    (atBoundary && finished entered) || foundFrom atoms (advance c false atoms entered) (some c) cs

/-- The text matches. -/
def isMatch (m : Matcher) (text : String) : Bool :=
  text != "" &&
    match m.anchor with
    | .full => spans m.atoms text.toList
    | .word => foundFrom m.atoms (nowhere m.atoms) none text.toList

end Matcher

end AlertRules.Glob
