import Mathlib.Computability.Language
import AlertRules.CodePoint.CaseFold
import AlertRules.CodePoint.Word
import AlertRules.Glob.Basic
import AlertRules.Glob.CharClass

/-!
# AlertRules.Proofs.Glob.Language — what a glob means

The texts that a glob stands for, said without expressions, atoms or matchers.  In legacy mode they
are the texts with the same characters up to case.  In strict mode the glob is read from left to
right (`Reads`), each item stands for a set of texts (`Item.language`), and the glob stands for what
one text of each, in a row, makes up.

The body of a class is a row of parts (`BodyParts`) that spells a difference of lists
(`Difference.parts`): `a-z--m` takes `m` away from the letters.  A list is closed under case variants
before anything is taken away, and a class is negated last.
-/

namespace AlertRules.Glob

/-- The characters differ in case at most: they have one simple case folding. -/
def SameFold (c d : Char) : Prop :=
  CodePoint.fold c.toNat = CodePoint.fold d.toNat

/-! ## Classes -/

/-- A part of a class body: a range (a single character is a short one), or the two hyphens that take
away what follows. -/
inductive Part where
  | member (r : Range)
  | minus

/-- The part that is one character. -/
def Part.single (c : Char) : Part := .member ⟨c, c⟩

/-- **`BodyParts cs ps`** — behind its leading hyphens, the body `cs` is made up of the parts `ps`.
Two hyphens come first; a hyphen between two other characters makes a range; any other hyphen stands
for itself. -/
inductive BodyParts : List Char → List Part → Prop
  | nil : BodyParts [] []
  | minus {cs ps} (rest : BodyParts cs ps) : BodyParts ('-' :: '-' :: cs) (.minus :: ps)
  | range {c d cs ps} (first : c ≠ '-') (last : d ≠ '-') (rest : BodyParts cs ps) :
      BodyParts (c :: '-' :: d :: cs) (.member ⟨c, d⟩ :: ps)
  | hyphen {cs ps} (alone : cs.head? ≠ some '-') (rest : BodyParts cs ps) :
      BodyParts ('-' :: cs) (.single '-' :: ps)
  | char {c cs ps} (plain : c ≠ '-') (alone : ∀ d ds, cs = '-' :: d :: ds → d = '-')
      (rest : BodyParts cs ps) : BodyParts (c :: cs) (.single c :: ps)

/-- **`Body cs ps`** — the class body `cs` is made up of the parts `ps`; hyphens in front stand for
themselves. -/
inductive Body : List Char → List Part → Prop
  | hyphen {cs ps} (rest : Body cs ps) : Body ('-' :: cs) (.single '-' :: ps)
  | parts {cs ps} (head : cs.head? ≠ some '-') (parts : BodyParts cs ps) : Body cs ps

/-- A list of ranges from which other lists are taken away, one after the other. -/
inductive Difference where
  | list (rs : List Range)
  | minus (e : Difference) (rs : List Range)

namespace Difference

/-- How the difference is spelled in a class body. -/
def parts : Difference → List Part
  | .list rs => rs.map .member
  | .minus e rs => e.parts ++ .minus :: rs.map .member

/-- The ranges of all lists. -/
def ranges : Difference → List Range
  | .list rs => rs
  | .minus e rs => e.ranges ++ rs

/-- A list of several ranges is a level of its own above them. -/
def listHeight (rs : List Range) : Nat :=
  if 2 ≤ rs.length then 1 else 0

/-- The number of levels above the ranges. -/
def height : Difference → Nat
  | .list rs => listHeight rs
  | .minus e rs => 1 + max e.height (listHeight rs)

/-- The characters of the ranges and their case variants. -/
def closure (rs : List Range) : Set Char :=
  {c | ∃ r ∈ rs, ∃ d, SameFold d c ∧ r.first ≤ d ∧ d ≤ r.last}

/-- The characters of the difference. -/
def members : Difference → Set Char
  | .list rs => closure rs
  | .minus e rs => e.members \ closure rs

/-- No range is inverted. -/
def Ordered (e : Difference) : Prop :=
  ∀ r ∈ e.ranges, r.first ≤ r.last

/-- Together with the class and the pattern around it, the difference nests no deeper than an expression
may. -/
def Shallow (e : Difference) : Prop :=
  2 + e.height ≤ CharClass.nestingLimit

end Difference

/-! ## Items -/

/-- **`Opens cs negated body rest`** — behind an opening bracket `cs` is a class: an exclamation mark
if it is negated, a body, the first closing bracket, and `rest`. -/
inductive Opens : List Char → Bool → List Char → List Char → Prop
  | negated {body rest} (nonempty : body ≠ []) (first : ']' ∉ body) :
      Opens ('!' :: (body ++ ']' :: rest)) true body rest
  | plain {body rest} (nonempty : body ≠ []) (first : ']' ∉ body)
      (unmarked : body.head? ≠ some '!') : Opens (body ++ ']' :: rest) false body rest

/-- **`Reads cs is`** — read from left to right in strict mode, the glob `cs` has the items `is`. -/
inductive Reads : List Char → List Item → Prop
  | nil : Reads [] []
  | many {cs is} (rest : Reads cs is) : Reads ('*' :: cs) (.many :: is)
  | one {cs is} (rest : Reads cs is) : Reads ('?' :: cs) (.one :: is)
  | oneOf {cs negated body tail is} (opens : Opens cs negated body tail) (rest : Reads tail is) :
      Reads ('[' :: cs) (.oneOf negated body :: is)
  | bracket {cs is} (literal : ∀ negated body tail, ¬ Opens cs negated body tail)
      (rest : Reads cs is) : Reads ('[' :: cs) (.char '[' :: is)
  | char {c cs is} (plain : c ≠ '*' ∧ c ≠ '?' ∧ c ≠ '[') (rest : Reads cs is) :
      Reads (c :: cs) (.char c :: is)

/-- The texts that an item stands for. -/
def Item.language : Item → Language Char
  | .char c => {w | ∃ d, w = [d] ∧ SameFold c d}
  | .one => {w | ∃ d, w = [d] ∧ d ≠ '\n'}
  | .many => {w | '\n' ∉ w}
  | .oneOf negated body =>
    {w | ∃ d e, w = [d] ∧ Body body (Difference.parts e) ∧ (d ∈ e.members ↔ negated = false)}

/-- A class has no inverted range and does not nest too deep. -/
def Item.Sound : Item → Prop
  | .oneOf _ body => ∀ e : Difference, Body body e.parts → e.Ordered ∧ e.Shallow
  | _ => True

/-! ## Globs -/

/-- The texts that a glob stands for. -/
def language : Mode → List Char → Language Char
  | .legacy, glob => {w | List.Forall₂ SameFold glob w}
  | .strict, glob => {w | ∃ is, Reads glob is ∧ w ∈ (is.map Item.language).prod}

/-- In strict mode, every class of the glob is sound. -/
def Sound (mode : Mode) (glob : List Char) : Prop :=
  mode = .strict → ∀ is, Reads glob is → ∀ i ∈ is, i.Sound

/-- **`Found anchor l cs`** — the text `cs` holds a text of the language where the anchor lets it lie:
as the whole, or between two word boundaries. -/
def Found : Anchor → Language Char → List Char → Prop
  | .full, l, cs => cs ∈ l
  | .word, l, cs => ∃ a m b, cs = a ++ m ++ b ∧ m ∈ l ∧
      CodePoint.isBoundary a.getLast? (m ++ b).head? = true ∧
      CodePoint.isBoundary (a ++ m).getLast? b.head? = true

end AlertRules.Glob
