import AlertRules.CodePoint.CaseFold

/-!
# AlertRules.Glob.CharClass — the classes of a glob

The body of a class lists characters and ranges.  Only the hyphen is special there:

* hyphens at the very beginning stand for themselves;
* two hyphens take what follows away from what precedes them, again and again from left to right;
* a hyphen between two characters makes a range, which must not be inverted;
* any other hyphen stands for itself.

Every list is closed under case variants before anything is taken away and before the class is
negated.  Differences nest to the left, and a body that nests too deep is no class.
-/

namespace AlertRules.Glob

/-- The characters from `first` to `last`. -/
structure Range where
  first : Char
  last : Char
  deriving DecidableEq

/-- A case variant of `c` lies in one of the ranges. -/
def covers (rs : List Range) (c : Char) : Bool :=
  (CodePoint.variants c.toNat).any fun n =>
    rs.any fun r => r.first.toNat ≤ n && n ≤ r.last.toNat

/-- What a class lists, what it takes away from that, and whether it is negated. -/
structure CharClass where
  negated : Bool
  base : List Range
  removed : List (List Range)
  deriving DecidableEq

namespace CharClass

/-- The class holds the character. -/
def contains (k : CharClass) (c : Char) : Bool :=
  (covers k.base c && !k.removed.any fun rs => covers rs c) != k.negated

/-- A list of ranges, and the lists that follow it behind two hyphens each. -/
abbrev Operands := List Range × List (List Range)

/-- One more range at the front of the first list. -/
def Operands.push (o : Operands) (r : Range) : Operands :=
  (r :: o.1, o.2)

/-- The lists of a body behind its leading hyphens, unless a range is inverted. -/
def operands? : List Char → Option Operands
  -- two hyphens come first: they never begin a range, and never end one
  | '-' :: '-' :: cs => (operands? cs).map fun o => ([], o.1 :: o.2)
  | c :: '-' :: '-' :: cs => (operands? ('-' :: '-' :: cs)).map (Operands.push · ⟨c, c⟩)
  | c :: '-' :: d :: cs => if c ≤ d then (operands? cs).map (Operands.push · ⟨c, d⟩) else none
  | c :: cs => (operands? cs).map (Operands.push · ⟨c, c⟩)
  | [] => some ([], [])

/-- How deep the syntax of a class may nest. -/
def nestingLimit : Nat := 250

/-- The depth of a list below `above` differences: the pattern and the class lie around them, and a list
of several members is a level of its own. -/
def operandDepth (above : Nat) (rs : List Range) : Nat :=
  2 + above + (if 2 ≤ rs.length then 1 else 0)

/-- The greatest depth of the lists that are taken away; the last one lies below one difference. -/
def removedDepth : List (List Range) → Nat
  | [] => 0
  | rs :: rss => max (operandDepth (rss.length + 1) rs) (removedDepth rss)

/-- How deep the class nests. -/
def depth (k : CharClass) : Nat :=
  max (operandDepth k.removed.length k.base) (removedDepth k.removed)

/-- The class with that body. -/
def ofBody? (negated : Bool) (body : List Char) : Option CharClass :=
  (operands? (body.dropWhile (· == '-'))).bind fun (base, removed) =>
    let hyphens := (body.takeWhile (· == '-')).map fun c => ⟨c, c⟩
    let k : CharClass := ⟨negated, hyphens ++ base, removed⟩
    if k.depth ≤ nestingLimit then some k else none

end CharClass

end AlertRules.Glob
