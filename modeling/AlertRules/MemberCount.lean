/-!
# AlertRules.MemberCount — comparisons of a room's member count

A comparison is written as an operator (`==`, `<`, `>`, `<=`, `>=`, or nothing for equality) and
decimal digits, with nothing else around them.  The number must be below `2 ^ 64`; leading zeros do
not count.
-/

namespace AlertRules.MemberCount

/-- How a count is compared with a bound. -/
inductive Operator where
  | eq
  | lt
  | gt
  | le
  | ge
  deriving DecidableEq

namespace Operator

/-- The operator as it is written. -/
def text : Operator → String
  | .eq => "=="
  | .lt => "<"
  | .gt => ">"
  | .le => "<="
  | .ge => ">="

/-- The operator that is written so; none at all means equality. -/
def ofChars? (cs : List Char) : Option Operator :=
  if cs = [] ∨ cs = ['=', '='] then some .eq
  else if cs = ['<'] then some .lt
  else if cs = ['>'] then some .gt
  else if cs = ['<', '='] then some .le
  else if cs = ['>', '='] then some .ge
  else none

/-- The count stands in that relation to the bound. -/
def holds (o : Operator) (count bound : Nat) : Bool :=
  match o with
  | .eq => count == bound
  | .lt => count < bound
  | .gt => bound < count
  | .le => count ≤ bound
  | .ge => bound ≤ count

end Operator

/-- An operator and a bound. -/
structure Comparison where
  operator : Operator
  bound : UInt64
  deriving DecidableEq

namespace Comparison

/-- A character of an operator. -/
def isOperatorChar (c : Char) : Bool :=
  c == '=' || c == '<' || c == '>'

/-- The number that decimal digits spell, if there are any and it fits 64 bits. -/
def bound? (ds : List Char) : Option UInt64 :=
  if ds ≠ [] ∧ ds.all Char.isDigit then
    let n := ds.foldl (fun acc c => 10 * acc + (c.toNat - 48)) 0
    if n < UInt64.size then some n.toUInt64 else none
  else none

/-- The comparison that a text spells. -/
def ofString? (s : String) : Option Comparison :=
  match Operator.ofChars? (s.toList.takeWhile isOperatorChar),
    bound? (s.toList.dropWhile isOperatorChar) with
  | some operator, some bound => some ⟨operator, bound⟩
  | _, _ => none

/-- The count passes the comparison. -/
def holds (k : Comparison) (count : Nat) : Bool :=
  k.operator.holds count k.bound.toNat

end Comparison

end AlertRules.MemberCount
