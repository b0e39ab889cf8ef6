/-!
# AlertRules.CodePoint.Bounds — sets of code points by their bounds

A set of code points that consists of runs is written as the increasing array of its **bounds**:
the first code point of a run, the first one after it, the first one of the next run, and so on.
A code point lies within the set iff an odd number of bounds is at most that code point.  Counting
them is a binary search, so a look-up in a set of `n` runs takes about `log₂ n` steps.
-/

namespace AlertRules.CodePoint

/-- The search on the positions `lo ≤ i < hi`. -/
def countUpTo.search (bounds : Array Nat) (n : Nat) : (steps lo hi : Nat) → Nat
  | 0, lo, _ => lo
  | steps + 1, lo, hi =>
    if lo < hi then
      let mid := (lo + hi) / 2
      if bounds.getD mid 0 ≤ n then
        search bounds n steps (mid + 1) hi
      else
        search bounds n steps lo mid
    else lo

/-- How many entries of the increasing array are at most `n`.  Every step halves the interval, so
`log₂ size + 1` steps are enough. -/
def countUpTo (bounds : Array Nat) (n : Nat) : Nat :=
  countUpTo.search bounds n (bounds.size.log2 + 1) 0 bounds.size

/-- The code point `n` lies in one of the runs that `bounds` delimits. -/
def within (bounds : Array Nat) (n : Nat) : Bool :=
  countUpTo bounds n % 2 == 1

end AlertRules.CodePoint
