/-!
# AlertRules.RuleId — ids for rules about a pattern

The id of a rule about a pattern is the pattern without the characters that are special in patterns.
If that is empty or taken, a number from 2 on is put behind it, the least that makes the id free.
Among one number more than there are taken ids one is free, so the search ends.
-/

namespace AlertRules.RuleId

/-- **`isSpecial c`** — `c` has a meaning of its own in a pattern. -/
def isSpecial (c : Char) : Bool :=
  c == '*' || c == '[' || c == ']' || c == '?' || c == '!'

/-- The pattern without special characters. -/
def base (pattern : String) : String :=
  String.ofList (pattern.toList.filter fun c => !isSpecial c)

/-- **`numbered start taken steps k`** — `start` with the least number from `k` on that makes it
free, looked for in at most `steps` steps. -/
def numbered (start : String) (taken : List String) : (steps k : Nat) → String
  | 0, k => start ++ toString k
  | steps + 1, k =>
    if start ++ toString k ∈ taken then numbered start taken steps (k + 1)
    else start ++ toString k

/-- An id for the pattern that is not taken. -/
def fresh (pattern : String) (taken : List String) : String :=
  if base pattern ≠ "" ∧ base pattern ∉ taken then base pattern
  else numbered (base pattern) taken taken.length 2

end AlertRules.RuleId
