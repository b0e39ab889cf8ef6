/-!
# AlertRules.Text.Pieces — sequences cut at a separator

`pieces sep xs` cuts a sequence at every separator.  There is always one piece more than there are
separators (`pieces_ne_nil`), and pieces may be empty.
-/

namespace AlertRules.Text

variable {α : Type} [DecidableEq α]

/-- The pieces when `x` stands in front of them. -/
def push (sep x : α) (ps : List (List α)) : List (List α) :=
  if x = sep then [] :: ps
  else
    match ps with
    | [] => [[x]]
    | p :: ps => (x :: p) :: ps

/-- What lies between the separators. -/
def pieces (sep : α) (xs : List α) : List (List α) :=
  xs.foldr (push sep) [[]]

theorem push_ne_nil (sep x : α) (ps : List (List α)) : push sep x ps ≠ [] := by
  unfold push
  split
  · simp
  · split <;> simp

theorem pieces_ne_nil (sep : α) (xs : List α) : pieces sep xs ≠ [] := by
  cases xs with
  | nil => simp [pieces]
  | cons x xs => exact push_ne_nil sep x (pieces sep xs)

/-- The parts of a text between its dots. -/
def dotted (s : String) : List String :=
  (pieces '.' s.toList).map String.ofList

end AlertRules.Text
