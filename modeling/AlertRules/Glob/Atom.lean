import AlertRules.Glob.Basic
import AlertRules.Glob.CharClass

/-!
# AlertRules.Glob.Atom — reading the regular expression of a glob

The regular expression of a glob is read into a row of **atoms**, one for each item that was written.
Only the syntax that globs are written in is read: a character, escaped if it has a meaning of its
own; the dot, alone or with the lazy star; and a class in brackets, whose body ends at the first `]`
that is not escaped.  Anything else is no row of atoms, and neither is an expression with an
ill-formed class.

Case is ignored, and the dot does not take a line feed.
-/

namespace AlertRules.Glob

/-- What one part of an expression takes from a text: a character with a given case folding, any
character of the line, any number of these, or a character of a class. -/
inductive Atom where
  | folded (n : Nat)
  | any
  | run
  | set (k : CharClass)
  deriving DecidableEq

namespace Atom

/-- The atom may take the character. -/
def takes : Atom → Char → Bool
  | .folded n, c => CodePoint.fold c.toNat == n
  | .any, c => c != '\n'
  | .run, c => c != '\n'
  | .set k, c => k.contains c

/-- The atom takes any number of characters, or none. -/
def repeats : Atom → Bool
  | .run => true
  | _ => false

/-! ## Reading -/

/-- The atom of a character that stands for itself. -/
def literal (c : Char) : Atom :=
  .folded (CodePoint.fold c.toNat)

/-- One more character at the front of what has been read of a body. -/
def keep (c : Char) (read : Option (List Char × List Char)) : Option (List Char × List Char) :=
  read.map fun (body, rest) => (c :: body, rest)

/-- The characters of a class body without their escapes, up to the `]` that closes it, and what
follows.  A hyphen keeps its meaning, so it is never escaped. -/
def classBody? : List Char → Option (List Char × List Char)
  | ']' :: cs => some ([], cs)
  | '\\' :: c :: cs => if isMeta c && c != '-' then keep c (classBody? cs) else none
  | c :: cs => if isMeta c && c != '-' then none else keep c (classBody? cs)
  | [] => none

/-- The atom of a class from its body on, and what follows the class. -/
def set? (negated : Bool) (cs : List Char) : Option (Atom × List Char) :=
  match classBody? cs with
  | some (c :: body, rest) => (CharClass.ofBody? negated (c :: body)).map fun k => (.set k, rest)
  | _ => none

/-- The first atom of an expression, and what follows it. -/
def next? : List Char → Option (Atom × List Char)
  | '\\' :: c :: cs => if isMeta c then some (literal c, cs) else none
  | '.' :: '*' :: '?' :: cs => some (.run, cs)
  | '.' :: cs => some (.any, cs)
  | '[' :: '^' :: cs => set? true cs
  | '[' :: cs => set? false cs
  | c :: cs => if isMeta c then none else some (literal c, cs)
  | [] => none

theorem keep_eq_some {c : Char} {read : Option (List Char × List Char)} {body rest : List Char}
    (h : keep c read = some (body, rest)) : ∃ b, read = some (b, rest) := by
  obtain ⟨⟨b, r⟩, hread, he⟩ := Option.map_eq_some_iff.mp h
  simp only [Prod.mk.injEq] at he
  exact ⟨b, he.2 ▸ hread⟩

theorem length_classBody? {cs body rest : List Char} (h : classBody? cs = some (body, rest)) :
    rest.length < cs.length := by
  fun_induction classBody? cs generalizing body rest with
  | case1 cs =>
    simp only [Option.some.injEq, Prod.mk.injEq] at h
    rw [← h.2]
    exact Nat.lt_succ_self _
  | case2 c cs _ ih =>
    obtain ⟨b, hread⟩ := keep_eq_some h
    have hlt := ih hread
    simp only [List.length_cons]
    omega
  | case3 => simp at h
  | case4 => simp at h
  | case5 c cs _ _ _ ih =>
    obtain ⟨b, hread⟩ := keep_eq_some h
    have hlt := ih hread
    simp only [List.length_cons]
    omega
  | case6 => simp at h

theorem length_set? {negated : Bool} {cs rest : List Char} {a : Atom}
    (h : set? negated cs = some (a, rest)) : rest.length < cs.length := by
  unfold set? at h
  split at h
  · rename_i c body r hbody
    obtain ⟨k, _, he⟩ := Option.map_eq_some_iff.mp h
    simp only [Prod.mk.injEq] at he
    rw [← he.2]
    exact length_classBody? hbody
  · simp at h

theorem length_next? {cs rest : List Char} {a : Atom} (h : next? cs = some (a, rest)) :
    rest.length < cs.length := by
  unfold next? at h
  split at h
  · obtain ⟨_, he⟩ := Option.ite_none_right_eq_some.mp h
    simp only [Option.some.injEq, Prod.mk.injEq] at he
    simp only [← he.2, List.length_cons]
    omega
  · simp only [Option.some.injEq, Prod.mk.injEq] at h
    simp only [← h.2, List.length_cons]
    omega
  · simp only [Option.some.injEq, Prod.mk.injEq] at h
    simp only [← h.2, List.length_cons]
    omega
  · have hlt := length_set? h
    simp only [List.length_cons]
    omega
  · have hlt := length_set? h
    simp only [List.length_cons]
    omega
  · obtain ⟨_, he⟩ := Option.ite_none_left_eq_some.mp h
    simp only [Option.some.injEq, Prod.mk.injEq] at he
    simp only [← he.2, List.length_cons]
    omega
  · simp at h

/-- The atoms of an expression. -/
def row? (cs : List Char) : Option (List Atom) :=
  match cs with
  | [] => some []
  | c :: cs =>
    match _h : next? (c :: cs) with
    | some (a, rest) => (row? rest).map (a :: ·)
    | none => none
termination_by cs.length
decreasing_by exact length_next? _h

theorem row?_of_next?_eq_some {cs rest : List Char} {a : Atom} (h : next? cs = some (a, rest)) :
    row? cs = (row? rest).map (a :: ·) := by
  cases cs with
  | nil => simp [next?] at h
  | cons c cs =>
    rw [row?]
    split
    · rename_i a' rest' h'
      rw [h] at h'
      simp only [Option.some.injEq, Prod.mk.injEq] at h'
      rw [h'.1, h'.2]
    · rename_i h'
      rw [h] at h'
      exact absurd h' (by simp)

theorem row?_of_next?_eq_none {cs : List Char} (hne : cs ≠ []) (h : next? cs = none) :
    row? cs = none := by
  cases cs with
  | nil => exact absurd rfl hne
  | cons c cs =>
    rw [row?]
    split
    · rename_i h'
      rw [h] at h'
      exact absurd h' (by simp)
    · rfl

end Atom

end AlertRules.Glob
