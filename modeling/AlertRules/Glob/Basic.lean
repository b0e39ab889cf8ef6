/-!
# AlertRules.Glob.Basic — glob patterns

A glob is read in one of two modes.  In **strict** mode `*` stands for any run of characters, `?` for
one character and `[abc]` or `[!abc]` for one character inside or outside a class; a bracket that
opens no class stands for itself.  In **legacy** mode every character stands for itself.

`Glob.items` is the reading, and `Glob.expression` writes the same pattern as a regular expression.
-/

namespace AlertRules.Glob

/-- How a glob is read. -/
inductive Mode where
  | strict
  | legacy
  deriving DecidableEq

/-- The modes by their names. -/
def Mode.names : List (String × Mode) :=
  [("strict", .strict), ("legacy", .legacy)]

/-- The name of the mode. -/
def Mode.text : Mode → String
  | .strict => "strict"
  | .legacy => "legacy"

/-- Where a match may lie: anywhere between two word boundaries, or it must be the whole text. -/
inductive Anchor where
  | word
  | full
  deriving DecidableEq

/-- The text of a message is searched, every other field is compared as a whole. -/
def Anchor.ofKey (key : String) : Anchor :=
  if key = "content.body" then .word else .full

/-- A part of a glob. -/
inductive Item where
  | char (c : Char)
  | one
  | many
  | oneOf (negated : Bool) (body : List Char)
  deriving DecidableEq

/-! ## Reading -/

/-- A class body that is closed by the first `]` and not empty, and what follows. -/
def takeBody? (cs : List Char) : Option (List Char × List Char) :=
  match cs.takeWhile (· ≠ ']'), cs.dropWhile (· ≠ ']') with
  | c :: body, _ :: rest => some (c :: body, rest)
  | _, _ => none

/-- A class whose opening bracket has been read, and what follows it. -/
def takeClass? (cs : List Char) : Option (Item × List Char) :=
  match cs with
  | '!' :: cs => (takeBody? cs).map fun (body, rest) => (.oneOf true body, rest)
  | cs => (takeBody? cs).map fun (body, rest) => (.oneOf false body, rest)

theorem length_takeBody? {cs body rest : List Char} (h : takeBody? cs = some (body, rest)) :
    rest.length < cs.length := by
  unfold takeBody? at h
  split at h
  · rename_i c b d r hb hr
    simp only [Option.some.injEq, Prod.mk.injEq] at h
    have hlen := congrArg List.length (List.takeWhile_append_dropWhile (p := (· ≠ ']')) (l := cs))
    rw [hb, hr] at hlen
    simp only [List.length_append, List.length_cons] at hlen
    rw [← h.2]
    omega
  · exact absurd h (by simp)

theorem length_takeClass? {cs rest : List Char} {item : Item}
    (h : takeClass? cs = some (item, rest)) : rest.length < cs.length := by
  unfold takeClass? at h
  split at h
  · obtain ⟨⟨body, r⟩, hb, he⟩ := Option.map_eq_some_iff.1 h
    simp only [Prod.mk.injEq] at he
    have := length_takeBody? hb
    rw [← he.2, List.length_cons]
    omega
  · obtain ⟨⟨body, r⟩, hb, he⟩ := Option.map_eq_some_iff.1 h
    simp only [Prod.mk.injEq] at he
    rw [← he.2]
    exact length_takeBody? hb

/-- The items of a glob in strict mode. -/
def strictItems (cs : List Char) : List Item :=
  match cs with
  | [] => []
  | c :: cs =>
    if c = '*' then .many :: strictItems cs
    else if c = '?' then .one :: strictItems cs
    else if c = '[' then
      match h : takeClass? cs with
      | some (item, rest) =>
        have := length_takeClass? h
        item :: strictItems rest
      | none => .char '[' :: strictItems cs
    else .char c :: strictItems cs
termination_by cs.length

/-- The items of a glob. -/
def items : Mode → List Char → List Item
  | .strict, cs => strictItems cs
  | .legacy, cs => cs.map .char

/-! ## Writing as a regular expression -/

/-- **`isMeta c`** — `c` has a meaning of its own in a regular expression. -/
def isMeta (c : Char) : Bool :=
  ['\\', '.', '+', '*', '?', '(', ')', '|', '[', ']', '\x7b', '\x7d', '^', '$', '#', '&', '-', '~'].contains c

/-- The character itself in a regular expression. -/
def escape (c : Char) : List Char :=
  if isMeta c then ['\\', c] else [c]

/-- The character in the body of a class, where a hyphen keeps its meaning. -/
def classChar (c : Char) : List Char :=
  if c = '-' then ['-'] else escape c

/-- The item as a regular expression. -/
def Item.expression : Item → List Char
  | .char c => escape c
  | .one => ['.']
  | .many => ['.', '*', '?']
  | .oneOf negated body =>
    '[' :: ((if negated then ['^'] else []) ++ body.flatMap classChar ++ [']'])

/-- The glob as a regular expression, without anchors. -/
def expression (mode : Mode) (glob : String) : String :=
  String.ofList ((items mode glob.toList).flatMap Item.expression)

end AlertRules.Glob
