import AlertRules.Json.Shortest
import AlertRules.Json.Value

/-!
# AlertRules.Json.Printer — JSON text

Two layouts of one value: **compact**, without any blank, and **pretty**, with one item to a line,
two blanks of indentation to a level, and `[]` and `{}` for what is empty.  In a text the quote, the
backslash and the control characters below U+0020 are escaped, everything else stands as it is.
Members are written in the order in which the object lists them.
-/

namespace AlertRules.Json

/-- The lower-case digit of `n < 16`. -/
def hexDigit (n : Nat) : Char :=
  if n < 10 then Char.ofNat (48 + n) else Char.ofNat (87 + n)

/-- The character as it is written inside a JSON text. -/
def escaped (c : Char) : List Char :=
  if c = '"' then ['\\', '"']
  else if c = '\\' then ['\\', '\\']
  else if c.toNat = 8 then ['\\', 'b']
  else if c.toNat = 9 then ['\\', 't']
  else if c.toNat = 10 then ['\\', 'n']
  else if c.toNat = 12 then ['\\', 'f']
  else if c.toNat = 13 then ['\\', 'r']
  else if c.toNat < 32 then ['\\', 'u', '0', '0', hexDigit (c.toNat / 16), hexDigit (c.toNat % 16)]
  else [c]

/-- The text as a JSON text, followed by `tail`. -/
def quotedChars (s : String) (tail : List Char) : List Char :=
  '"' :: s.toList.foldr (fun c cs => escaped c ++ cs) ('"' :: tail)

/-- Compact, or pretty at a level of indentation. -/
inductive Layout where
  | compact
  | pretty (level : Nat)

/-- The layout of what stands inside a list or an object. -/
def Layout.deeper : Layout → Layout
  | .compact => .compact
  | .pretty level => .pretty (level + 1)

/-- The break before an item or a closing bracket. -/
def Layout.newline (l : Layout) (tail : List Char) : List Char :=
  match l with
  | .compact => tail
  | .pretty level => '\n' :: (List.replicate (2 * level) ' ' ++ tail)

/-- What stands between a key and its value. -/
def Layout.colon (l : Layout) (tail : List Char) : List Char :=
  match l with
  | .compact => ':' :: tail
  | .pretty _ => ':' :: ' ' :: tail

mutual

/-- **`j.render l tail`** — the value in the layout, followed by `tail`. -/
def render (l : Layout) : Json → List Char → List Char
  | .null, tail => "null".toList ++ tail
  | .bool b, tail => (if b then "true" else "false").toList ++ tail
  | .num n, tail => n.text.toList ++ tail
  | .str s, tail => quotedChars s tail
  | .arr [], tail => '[' :: ']' :: tail
  | .arr (j :: items), tail =>
    '[' :: l.deeper.newline (j.render l.deeper (renderItems l items (']' :: tail)))
  | .obj [], tail => '\x7b' :: '\x7d' :: tail
  | .obj ((key, j) :: members), tail =>
    '\x7b' :: l.deeper.newline
      (quotedChars key (l.deeper.colon (j.render l.deeper (renderMembers l members ('\x7d' :: tail)))))

/-- The items after the first, and the break before the bracket. -/
def renderItems (l : Layout) : List Json → List Char → List Char
  | [], tail => l.newline tail
  | j :: items, tail =>
    ',' :: l.deeper.newline (j.render l.deeper (renderItems l items tail))

/-- The members after the first, and the break before the brace. -/
def renderMembers (l : Layout) : List (String × Json) → List Char → List Char
  | [], tail => l.newline tail
  | (key, j) :: members, tail =>
    ',' :: l.deeper.newline
      (quotedChars key (l.deeper.colon (j.render l.deeper (renderMembers l members tail))))

end

/-- The value as JSON text without blanks. -/
def compact (j : Json) : String :=
  String.ofList (j.render .compact [])

/-- The value as JSON text, one item to a line. -/
def pretty (j : Json) : String :=
  String.ofList (j.render (.pretty 0) [])

end AlertRules.Json
