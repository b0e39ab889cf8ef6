import AlertRules.Json.Number

/-!
# AlertRules.Json.Token — the words of a JSON text

A JSON text is a row of brackets, commas, colons, words, numerals and quoted texts, with blanks
(space, tab, line feed, carriage return) between them.  The scanner is an automaton: `Scanner.step`
takes one character, `Scanner.finish?` closes the text.

A quoted text may spell a surrogate that has no partner.  Such a text is a token like any other, but
it has no characters: it can be skipped and cannot be read.
-/

namespace AlertRules.Json

/-- A quoted text: its characters, or nothing when it spells a lone surrogate. -/
abbrev Literal := Option String

/-- A word of a JSON text. -/
inductive Token where
  | openList
  | closeList
  | openObject
  | closeObject
  | comma
  | colon
  | null
  | bool (b : Bool)
  | number (n : Numeral)
  | text (l : Literal)

/-- A quoted text while it is read: the characters so far, last first; whether all of them could be
read; and a leading surrogate that waits for its partner. -/
structure Quoted where
  reversed : List Char
  readable : Bool
  leading : Option Nat

namespace Quoted

/-- Behind the opening quote. -/
def start : Quoted := ⟨[], true, none⟩

/-- One more character; a surrogate that waits stays alone. -/
def push (q : Quoted) (c : Char) : Quoted :=
  ⟨c :: q.reversed, q.readable && q.leading.isNone, none⟩

/-- One more unit of 16 bits, which may be half of a surrogate pair. -/
def pushUnit (q : Quoted) (u : Nat) : Quoted :=
  if 0xDC00 ≤ u ∧ u ≤ 0xDFFF then
    match q.leading with
    | some high =>
      { q with
        reversed := Char.ofNat (0x10000 + (high - 0xD800) * 1024 + (u - 0xDC00)) :: q.reversed
        leading := none }
    | none => { q with readable := false }
  else if 0xD800 ≤ u ∧ u ≤ 0xDBFF then
    { q with readable := q.readable && q.leading.isNone, leading := some u }
  else q.push (Char.ofNat u)

/-- The text at the closing quote. -/
def literal (q : Quoted) : Literal :=
  if q.readable && q.leading.isNone then some (String.ofList q.reversed.reverse) else none

end Quoted

/-- Where the scanner stands: between tokens, or inside a word, a numeral, a quoted text, behind a
backslash, or inside the four digits of an escape. -/
inductive Scanning where
  | gap
  | word (reversed : List Char)
  | numeral (reversed : List Char)
  | quoted (q : Quoted)
  | escape (q : Quoted)
  | digits (q : Quoted) (missing value : Nat)

/-- The scanner: the tokens so far, last first, and where it stands. -/
structure Scanner where
  tokens : List Token
  state : Scanning

namespace Scanner

/-- Before the first character. -/
def start : Scanner := ⟨[], .gap⟩

/-- The four characters that may stand between tokens. -/
def isBlank (c : Char) : Bool :=
  c == ' ' || c == '\t' || c == '\n' || c == '\r'

/-- A letter of the words `null`, `true` and `false`. -/
def isWordChar (c : Char) : Bool :=
  'a' ≤ c && c ≤ 'z'

/-- A character that may stand in a numeral. -/
def isNumeralChar (c : Char) : Bool :=
  c.isDigit || c == '-' || c == '+' || c == '.' || c == 'e' || c == 'E'

/-- The three words. -/
def wordToken? (w : List Char) : Option Token :=
  if w = "null".toList then some .null
  else if w = "true".toList then some (.bool true)
  else if w = "false".toList then some (.bool false)
  else none

/-- Brackets, comma and colon. -/
def punctuation? : Char → Option Token
  | '[' => some .openList
  | ']' => some .closeList
  | '\x7b' => some .openObject
  | '\x7d' => some .closeObject
  | ',' => some .comma
  | ':' => some .colon
  | _ => none

/-- A character between tokens: skipped, a token, or the start of one. -/
def begin? (tokens : List Token) (c : Char) : Option Scanner :=
  if isBlank c then some ⟨tokens, .gap⟩
  else if c == '"' then some ⟨tokens, .quoted .start⟩
  else if c == '-' || c.isDigit then some ⟨tokens, .numeral [c]⟩
  else if isWordChar c then some ⟨tokens, .word [c]⟩
  else (punctuation? c).map fun t => ⟨t :: tokens, .gap⟩

/-- **`simpleEscape? c`** — the character that a backslash and `c` spell. -/
def simpleEscape? : Char → Option Char
  | '"' => some '"'
  | '\\' => some '\\'
  | '/' => some '/'
  | 'b' => some (Char.ofNat 8)
  | 'f' => some (Char.ofNat 12)
  | 'n' => some '\n'
  | 'r' => some '\r'
  | 't' => some '\t'
  | _ => none

/-- The value of a hexadecimal digit. -/
def hexValue? (c : Char) : Option Nat :=
  if c.isDigit then some (c.toNat - 48)
  else if 'a' ≤ c ∧ c ≤ 'f' then some (c.toNat - 87)
  else if 'A' ≤ c ∧ c ≤ 'F' then some (c.toNat - 55)
  else none

/-- The scanner one character further; nothing when the text is no JSON text. -/
def step? (s : Scanner) (c : Char) : Option Scanner :=
  match s.state with
  | .gap => begin? s.tokens c
  | .word w =>
    if isWordChar c then some { s with state := .word (c :: w) }
    else (wordToken? w.reverse).bind fun t => begin? (t :: s.tokens) c
  | .numeral cs =>
    if isNumeralChar c then some { s with state := .numeral (c :: cs) }
    else (Numeral.ofChars? cs.reverse).bind fun n => begin? (.number n :: s.tokens) c
  | .quoted q =>
    if c == '"' then some ⟨.text q.literal :: s.tokens, .gap⟩
    else if c == '\\' then some { s with state := .escape q }
    else if c.toNat < 32 then none
    else some { s with state := .quoted (q.push c) }
  | .escape q =>
    if c == 'u' then some { s with state := .digits q 4 0 }
    else (simpleEscape? c).map fun e => { s with state := .quoted (q.push e) }
  | .digits q missing value =>
    (hexValue? c).map fun d =>
      if missing ≤ 1 then { s with state := .quoted (q.pushUnit (16 * value + d)) }
      else { s with state := .digits q (missing - 1) (16 * value + d) }

/-- The tokens at the end of the text, which must not lie inside a quoted text. -/
def finish? (s : Scanner) : Option (List Token) :=
  match s.state with
  | .gap => some s.tokens.reverse
  | .word w => (wordToken? w.reverse).map fun t => (t :: s.tokens).reverse
  | .numeral cs => (Numeral.ofChars? cs.reverse).map fun n => (.number n :: s.tokens).reverse
  | _ => none

end Scanner

/-- The tokens of a text. -/
def tokens? (text : String) : Option (List Token) :=
  (text.toList.foldlM Scanner.step? Scanner.start).bind Scanner.finish?

end AlertRules.Json
