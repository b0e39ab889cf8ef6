import AlertRules.CodePoint.Printable

/-!
# AlertRules.Text.Quoted — texts quoted for a reader

A text inside a message stands between quotes.  The quote, the backslash, tab, line feed, carriage
return and NUL are written with a backslash, and every other character that has no visible form of
its own by its code point in braces, so that the message stays on one line and can be read.
-/

namespace AlertRules.Text

/-- The code point `n` in lower-case hexadecimal. -/
def hexDigits (n : Nat) : List Char :=
  Nat.toDigits 16 n

/-- The character as it is written in a quoted text. -/
def shown (c : Char) : List Char :=
  if c = '"' then ['\\', '"']
  else if c = '\\' then ['\\', '\\']
  else if c = '\t' then ['\\', 't']
  else if c = '\n' then ['\\', 'n']
  else if c = '\r' then ['\\', 'r']
  else if c.toNat = 0 then ['\\', '0']
  else if CodePoint.isPlain c then [c]
  else '\\' :: 'u' :: '\x7b' :: (hexDigits c.toNat ++ ['\x7d'])

/-- The text between quotes. -/
def quoted (s : String) : String :=
  String.ofList ('"' :: (s.toList.flatMap shown ++ ['"']))

end AlertRules.Text
