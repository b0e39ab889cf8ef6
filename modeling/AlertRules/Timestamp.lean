import AlertRules.CodePoint.Blank

/-!
# AlertRules.Timestamp — moments in Universal Time

A moment is a day, counted from 1970-01-01, a second of that day, and nanoseconds.  A leap second is
the second before it with a thousand million nanoseconds more.

`Timestamp.read?` takes the RFC 3339 form with some liberties: a blank instead of the `T`, blanks
around the parts, lower-case `t` and `z`, `UTC` as an offset, any number of fraction digits (those
after the ninth are dropped), signed years.  Its faults are causes (`Fault`) in the order in which the
text is read.  `Timestamp.text` prints the moment in Universal Time, with the fraction in as many
groups of three digits as it needs.
-/

namespace AlertRules

/-- A moment: day, second of the day, nanoseconds (those of a leap second count on from a full second).
-/
structure Timestamp where
  day : Int
  second : Nat
  nano : Nat
  deriving DecidableEq

namespace Timestamp

/-- A second in nanoseconds. -/
def secondInNanos : Nat := 1000000000

/-- Why a text is no moment. -/
inductive Fault where
  | tooShort
  | invalid
  | outOfRange
  | tooLong
  | impossible
  deriving DecidableEq

/-- The fault in words. -/
def Fault.message : Fault → String
  | .tooShort => "premature end of input"
  | .invalid => "input contains invalid characters"
  | .outOfRange => "input is out of range"
  | .tooLong => "trailing input"
  | .impossible => "no possible date and time matching input"

/-! ## The calendar -/

/-- Every fourth year, but of the full centuries only every fourth. -/
def isLeapYear (y : Int) : Bool :=
  y % 4 == 0 && (y % 100 != 0 || y % 400 == 0)

/-- The length of the month. -/
def daysInMonth (y : Int) (m : Nat) : Nat :=
  if m = 2 then if isLeapYear y then 29 else 28
  else if m = 4 ∨ m = 6 ∨ m = 9 ∨ m = 11 then 30
  else 31

/-- The day of a date.  Years are counted from March, so that the leap day is the last of its year; 400
years have 146097 days. -/
def dayNumber (y : Int) (m d : Nat) : Int :=
  let y' := if m ≤ 2 then y - 1 else y
  let era := y' / 400
  let yearOfEra := y' % 400
  let monthFromMarch : Int := (m + 9) % 12
  let dayOfYear := (153 * monthFromMarch + 2) / 5 + d - 1
  let dayOfEra := yearOfEra * 365 + yearOfEra / 4 - yearOfEra / 100 + dayOfYear
  era * 146097 + dayOfEra - 719468

/-- The year, month and day of month of a day: the inverse of `dayNumber`. -/
def dateOfDay (n : Int) : Int × Nat × Nat :=
  let z := n + 719468
  let era := z / 146097
  let dayOfEra := z % 146097
  let yearOfEra := (dayOfEra - dayOfEra / 1460 + dayOfEra / 36524 - dayOfEra / 146096) / 365
  let dayOfYear := dayOfEra - (365 * yearOfEra + yearOfEra / 4 - yearOfEra / 100)
  let mp := (5 * dayOfYear + 2) / 153
  let d := (dayOfYear - (153 * mp + 2) / 5 + 1).toNat
  let m := (if mp < 10 then mp + 3 else mp - 9).toNat
  let y := yearOfEra + era * 400
  (if m ≤ 2 then y + 1 else y, m, d)

/-- The first year that has moments. -/
def firstYear : Int := -262143

/-- The last year that has moments. -/
def lastYear : Int := 262142

/-! ## Reading -/

/-- The text behind its leading white space. -/
def skipBlanks (cs : List Char) : List Char :=
  cs.dropWhile CodePoint.isBlank

/-- The digits at the front of the text, at least one and at most `limit?`, as a number below `2 ^ 63`,
with their count. -/
def takeNumber (limit? : Option Nat) (cs : List Char) : Except Fault ((Nat × Nat) × List Char) :=
  let run := cs.takeWhile Char.isDigit
  let ds := match limit? with
    | some n => run.take n
    | none => run
  let value := ds.foldl (fun acc c => 10 * acc + (c.toNat - 48)) 0
  if ds.isEmpty then .error (if cs.isEmpty then .tooShort else .invalid)
  else if 9223372036854775808 ≤ value then .error .outOfRange
  else .ok ((value, ds.length), cs.drop ds.length)

/-- A year of 32 bits: four digits at most, or a sign and any number of digits. -/
def takeYear (cs : List Char) : Except Fault (Int × List Char) := do
  let (y, rest) ← match skipBlanks cs with
    | '-' :: cs => do
      let ((n, _), rest) ← takeNumber none cs
      pure (-(n : Int), rest)
    | '+' :: cs => do
      let ((n, _), rest) ← takeNumber none cs
      pure ((n : Int), rest)
    | cs => do
      let ((n, _), rest) ← takeNumber (some 4) cs
      pure ((n : Int), rest)
  if -2147483648 ≤ y ∧ y < 2147483648 then .ok (y, rest) else .error .outOfRange

/-- A field of at most two digits with a value from `low` to `high`. -/
def takeField (low high : Nat) (cs : List Char) : Except Fault (Nat × List Char) := do
  let ((n, _), rest) ← takeNumber (some 2) (skipBlanks cs)
  if low ≤ n ∧ n ≤ high then .ok (n, rest) else .error .outOfRange

/-- The text behind the character `c`, which may follow white space. -/
def takeMark (c : Char) (cs : List Char) : Except Fault (List Char) :=
  match skipBlanks cs with
  | [] => .error .tooShort
  | c' :: rest => if c' = c then .ok rest else .error .invalid

/-- Nanoseconds from a fraction behind a point; without a point there are none, and digits after the
ninth are dropped. -/
def takeFraction : List Char → Except Fault (Nat × List Char)
  | '.' :: cs => do
    let ((n, count), rest) ← takeNumber (some 9) cs
    .ok (n * Nat.pow 10 (9 - count), rest.dropWhile Char.isDigit)
  | cs => .ok (0, cs)

/-- Two digits, the first at most `tens`. -/
def twoDigits (cs : List Char) : Except Fault (Nat × List Char) :=
  match cs with
  | c :: d :: rest =>
    if c.isDigit ∧ d.isDigit then .ok (10 * (c.toNat - 48) + (d.toNat - 48), rest)
    else .error .invalid
  | [c] => .error (if c.utf8Size < 2 then .tooShort else .invalid)
  | [] => .error .tooShort

/-- The distance from Universal Time in seconds: `Z`, `UTC`, or a sign, two digits of hours and two of
minutes with colons or blanks between them. -/
def takeOffset (cs : List Char) : Except Fault (Int × List Char) := do
  match cs with
  | 'Z' :: rest => .ok (0, rest)
  | 'z' :: rest => .ok (0, rest)
  | c :: rest =>
    if (cs.take 3).map Char.toUpper = ['U', 'T', 'C'] then .ok (0, cs.drop 3)
    else
      let negative := c = '-' || c.toNat = 0x2212
      if negative || c = '+' then do
        let (hours, rest) ← twoDigits rest
        let (minutes, rest) ← twoDigits (rest.dropWhile fun c => c = ':' || CodePoint.isBlank c)
        if 60 ≤ minutes then .error .outOfRange
        else
          let seconds : Int := hours * 3600 + minutes * 60
          .ok (if negative then -seconds else seconds, rest)
      else .error .invalid
  | [] => .error .tooShort

/-- The moment of a date and time that are `offset` seconds ahead of Universal Time. -/
def ofLocal (y : Int) (m d second nano : Nat) (offset : Int) : Except Fault Timestamp :=
  if y < firstYear ∨ lastYear < y ∨ daysInMonth y m < d then .error .outOfRange
  else if offset ≤ -86400 ∨ 86400 ≤ offset then .error .outOfRange
  else
    let seconds : Int := second - offset
    let day := dayNumber y m d + seconds / 86400
    if day < dayNumber firstYear 1 1 ∨ dayNumber lastYear 12 31 < day then .error .impossible
    else .ok ⟨day, (seconds % 86400).toNat, nano⟩

/-- The moment that a text names. -/
def read (s : String) : Except Fault Timestamp := do
  let (y, cs) ← takeYear s.toList
  let cs ← takeMark '-' cs
  let (m, cs) ← takeField 1 12 cs
  let cs ← takeMark '-' cs
  let (d, cs) ← takeField 1 31 cs
  let cs ← match cs with
    | [] => .error .tooShort
    | c :: cs => if c = 'T' ∨ c = 't' ∨ c = ' ' then .ok cs else .error .invalid
  let (hour, cs) ← takeField 0 23 cs
  let cs ← takeMark ':' cs
  let (minute, cs) ← takeField 0 59 cs
  let cs ← takeMark ':' cs
  let (second, cs) ← takeField 0 60 cs
  let (nano, cs) ← takeFraction cs
  let (offset, cs) ← takeOffset (skipBlanks cs)
  if (skipBlanks cs).isEmpty then
    let leap := if second = 60 then 1 else 0
    ofLocal y m d (hour * 3600 + minute * 60 + (second - leap)) (nano + leap * secondInNanos) offset
  else .error .tooLong

/-! ## Printing -/

/-- The number with leading zeros. -/
def padded (width n : Nat) : String :=
  let ds := Nat.toDigits 10 n
  String.ofList (List.replicate (width - ds.length) '0' ++ ds)

/-- Four digits, or a sign and at least four digits outside 0 to 9999. -/
def yearText (y : Int) : String :=
  if 0 ≤ y ∧ y ≤ 9999 then padded 4 y.toNat
  else (if y < 0 then "-" else "+") ++ padded 4 y.natAbs

/-- Nothing, or a point and three, six or nine digits. -/
def fractionText (nano : Nat) : String :=
  if nano = 0 then ""
  else if nano % 1000000 = 0 then "." ++ padded 3 (nano / 1000000)
  else if nano % 1000 = 0 then "." ++ padded 6 (nano / 1000)
  else "." ++ padded 9 nano

/-- The moment in Universal Time. -/
def text (t : Timestamp) : String :=
  let (y, m, d) := dateOfDay t.day
  let leap := t.nano / secondInNanos
  yearText y ++ "-" ++ padded 2 m ++ "-" ++ padded 2 d
    ++ "T" ++ padded 2 (t.second / 3600) ++ ":" ++ padded 2 (t.second / 60 % 60)
    ++ ":" ++ padded 2 (t.second % 60 + leap) ++ fractionText (t.nano % secondInNanos) ++ "Z"

end Timestamp

end AlertRules
