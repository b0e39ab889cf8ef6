/-!
# AlertRules.Json.Number — the numbers of a JSON text

A number is an **integer** when it is written as one and fits 64 bits (signed or unsigned), and a
finite **double** otherwise.  `Numeral` is a number as written: sign, digits, fraction, exponent.
`Numeral.value?` gives its value:

* at most `2 ^ 64 - 1` is collected from the leading digits; further digits before the point only
  raise the exponent, and further digits after it are dropped;
* the collected significand becomes a double, which is multiplied or divided by one power of ten
  (two divisions when the exponent is below -308), each step rounded to nearest;
* a number beyond the range of doubles has no value.
-/

namespace AlertRules.Json

/-- A finite double by its bits. -/
structure Double where
  bits : UInt64
  finite : (bits >>> 52) &&& 0x7ff ≠ 0x7ff := by decide
  deriving DecidableEq

namespace Double

instance : Inhabited Double := ⟨{ bits := 0 }⟩

/-- **`Double.ofFloat? f`** — `f` if it is finite. -/
def ofFloat? (f : Float) : Option Double :=
  if h : (f.toBits >>> 52) &&& 0x7ff ≠ 0x7ff then some ⟨f.toBits, h⟩ else none

/-- The sign bit is set (it may be set on zero). -/
def isNegative (d : Double) : Bool :=
  d.bits >>> 63 == 1

/-- **`d.isZero`** — `d` is zero, of either sign. -/
def isZero (d : Double) : Bool :=
  d.bits <<< 1 == 0

end Double

/-- An integer of 64 bits, signed or unsigned, or a finite double. -/
inductive Number where
  | int (value : Int) (inRange : -9223372036854775808 ≤ value ∧ value < 18446744073709551616)
  | double (d : Double)
  deriving DecidableEq

namespace Number

/-- **`Number.ofInt? i`** — `i` if it fits 64 bits. -/
def ofInt? (i : Int) : Option Number :=
  if h : -9223372036854775808 ≤ i ∧ i < 18446744073709551616 then some (.int i h) else none

/-- An unsigned word as a number. -/
def ofUInt64 (n : UInt64) : Number :=
  .int n.toNat (by have := n.toNat_lt; omega)

instance : Inhabited Number := ⟨.ofUInt64 0⟩

/-- The number is zero: the integer, or a double of either sign. -/
def isZero : Number → Bool
  | .int value _ => value == 0
  | .double d => d.isZero

end Number

/-- A number as it is written.  Digits are kept as their values. -/
structure Numeral where
  negative : Bool
  whole : List Nat
  fraction : Option (List Nat)
  /-- The sign (true: below zero) and the digits of the exponent. -/
  exponent : Option (Bool × List Nat)

namespace Numeral

/-- The values of the leading decimal digits, and what follows them. -/
def takeDigits (cs : List Char) : List Nat × List Char :=
  ((cs.takeWhile Char.isDigit).map fun c => c.toNat - 48, cs.dropWhile Char.isDigit)

/-- **`takeExponent? cs`** — an exponent at the front of `cs`, if there is one; it must have digits. -/
def takeExponent? : List Char → Option (Option (Bool × List Nat) × List Char)
  | c :: cs =>
    if c = 'e' ∨ c = 'E' then
      let (negative, cs) := match cs with
        | '-' :: cs => (true, cs)
        | '+' :: cs => (false, cs)
        | cs => (false, cs)
      match takeDigits cs with
      | ([], _) => none
      | (ds, rest) => some (some (negative, ds), rest)
    else some (none, c :: cs)
  | [] => some (none, [])

/-- **`takeFraction? cs`** — a fraction at the front of `cs`, if there is one; it must have digits. -/
def takeFraction? : List Char → Option (Option (List Nat) × List Char)
  | '.' :: cs =>
    match takeDigits cs with
    | ([], _) => none
    | (ds, rest) => some (some ds, rest)
  | cs => some (none, cs)

/-- The numeral that `cs` spells behind the sign: at least one digit, no superfluous leading zero, then
optionally a fraction and an exponent, and nothing else. -/
def unsigned? (negative : Bool) (cs : List Char) : Option Numeral :=
  match takeDigits cs with
  | ([], _) => none
  | (0 :: _ :: _, _) => none
  | (whole, cs) =>
    match takeFraction? cs with
    | none => none
    | some (fraction, cs) =>
      match takeExponent? cs with
      | some (exponent, []) => some { negative, whole, fraction, exponent }
      | _ => none

/-- **`Numeral.ofChars? cs`** — the numeral that `cs` spells, with or without a minus sign. -/
def ofChars? : List Char → Option Numeral
  | '-' :: cs => unsigned? true cs
  | cs => unsigned? false cs

/-- The digits appended to `acc` as long as the result stays below `2 ^ 64`, and the digits that are
left. -/
def absorb (acc : Nat) : List Nat → Nat × List Nat
  | [] => (acc, [])
  | d :: ds => if 10 * acc + d < UInt64.size then absorb (10 * acc + d) ds else (acc, d :: ds)

/-- The natural number that digits spell. -/
def magnitudeOf (ds : List Nat) : Nat :=
  ds.foldl (fun acc d => 10 * acc + d) 0

/-- The double nearest to `10 ^ k`. -/
def powerOfTen (k : Nat) : Float :=
  Float.ofScientific 1 false k

/-- **`scale significand exponent`** — `significand * 10 ^ exponent` as a double: one
multiplication or division by a power of ten, and for very small exponents a division by `10 ^ 308`
before it.  Nothing when the result exceeds the doubles. -/
def scale (significand : Nat) (exponent : Int) : Option Float :=
  let f := significand.toUInt64.toFloat
  if significand = 0 then some 0
  else if 308 < exponent then none
  else if 0 ≤ exponent then some (f * powerOfTen exponent.toNat)
  else if -308 ≤ exponent then some (f / powerOfTen (-exponent).toNat)
  else if -616 ≤ exponent then some (f / powerOfTen 308 / powerOfTen (-exponent - 308).toNat)
  else some 0

/-- **`signed negative f`** — `f` with its sign turned when `negative`. -/
def signed (negative : Bool) (f : Float) : Float :=
  if negative then -f else f

/-- The largest exponent that is evaluated. -/
def exponentLimit : Nat := 2147483647

/-- The numeral's value as a double, if it is in range.  An exponent beyond the limit makes every
significand zero or too large. -/
def doubleValue? (n : Numeral) : Option Double :=
  let (high, dropped) := absorb 0 n.whole
  let (significand, unread) := absorb high (n.fraction.getD [])
  let shift : Int := dropped.length - ((n.fraction.getD []).length - unread.length : Nat)
  let magnitude := match n.exponent with
    | none => scale significand shift
    | some (below, ds) =>
      let e := magnitudeOf ds
      if e ≤ exponentLimit then
        scale significand (if below then shift - e else shift + e)
      else if below || significand == 0 then some 0
      else none
  magnitude.bind fun f => Double.ofFloat? (signed n.negative f)

/-- The numeral as an integer: when it is written without fraction and exponent and fits 64 bits (minus
zero does not). -/
def integer? (n : Numeral) : Option Number :=
  match n.fraction, n.exponent, absorb 0 n.whole with
  | none, none, (m, []) =>
    if n.negative then if m = 0 then none else Number.ofInt? (-(m : Int))
    else Number.ofInt? m
  | _, _, _ => none

/-- The numeral's value: an integer if it is one, otherwise a double. -/
def value? (n : Numeral) : Option Number :=
  match n.integer? with
  | some i => some i
  | none => n.doubleValue?.map .double

end Numeral

end AlertRules.Json
