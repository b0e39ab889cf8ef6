import AlertRules.Json.Number

/-!
# AlertRules.Json.Shortest — the shortest decimal that reads back

Every finite double is `m * 2 ^ q` for natural `m` and integer `q`, and the reals that round to it
form an interval around it, whose ends belong to it iff `m` is even.  `Double.shortest` looks at the
decimal grids of 1, 2, …, 17 significant digits in turn: the first grid with a point in the interval
wins, and of two such points the one nearer to the double (of two equally near, the even one).

`Double.text` writes the digits so found: positionally when the decimal exponent lies between -5 and
15, always with a digit after the point, and otherwise with an exponent that carries its sign.
-/

namespace AlertRules.Json.Double

/-- A positive real and the ends of the reals that round to it, as numerators over one denominator. -/
structure Interval where
  low : Nat
  value : Nat
  high : Nat
  den : Nat
  /-- The ends themselves round to the value. -/
  closed : Bool

/-- The reals that round to the magnitude of `d`, in quarters of the last place.  Below a power of two
the doubles lie twice as dense. -/
def interval (d : Double) : Interval :=
  let field := ((d.bits >>> 52) &&& 0x7ff).toNat
  let tail := (d.bits &&& 0xfffffffffffff).toNat
  let m := if field = 0 then tail else tail + 0x10000000000000
  let q : Int := (max field 1 : Nat) - 1077
  let below := if tail = 0 ∧ 1 < field then 1 else 2
  let up := Nat.pow 2 q.toNat
  { low := (4 * m - below) * up
    value := 4 * m * up
    high := (4 * m + 2) * up
    den := Nat.pow 2 (-q).toNat
    closed := m % 2 == 0 }

/-- The number of decimal digits of `n`, none for zero. -/
def digitCount (n : Nat) : Nat :=
  if n = 0 then 0 else (Nat.toDigits 10 n).length

/-- The exponent of the largest power of ten that is at most the value. -/
def Interval.magnitude (i : Interval) : Int :=
  if i.den ≤ i.value then digitCount (i.value / i.den) - 1
  else -digitCount ((i.den + i.value - 1) / i.value - 1)

/-- The interval with the unit `10 ^ k`. -/
def Interval.scaled (i : Interval) (k : Int) : Interval :=
  let up := Nat.pow 10 (-k).toNat
  { i with
    low := i.low * up
    value := i.value * up
    high := i.high * up
    den := i.den * Nat.pow 10 k.toNat }

/-- The whole number `c` rounds to the value. -/
def Interval.contains (i : Interval) (c : Nat) : Bool :=
  if i.closed then i.low ≤ c * i.den && c * i.den ≤ i.high
  else i.low < c * i.den && c * i.den < i.high

/-- Of the two whole numbers around the value, the ones that round to it; of both, the nearer, and of
two equally near the even one. -/
def Interval.nearest? (i : Interval) : Option Nat :=
  let c := i.value / i.den
  let rest := 2 * (i.value % i.den)
  match i.contains c, i.contains (c + 1) with
  | true, false => some c
  | false, true => some (c + 1)
  | true, true =>
    if rest < i.den then some c
    else if i.den < rest then some (c + 1)
    else some (if c % 2 = 0 then c else c + 1)
  | false, false => none

/-- **`dropZeros c k`** — `c * 10 ^ k` with the trailing zeros of `c` moved into the exponent. -/
def dropZeros : (fuel c : Nat) → (k : Int) → Nat × Int
  | 0, c, k => (c, k)
  | fuel + 1, c, k => if c % 10 = 0 then dropZeros fuel (c / 10) (k + 1) else (c, k)

/-- **`shortest.search i p n`** — the grids of `18 - n, …, 17` digits. -/
def shortest.search (i : Interval) (p : Int) : Nat → Nat × Int
  | 0 => let k := p - 16; ((i.scaled k).value / (i.scaled k).den, k)
  | n + 1 =>
    let k := p + n - 16
    match (i.scaled k).nearest? with
    | some c => dropZeros 17 c k
    | none => search i p n

/-- Digits and exponent of the shortest decimal that rounds to `|d|`, for `d` not zero. -/
def shortest (d : Double) : Nat × Int :=
  shortest.search d.interval d.interval.magnitude 17

/-- The digits with the point behind the one of weight `10 ^ 0`, when the first has weight `10 ^ e`. -/
def positional (digits : List Char) (e : Int) : List Char :=
  if e < 0 then
    '0' :: '.' :: (List.replicate (-e - 1).toNat '0' ++ digits)
  else
    let n := e.toNat + 1
    let whole := digits.take n ++ List.replicate (n - digits.length) '0'
    whole ++ '.' :: (if digits.length ≤ n then ['0'] else digits.drop n)

/-- The first digit, the others behind a point, and the exponent. -/
def scientific (digits : List Char) (e : Int) : List Char :=
  let head := match digits with
    | [] => []
    | [c] => [c]
    | c :: cs => c :: '.' :: cs
  head ++ 'e' :: (if e < 0 then '-' else '+') :: Nat.toDigits 10 e.natAbs

/-- The double as text. -/
def text (d : Double) : String :=
  let body :=
    if d.isZero then ['0', '.', '0']
    else
      let (c, k) := d.shortest
      let digits := Nat.toDigits 10 c
      let e : Int := k + digits.length - 1
      if -5 ≤ e ∧ e < 16 then positional digits e else scientific digits e
  String.ofList (if d.isNegative then '-' :: body else body)

end AlertRules.Json.Double

namespace AlertRules.Json.Number

/-- The number as JSON text. -/
def text : Number → String
  | .int value _ => toString value
  | .double d => d.text

end AlertRules.Json.Number
