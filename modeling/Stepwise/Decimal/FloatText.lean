import Stepwise.Binary64

/-!
The text of a double: the shortest decimal that reads back as it, positional between two exponents,
and otherwise with an exponent of at least two digits that always carries its sign. For one digit, two
digits and so on the two neighbours of the value on that decimal grid are tested against the interval
of reals that round to the double; the first grid with a hit has the least number of digits.
-/
namespace Stepwise.Decimal

open Binary64 (Parts)

/-- `digits · 10 ^ (exponent - (number of digits - 1))`: the exponent is that of the first digit. -/
structure Digits where
  digits : Nat
  exponent : Int
  deriving Repr

/-- The reals that round to a double, as numerators over one denominator: the value and the two
ends. The ends belong to the interval when the mantissa is even. -/
structure Interval where
  low : Nat
  value : Nat
  high : Nat
  denominator : Nat
  closed : Bool

/-- Below a power of two the next double is half as far away. -/
def Interval.of (p : Parts) : Interval :=
  let below := if p.mantissa == pow2 52 && Binary64.leastExponent < p.exponent then 1 else 2
  let up := if 0 ≤ p.exponent then pow2 p.exponent.toNat else 1
  let down := if 0 ≤ p.exponent then 1 else pow2 (-p.exponent).toNat
  { low := (4 * p.mantissa - below) * up
    value := 4 * p.mantissa * up
    high := (4 * p.mantissa + 2) * up
    denominator := 4 * down
    closed := p.mantissa % 2 == 0 }

/-- Whether `n · 10 ^ scale` lies in the interval. -/
def Interval.contains (i : Interval) (n : Nat) (scale : Int) : Bool :=
  let point := if 0 ≤ scale then n * pow10 scale.toNat * i.denominator else n * i.denominator
  let unit := if 0 ≤ scale then 1 else pow10 (-scale).toNat
  if i.closed then i.low * unit ≤ point && point ≤ i.high * unit
  else i.low * unit < point && point < i.high * unit

/-- The exponent `e` with `10 ^ e ≤ value < 10 ^ (e + 1)`, from a guess that is off by one at
most. -/
def Interval.firstExponent (i : Interval) (guess : Int) : Int :=
  let atLeast (e : Int) : Bool :=
    if 0 ≤ e then pow10 e.toNat * i.denominator ≤ i.value
    else i.denominator ≤ i.value * pow10 (-e).toNat
  if atLeast (guess + 1) then guess + 1 else if atLeast guess then guess else guess - 1

/-- The value's lower neighbour on the grid of multiples of `10 ^ scale`. -/
def Interval.below (i : Interval) (scale : Int) : Nat :=
  if 0 ≤ scale then i.value / (i.denominator * pow10 scale.toNat)
  else i.value * pow10 (-scale).toNat / i.denominator

/-- Whether the value is nearer to `n + 1` than to `n` on the grid; a tie goes to the even one. -/
def Interval.nearerAbove (i : Interval) (n : Nat) (scale : Int) : Bool :=
  let twice := if 0 ≤ scale then 2 * i.value else 2 * i.value * pow10 (-scale).toNat
  let middle := (2 * n + 1) * i.denominator * (if 0 ≤ scale then pow10 scale.toNat else 1)
  middle < twice || (middle == twice && n % 2 == 1)

/-- Tries `count` digits, then one more, up to seventeen, which always suffice. -/
def Interval.search (i : Interval) (first : Int) : Nat → Nat → Nat × Int
  | 0, count => (i.below (first - count + 1), first - count + 1)
  | fuel + 1, count =>
    let scale := first - count + 1
    let n := i.below scale
    let under := i.contains n scale
    let above := i.contains (n + 1) scale
    if under && above then (if i.nearerAbove n scale then n + 1 else n, scale)
    else if under then (n, scale)
    else if above then (n + 1, scale)
    else i.search first fuel (count + 1)

/-- Drops zeros at the end of a number of at most `fuel` digits. -/
def dropZeros : Nat → Nat → Int → Nat × Int
  | 0, n, scale => (n, scale)
  | fuel + 1, n, scale =>
    if n != 0 && n % 10 == 0 then dropZeros fuel (n / 10) (scale + 1) else (n, scale)

/-- The shortest digits of a positive finite double; the nearest of those of that length. -/
def shortest (p : Parts) : Digits :=
  let interval := Interval.of p
  let guess := Int.fdiv ((p.mantissa.log2 + p.exponent) * 30103) 100000
  let (n, scale) := interval.search (interval.firstExponent guess) 17 1
  let (n, scale) := dropZeros 20 n scale
  { digits := n, exponent := scale + (Nat.toDigits 10 n).length - 1 }

/-- How a double is written. Positional form is used from `leastPositional` up to, and without,
`positionalEnd`. -/
structure FloatStyle where
  leastPositional : Int
  positionalEnd : Int
  exponentWidth : Nat
  wholeTail : String
  infinity : String
  notANumber : String

/-- Whole numbers keep a fraction digit, so a double never reads as an integer. -/
def FloatStyle.standard : FloatStyle where
  leastPositional := -4
  positionalEnd := 16
  exponentWidth := 2
  wholeTail := ".0"
  infinity := "inf"
  notANumber := "nan"

/-- The digits with a point after position `exponent`, zeros filling what the digits do not
reach. -/
def positional (tail : String) (digits : List Char) (exponent : Int) : String :=
  if exponent < 0 then
    "0." ++ String.ofList (List.replicate (-exponent - 1).toNat '0' ++ digits)
  else
    let whole := exponent.toNat + 1
    if digits.length ≤ whole then
      String.ofList (digits ++ List.replicate (whole - digits.length) '0') ++ tail
    else String.ofList (digits.take whole) ++ "." ++ String.ofList (digits.drop whole)

/-- One digit before the point, and no point when it is the only one. -/
def exponential (width : Nat) (digits : List Char) (exponent : Int) : String :=
  let mantissa := match digits with
    | [] => "0"
    | [d] => String.ofList [d]
    | d :: ds => String.ofList (d :: '.' :: ds)
  let power := Nat.toDigits 10 exponent.natAbs
  mantissa ++ (if exponent < 0 then "e-" else "e+") ++
    String.ofList (List.replicate (width - power.length) '0' ++ power)

def FloatStyle.write (style : FloatStyle) (x : Float) : String :=
  if x.isNaN then style.notANumber
  else
    let sign := if Binary64.isNegative x then "-" else ""
    if x.isInf then sign ++ style.infinity
    else
      let p := Binary64.parts x
      if p.mantissa == 0 then sign ++ "0" ++ style.wholeTail
      else
        let d := shortest p
        let digits := Nat.toDigits 10 d.digits
        sign ++
          if style.leastPositional ≤ d.exponent && d.exponent < style.positionalEnd
          then positional style.wholeTail digits d.exponent
          else exponential style.exponentWidth digits d.exponent

/-- The standard text of a double. -/
def floatText (x : Float) : String := FloatStyle.standard.write x

end Stepwise.Decimal
