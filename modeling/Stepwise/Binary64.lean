import Stepwise.Powers

/-!
Doubles as exact multiples of powers of two. Everything that has to be exact (rounding a quotient,
remainders, comparison with integers, decimal text) is done on the parts, in integers.
-/
namespace Stepwise.Binary64

/-- A finite double: `mantissa · 2 ^ exponent`, negated when `negative`. -/
structure Parts where
  negative : Bool
  mantissa : Nat
  exponent : Int

/-- Exponent of the least positive double. -/
def leastExponent : Int := -1074

/-- Number of mantissa bits of a normal double. -/
def precision : Nat := 53

/-- The parts of a finite double; of an infinity or a NaN they mean nothing. -/
def parts (x : Float) : Parts :=
  let bits := x.toBits.toNat
  let biased : Nat := bits / pow2 52 % pow2 11
  let fraction : Nat := bits % pow2 52
  { negative := bits / pow2 63 == 1
    mantissa := if biased == 0 then fraction else pow2 52 + fraction
    exponent := if biased == 0 then leastExponent else (biased : Int) - 1075 }

def isFinite (x : Float) : Bool := !(x.isNaN || x.isInf)

/-- The sign bit, which also a zero has. -/
def isNegative (x : Float) : Bool := x.toBits.toNat / pow2 63 == 1

def infinity : Float := Float.ofBits 0x7ff0000000000000

def notANumber : Float := Float.ofBits 0x7ff8000000000000

/-- `magnitude` must not be negative. -/
def withSign (negative : Bool) (magnitude : Float) : Float :=
  if negative then -magnitude else magnitude

/-- `num · 2 ^ shift / den` rounded to a natural number, an exact half to the even neighbour. -/
def roundScaled (num den : Nat) (shift : Int) : Nat :=
  let num := if 0 ≤ shift then num * pow2 shift.toNat else num
  let den := if 0 ≤ shift then den else den * pow2 (-shift).toNat
  let quotient := num / den
  let twice := 2 * (num % den)
  if twice < den then quotient
  else if den < twice then quotient + 1
  else if quotient % 2 == 0 then quotient else quotient + 1

/-- The exponent `e` with `2 ^ e ≤ num / den < 2 ^ (e + 1)`, for positive arguments. -/
def floorLog2 (num den : Nat) : Int :=
  let guess : Int := (num.log2 : Int) - den.log2
  let reaches :=
    if 0 ≤ guess then den * pow2 guess.toNat ≤ num else den ≤ num * pow2 (-guess).toNat
  if reaches then guess else guess - 1

/-- The double `mantissa · 2 ^ exponent`, where the mantissa has at most 53 bits, and fewer only at
the least exponent. -/
def assemble (mantissa : Nat) (exponent : Int) : Float :=
  if mantissa < pow2 52 then Float.ofBits mantissa.toUInt64
  else Float.ofBits (((exponent + 1075).toNat * pow2 52 + (mantissa - pow2 52)).toUInt64)

/-- The double nearest to `num / den`, an exact half to the even one; none when that is beyond the
largest double. The denominator must be positive. -/
def ofRatio? (num den : Nat) : Option Float :=
  if num == 0 then some 0.0
  else
    let exponent := max (floorLog2 num den - 52) leastExponent
    let mantissa := roundScaled num den (-exponent)
    let carried := mantissa == pow2 precision
    let mantissa := if carried then pow2 52 else mantissa
    let exponent := if carried then exponent + 1 else exponent
    if 971 < exponent then none else some (assemble mantissa exponent)

/-- The double nearest to an integer; none when it is out of range. -/
def ofInt? (n : Int) : Option Float := (ofRatio? n.natAbs 1).map (withSign (n < 0))

/-- The double nearest to a quotient of integers; none when it is out of range. -/
def ofQuotient? (a b : Int) : Option Float :=
  (ofRatio? a.natAbs b.natAbs).map (withSign ((a < 0) != (b < 0)))

/-- A finite double as a fraction. -/
def toFraction (x : Float) : Int × Nat :=
  let p := parts x
  let mantissa : Int := if p.negative then -(p.mantissa : Int) else p.mantissa
  if 0 ≤ p.exponent then (mantissa * pow2 p.exponent.toNat, 1)
  else (mantissa, pow2 (-p.exponent).toNat)

/-- The greatest integer that is not above a finite double. -/
def floor (x : Float) : Int :=
  let (num, den) := toFraction x
  Int.fdiv num den

/-- A finite double without its fractional digits. -/
def truncate (x : Float) : Int :=
  let (num, den) := toFraction x
  Int.tdiv num den

/-- Whether a double is a whole number; infinities are not. -/
def isWhole (x : Float) : Bool :=
  isFinite x && (let (num, den) := toFraction x; num % den == 0)

/-- Order of an integer and a finite double, without rounding either. -/
def compareInt (n : Int) (x : Float) : Ordering :=
  let (num, den) := toFraction x
  compare (n * den) num

/-- The remainder with the sign of the dividend; it is always a double, so nothing is rounded. The
divisor is not zero. -/
def remainder (x y : Float) : Float :=
  if x.isNaN || y.isNaN || x.isInf then notANumber
  else if y.isInf then x
  else
    let p := parts x
    let q := parts y
    let exponent := min p.exponent q.exponent
    let dividend := p.mantissa * pow2 (p.exponent - exponent).toNat
    let divisor := q.mantissa * pow2 (q.exponent - exponent).toNat
    let rest := dividend % divisor
    let magnitude :=
      if 0 ≤ exponent then ofRatio? (rest * pow2 exponent.toNat) 1
      else ofRatio? rest (pow2 (-exponent).toNat)
    withSign p.negative (magnitude.getD 0.0)

end Stepwise.Binary64
