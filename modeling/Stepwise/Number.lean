import Stepwise.Decimal.FloatText
import Stepwise.Decimal.Read

/-!
Numbers: integers of any size and doubles, one type to the language. An integer operation stays in
the integers; as soon as one operand is a double the other is converted, and a conversion out of
range is an overflow, reported as `none`.
-/
namespace Stepwise

inductive Number where
  | int (n : Int)
  | float (x : Float)
  deriving Inhabited

namespace Number

/-- The nearest double; none when an integer is too large for one. -/
def toFloat? : Number → Option Float
  | .int n => Binary64.ofInt? n
  | .float x => some x

/-- Order without rounding; none when one side is a NaN. -/
def compare? : Number → Number → Option Ordering
  | .int a, .int b => some (compare a b)
  | .int a, .float y =>
    if y.isNaN then none
    else if y.isInf then some (if 0 < y then .lt else .gt)
    else some (Binary64.compareInt a y)
  | .float x, .int b =>
    if x.isNaN then none
    else if x.isInf then some (if 0 < x then .gt else .lt)
    else some (Binary64.compareInt b x).swap
  | .float x, .float y =>
    if x < y then some .lt else if y < x then some .gt else if x == y then some .eq else none

def lt (a b : Number) : Bool := compare? a b == some .lt

def le (a b : Number) : Bool := compare? a b == some .lt || compare? a b == some .eq

/-- Equal values, whatever their representation; a NaN equals nothing. -/
def eq (a b : Number) : Bool := compare? a b == some .eq

def isZero (a : Number) : Bool := a.eq (.int 0)

def isNegative (a : Number) : Bool := a.lt (.int 0)

/-- The integer a whole number stands for. -/
def whole? : Number → Option Int
  | .int n => some n
  | .float x => if Binary64.isWhole x then some (Binary64.truncate x) else none

/-- Integers by `onInts`, and otherwise doubles by `onFloats`. -/
def combine (onInts : Int → Int → Int) (onFloats : Float → Float → Float)
    (a b : Number) : Option Number :=
  match a, b with
  | .int m, .int n => some (.int (onInts m n))
  | a, b => do some (.float (onFloats (← a.toFloat?) (← b.toFloat?)))

def add : Number → Number → Option Number := combine (· + ·) (· + ·)

def sub : Number → Number → Option Number := combine (· - ·) (· - ·)

def mul : Number → Number → Option Number := combine (· * ·) (· * ·)

def neg : Number → Number
  | .int n => .int (-n)
  | .float x => .float (-x)

def abs : Number → Number
  | .int n => .int n.natAbs
  | .float x => .float x.abs

/-- The quotient of two integers is rounded once. The divisor is not zero. -/
def div (a b : Number) : Option Number :=
  match a, b with
  | .int m, .int n => (Binary64.ofQuotient? m n).map .float
  | a, b => do some (.float ((← a.toFloat?) / (← b.toFloat?)))

/-- The remainder with the sign of the divisor, also when it is zero. -/
def floatMod (x y : Float) : Float :=
  let rest := Binary64.remainder x y
  if rest == 0 then Binary64.withSign (Binary64.isNegative y) 0.0
  else if (y < 0) != (rest < 0) then rest + y
  else rest

/-- The floor of the quotient, from the remainder so that it agrees with it. -/
def floatFloorDiv (x y : Float) : Float :=
  let rest := Binary64.remainder x y
  let quotient := (x - rest) / y
  let quotient := if rest != 0 && (y < 0) != (rest < 0) then quotient - 1.0 else quotient
  if quotient == 0 then Binary64.withSign (Binary64.isNegative (x / y)) 0.0
  else
    let floored := quotient.floor
    if 0.5 < quotient - floored then floored + 1.0 else floored

def mod : Number → Number → Option Number := combine Int.fmod floatMod

def floorDiv : Number → Number → Option Number := combine Int.fdiv floatFloorDiv

/-- Whether a finite double is an odd whole number. -/
def isOdd (x : Float) : Bool := Binary64.isWhole x && Binary64.truncate x % 2 == 1

/-- What raising to a power can come to. -/
inductive Power where
  | result (n : Number)
  | tooLarge
  | notReal

/-- A double raised to a double. The exceptional operands are settled first, so that the general
case sees a positive finite base and a finite exponent. -/
def floatPow (x y : Float) : Power :=
  let odd := isOdd y
  if y == 0 then .result (.float 1.0)
  else if x.isNaN then .result (.float x)
  else if y.isNaN then .result (.float (if x == 1.0 then 1.0 else y))
  else if y.isInf then
    let size := x.abs
    if size == 1.0 then .result (.float 1.0)
    else .result (.float (if (0 < y) == (1.0 < size) then y.abs else 0.0))
  else if x.isInf then
    if 0 < y then .result (.float (if odd then x else x.abs))
    else .result (.float (if odd then Binary64.withSign (Binary64.isNegative x) 0.0 else 0.0))
  else if x == 0 then .result (.float (if odd then x else 0.0))
  else
    let size := Float.pow x.abs y
    if size.isInf && x.abs != 1.0 then .tooLarge
    else if x < 0 && !Binary64.isWhole y then .notReal
    else .result (.float (if x < 0 && odd then -size else size))

/-- A power of an integer. The bases whose powers stay small are settled whatever the exponent. -/
def intPow (m : Int) (n : Nat) : Int :=
  if n = 0 then 1
  else if m = 0 || m = 1 then m
  else if m = -1 then if n % 2 = 0 then 1 else -1
  else m.pow n

/-- Integers with an exponent that is not negative stay integers. Zero with a negative exponent is
excluded by the caller. -/
def pow (a b : Number) : Power :=
  match a, b with
  | .int m, .int (.ofNat n) => .result (.int (intPow m n))
  | a, b =>
    match a.toFloat?, b.toFloat? with
    | some x, some y => floatPow x y
    | _, _ => .tooLarge

/-- The power of two doubles under the rules of the standard function: none when the result is
undefined or out of range. -/
def functionPow? (x y : Float) : Option Float :=
  let odd := isOdd y
  if x.isNaN then some (if y == 0 then 1.0 else x)
  else if y.isNaN then some (if x == 1.0 then 1.0 else y)
  else if x.isInf then
    if 0 < y then some (if odd then x else x.abs)
    else if y == 0 then some 1.0
    else some (if odd then Binary64.withSign (Binary64.isNegative x) 0.0 else 0.0)
  else if y.isInf then
    if x.abs == 1.0 then some 1.0
    else if 0 < y && 1.0 < x.abs then some y
    else if y < 0 && x.abs < 1.0 then some (-y)
    else some 0.0
  else
    let r := Float.pow x y
    if Binary64.isFinite r then some r else none

/-- The decimal digits of an integer; none beyond the digit limit. -/
def intText? (n : Int) : Option String :=
  if n.natAbs < pow10 Decimal.digitLimit then some n.repr else none

/-- The text shown to a learner: whole doubles without a fraction, and words for the values without
digits. None beyond the digit limit. -/
def text? : Number → Option String
  | .int n => intText? n
  | .float x =>
    some <|
      if x.isNaN then "NaN"
      else if x.isInf then if 0 < x then "Infinity" else "-Infinity"
      else if Binary64.isWhole x && x.abs < 1e16 then (Binary64.truncate x).repr
      else Decimal.floatText x

/-- The text of a literal in a program listing. -/
def literal : Number → String
  | .int n => n.repr
  | .float x => Decimal.floatText x

/-- Whether the text of a number keeps within the digit limit. -/
def isWritable : Number → Bool
  | .int n => (intText? n).isSome
  | .float _ => true

end Number

end Stepwise
