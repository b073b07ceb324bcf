import Stepwise.Binary64
import Stepwise.Text.Scripts

/-!
Reading numbers from text. Digits of any script count, single underscores may stand between digits,
and white space around the number is ignored.
-/
namespace Stepwise.Decimal

/-- The longest integer, in digits, that is converted to or from text. -/
def digitLimit : Nat := 4300

def numeral (digits : List Nat) : Nat := digits.foldl (fun n d => 10 * n + d) 0

/-- Digits of any script become the plain ones. -/
def plainDigits (cs : List Char) : List Char :=
  cs.map fun c => match Text.digitValue? c with
    | some d => Char.ofNat (0x30 + d)
    | none => c

/-- Removes underscores; each has to stand between two digits. `afterDigit` says whether the
character just read was a digit. -/
def dropUnderscores (afterDigit : Bool) : List Char → Option (List Char)
  | [] => some []
  | '_' :: c :: cs =>
    if afterDigit && c.isDigit then (dropUnderscores true cs).map (c :: ·) else none
  | c :: cs => if c = '_' then none else (dropUnderscores c.isDigit cs).map (c :: ·)

/-- The plain characters of a numeral, without the white space around it. -/
def plain? (cs : List Char) : Option (List Char) :=
  dropUnderscores false (plainDigits (Text.trim cs))

/-- Splits off a sign. -/
def sign : List Char → Bool × List Char
  | '-' :: cs => (true, cs)
  | '+' :: cs => (false, cs)
  | cs => (false, cs)

def digitsOf (cs : List Char) : List Nat := cs.map fun c => c.toNat - 0x30

/-- An integer of at most the permitted number of digits. -/
def readInt? (cs : List Char) : Option Int := do
  let (negative, digits) := sign (← plain? cs)
  if digits.isEmpty || !digits.all Char.isDigit || digitLimit < digits.length then none
  else
    let n : Int := numeral (digitsOf digits)
    some (if negative then -n else n)

/-- The double nearest to `digits · 10 ^ exponent`. Exponents far outside the range of doubles are
settled without computing the power. -/
def ofDecimal (digits : List Nat) (exponent : Int) : Float :=
  let digits := digits.dropWhile (· == 0)
  let first : Int := digits.length + exponent
  if digits.isEmpty || first < -400 then 0.0
  else if 400 < first then Binary64.infinity
  else
    let n := numeral digits
    let rounded :=
      if 0 ≤ exponent then Binary64.ofRatio? (n * pow10 exponent.toNat) 1
      else Binary64.ofRatio? n (pow10 (-exponent).toNat)
    rounded.getD Binary64.infinity

/-- An exponent mark with its digits, or nothing at all. -/
def exponent? : List Char → Option Int
  | [] => some 0
  | mark :: cs =>
    let (negative, digits) := sign cs
    if (mark = 'e' || mark = 'E') && !digits.isEmpty && digits.all Char.isDigit then
      let n : Int := numeral (digitsOf digits)
      some (if negative then -n else n)
    else none

/-- Digits with an optional point, of which at least one digit is present, and an optional
exponent. -/
def magnitude? (cs : List Char) : Option Float := do
  let whole := cs.takeWhile Char.isDigit
  let rest := cs.drop whole.length
  let (fraction, rest) := match rest with
    | '.' :: rest => (rest.takeWhile Char.isDigit, rest.dropWhile Char.isDigit)
    | rest => ([], rest)
  if whole.isEmpty && fraction.isEmpty then none
  else
    let exponent ← exponent? rest
    some (ofDecimal (digitsOf (whole ++ fraction)) (exponent - fraction.length))

/-- The words for the values that have no digits, in any mix of cases. -/
def special? (cs : List Char) : Option Float :=
  let word := String.ofList (cs.map Char.toLower)
  if word = "inf" || word = "infinity" then some Binary64.infinity
  else if word = "nan" then some Binary64.notANumber
  else none

def readFloat? (cs : List Char) : Option Float := do
  let (negative, rest) := sign (← plain? cs)
  let x ← (special? rest).orElse fun _ => magnitude? rest
  some (if negative then -x else x)

end Stepwise.Decimal
