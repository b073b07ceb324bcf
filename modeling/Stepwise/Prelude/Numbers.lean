import Stepwise.Prelude.Arguments
import Stepwise.Value.Operators
import Stepwise.World

/-!
Builtin functions on numbers and the conversions to numbers.
-/
namespace Stepwise.Prelude

def abs (heap : Heap) (args : List Value) : Except Failure Value := do
  arity "abs" args 1 1
  return .number (← wantNumber "abs" heap (arg args 0)).abs

/-- The first number that no later one beats. -/
def best (beats : Number → Number → Bool) (first : Number) (rest : List Number) : Number :=
  rest.foldl (fun m n => if beats n m then n else m) first

/-- Takes several numbers, or one list of them. -/
def extreme (name : String) (beats : Number → Number → Bool) (heap : Heap) (args : List Value) :
    Except Failure Value := do
  let values ← match args with
    | [] => refuse name "needs at least 1 argument"
    | [.list ref] =>
      if (heap.items ref).isEmpty then refuse name "cannot be used on an empty list"
      else pure (heap.items ref).toList
    | args => pure args
  match ← values.mapM fun v => wantNumber name heap v "every value" with
  | [] => refuse name "needs at least 1 argument"
  | first :: rest => return .number (best beats first rest)

def min : Heap → List Value → Except Failure Value := extreme "min" Number.lt

def max : Heap → List Value → Except Failure Value := extreme "max" fun m n => n.lt m

/-- Adds the items from the left; each is checked just before it is added. -/
def sumFrom (heap : Heap) (total : Number) : List Value → Except Failure Value
  | [] => .ok (.number total)
  | v :: vs => do
    let n ← wantNumber "sum" heap v "every list item"
    match total.add n with
    | some total => sumFrom heap total vs
    | none => Value.tooLarge

def sum (heap : Heap) (args : List Value) : Except Failure Value := do
  arity "sum" args 1 1
  let ref ← wantList "sum" heap (arg args 0)
  sumFrom heap (.int 0) (heap.items ref).toList

/-- The floor of a sum with one half. None when that is not finite. -/
def roundHalfUp? (n : Number) : Option Int := do
  match ← n.add (.float 0.5) with
  | .int i => some i
  | .float x => if Binary64.isFinite x then some (Binary64.floor x) else none

/-- Rounds to a number of decimal places: scales, rounds a half upwards, and scales back. -/
def roundPlaces (n : Number) (places : Nat) : Except Failure Value :=
  let factor : Int := pow10 places
  let rounded := do
    let scaled ← n.mul (.int factor)
    let whole ← roundHalfUp? scaled
    Number.div (.int whole) (.int factor)
  Value.orTooLarge rounded

def round (heap : Heap) (args : List Value) : Except Failure Value := do
  arity "round" args 1 2 (some "round(x) or round(x, digits)")
  let n ← wantNumber "round" heap (arg args 0) "first argument"
  if args.length = 1 then
    match n with
    | .int i => return .int i
    | .float x =>
      if Binary64.isFinite x then return .int (Binary64.floor (x + 0.5))
      else return .int (← wholePart "round" n)
  else
    match whole? (arg args 1), n with
    | some (.ofNat places), .int _ => roundPlaces n places
    | some (.ofNat places), .float x =>
      if Binary64.isFinite x then roundPlaces n places else return .number n
    | _, _ => refuse "round" "second argument must be a non-negative whole number"

def sqrt (heap : Heap) (args : List Value) : Except Failure Value := do
  arity "sqrt" args 1 1
  let n ← wantNumber "sqrt" heap (arg args 0)
  if n.isNegative then refuse "sqrt" "argument cannot be negative"
  else match n.toFloat? with
    | some x => return .number (.float x.sqrt)
    | none => Value.tooLarge

def pow (heap : Heap) (args : List Value) : Except Failure Value := do
  arity "pow" args 2 2 (some "pow(base, exponent)")
  let base ← wantNumber "pow" heap (arg args 0) "base"
  let exponent ← wantNumber "pow" heap (arg args 1) "exponent"
  match base, exponent with
  | .int m, .int (.ofNat n) => return .int (Number.intPow m n)
  | _, _ =>
    match (do Number.functionPow? (← base.toFloat?) (← exponent.toFloat?)) with
    | some x => return .number (.float x)
    | none =>
      let shownBase ← Value.numberText base
      let shownExponent ← Value.numberText exponent
      refuse "pow" s!"cannot compute {shownBase} ** {shownExponent}"

def toInt (heap : Heap) (args : List Value) : Except Failure Value := do
  arity "int" args 1 1
  match arg args 0 with
  | .bool b => return .int (if b then 1 else 0)
  | .number n => return .int (← wholePart "int" n)
  | .text s =>
    match Decimal.readInt? s.toList with
    | some n => return .int n
    | none => refuse "int" s!"cannot convert \"{s}\" to a whole number"
  | v => refuse "int" s!"only converts numbers, strings and booleans, got {v.typeName heap}"

def toFloat (heap : Heap) (args : List Value) : Except Failure Value := do
  arity "float" args 1 1
  match arg args 0 with
  | .bool b => return .number (.float (if b then 1.0 else 0.0))
  | .number n =>
    match n.toFloat? with
    | some x => return .number (.float x)
    | none => Value.tooLarge
  | .text s =>
    match Decimal.readFloat? s.toList with
    | some x => return .number (.float x)
    | none => refuse "float" s!"cannot convert \"{s}\" to a number"
  | v => refuse "float" s!"only converts numbers, strings and booleans, got {v.typeName heap}"

/-- A double in [0, 1) from the 53 bits of a draw. -/
def random (world : World) (args : List Value) : Except Failure (Value × World) := do
  arity "random" args 0 0
  let (n, world) := world.draw (pow2 53)
  return (.number (.float (Float.ofNat n / Float.ofNat (pow2 53))), world)

def randint (world : World) (args : List Value) : Except Failure (Value × World) := do
  arity "randint" args 2 2 (some "randint(low, high)")
  match whole? (arg args 0), whole? (arg args 1) with
  | some low, some high =>
    if high < low then refuse "randint" "first argument must not be greater than the second"
    else
      let (n, world) := world.draw (high - low + 1).toNat
      return (.int (low + n), world)
  | _, _ => refuse "randint" "arguments must be whole numbers"

end Stepwise.Prelude
