import Stepwise.Text.Pieces
import Stepwise.Tree
import Stepwise.Value.Equal
import Stepwise.Value.Text

/-!
The operators of the language on values. Both engines use these, so they agree by construction on
what an operator means and on its faults.
-/
namespace Stepwise.Value

def mathHint : String := "Convert values with int() or float() before doing math."

/-- Both operands as numbers; `sign` is the operator named in the fault. -/
def numbers (heap : Heap) (sign : String) (a b : Value) : Except Failure (Number × Number) :=
  match a, b with
  | .number m, .number n => .ok (m, n)
  | a, b =>
    complain
      s!"Operator '{sign}' needs two numbers, got {a.typeName heap} and {b.typeName heap}"
      (some mathHint)

/-- A result that overflowed is a fault. -/
def orTooLarge : Option Number → Except Failure Value
  | some n => .ok (.number n)
  | none => tooLarge

/-- Sums of numbers; as soon as one side is a text, both are shown and joined. -/
def add (heap : Heap) (a b : Value) : Except Failure Value :=
  match a, b with
  | .number m, .number n => orTooLarge (m.add n)
  | .text _, _ | _, .text _ => do
    let left ← display heap a
    let right ← display heap b
    return .text (left ++ right)
  | a, b =>
    complain
      s!"Operator '+' needs numbers or strings, got {a.typeName heap} and {b.typeName heap}"
      (some "Use str() to turn a value into text before joining it.")

def sub (heap : Heap) (a b : Value) : Except Failure Value := do
  let (m, n) ← numbers heap "-" a b
  orTooLarge (m.sub n)

/-- Counts and lengths of texts stay below this. -/
def textLimit : Nat := pow2 63

/-- A text of this length does not fit into memory. -/
def roomLimit : Nat := pow2 35

/-- A text written a number of times, by doubling. -/
def repeated (s : String) (n : Nat) : String :=
  if n = 0 then ""
  else
    let half := repeated s (n / 2)
    if n % 2 = 0 then half ++ half else half ++ half ++ s

theorem toList_repeated (s : String) (n : Nat) :
    (repeated s n).toList = (List.replicate n s.toList).flatten := by
  fun_induction repeated s n with
  | case1 => simp
  | case2 n _ half even ih =>
    have twice : n = n / 2 + n / 2 := by omega
    rw [String.toList_append, ih, ← List.flatten_append, List.replicate_append_replicate, ← twice]
  | case3 n _ half odd ih =>
    have twice : n = n / 2 + n / 2 + 1 := by omega
    rw [String.toList_append, String.toList_append, ih, ← List.flatten_append,
      List.replicate_append_replicate]
    conv => rhs; rw [twice, List.replicate_succ']
    simp

def repeatText (s : String) (times : Number) : Except Failure Value :=
  match times.whole? with
  | some (.ofNat n) =>
    if textLimit ≤ n || textLimit ≤ s.length * n then tooLarge
    else if roomLimit ≤ s.length * n then .error (.host .noRoom)
    else .ok (.text (repeated s n))
  | _ => complain "A string can only be repeated a non-negative whole number of times"

def mul (heap : Heap) (a b : Value) : Except Failure Value :=
  match a, b with
  | .number m, .number n => orTooLarge (m.mul n)
  | .text s, .number n => repeatText s n
  | .number n, .text s => repeatText s n
  | a, b =>
    complain
      ("Operator '*' needs two numbers, or a string and a whole number, " ++
        s!"got {a.typeName heap} and {b.typeName heap}")

def divisorHint : String := "Check that the divisor is not 0."

/-- A division of some kind; the divisor must not be zero. -/
def dividing (sign zeroFault : String) (divide : Number → Number → Option Number)
    (heap : Heap) (a b : Value) : Except Failure Value := do
  let (m, n) ← numbers heap sign a b
  if n.isZero then complain zeroFault (some divisorHint)
  else orTooLarge (divide m n)

def div : Heap → Value → Value → Except Failure Value := dividing "/" "Division by zero" Number.div

def mod : Heap → Value → Value → Except Failure Value := dividing "%" "Modulo by zero" Number.mod

def floorDiv : Heap → Value → Value → Except Failure Value :=
  dividing "//" "Division by zero" Number.floorDiv

def pow (heap : Heap) (a b : Value) : Except Failure Value := do
  let (m, n) ← numbers heap "**" a b
  if m.isZero && n.isNegative then complain "Cannot raise 0 to a negative power"
  else match m.pow n with
    | .result r => return .number r
    | .tooLarge => tooLarge
    | .notReal => complain "Cannot raise a negative number to a fractional power"

def negate (heap : Heap) : Value → Except Failure Value
  | .number n => .ok (.number n.neg)
  | v => complain s!"Cannot negate a {v.typeName heap}"

/-- Comparison of numbers; `test` decides on the two of them. -/
def compareBy (sign : String) (test : Number → Number → Bool) (heap : Heap) (a b : Value) :
    Except Failure Value := do
  let (m, n) ← numbers heap sign a b
  return .bool (test m n)

def lessThan : Heap → Value → Value → Except Failure Value := compareBy "<" Number.lt

def greaterThan : Heap → Value → Value → Except Failure Value :=
  compareBy ">" fun m n => n.lt m

def atMost : Heap → Value → Value → Except Failure Value := compareBy "<=" Number.le

def atLeast : Heap → Value → Value → Except Failure Value := compareBy ">=" fun m n => n.le m

/-- Whether some item of a list equals a value, from the left. -/
def anyEqual (heap : Heap) (v : Value) : List Value → Except Failure Bool
  | [] => .ok false
  | item :: items => do
    if ← equal heap v item then return true else anyEqual heap v items

/-- Whether `item` is in `container`: an item of a list, a part of a text or a key of a map. -/
def contains (heap : Heap) (container item : Value) : Except Failure Bool :=
  match container with
  | .list ref => anyEqual heap item (heap.items ref).toList
  | .text whole =>
    match item with
    | .text part => .ok (Text.index? part.toList whole.toList).isSome
    | _ => complain "'in' on a string needs a string on the left"
  | .map ref => do return (heap.entries ref).has (← key heap item)
  | v => complain s!"'in' needs a list, string or object on the right, got {v.typeName heap}"

/-- An operator on two values. The two that decide whether to look at their right operand are not
operators on values. -/
def binary (op : BinaryOp) (heap : Heap) (a b : Value) : Except Failure Value :=
  match op with
  | .add => add heap a b
  | .sub => sub heap a b
  | .mul => mul heap a b
  | .div => div heap a b
  | .mod => mod heap a b
  | .floorDiv => floorDiv heap a b
  | .pow => pow heap a b
  | .eq => do return .bool (← equal heap a b)
  | .ne => do return .bool (!(← equal heap a b))
  | .lt => lessThan heap a b
  | .gt => greaterThan heap a b
  | .le => atMost heap a b
  | .ge => atLeast heap a b
  | .isIn => do return .bool (← contains heap b a)
  | .and | .or | .unknown _ => do
    let sign ← op.sign.name
    complain s!"Unknown operator '{sign}'"

/-- The number of times a loop runs, which is fixed before its first round. -/
def repeatCount (heap : Heap) (v : Value) : Except Failure Nat :=
  match v with
  | .number n =>
    match n.whole? with
    | some (.ofNat count) => .ok count
    | _ => refuse
  | _ => refuse
where
  refuse : Except Failure Nat :=
    complain s!"Repeat count must be a non-negative whole number, got {v.typeName heap}"
      (some "Check the number of times to repeat.")

/-- The bounds of a range are numbers, and its step is not zero. -/
def checkRange (start stop step : Value) : Except Failure Unit :=
  match start, stop, step with
  | .number _, .number _, .number s =>
    if s.isZero then
      complain "range() step cannot be zero"
        (some "Use a positive step to count up or a negative one to count down.")
    else .ok ()
  | _, _, _ => complain "range() needs numbers" (some "Check the arguments passed to range().")

end Stepwise.Value
