import Stepwise.Prelude.Arguments
import Stepwise.Runs
import Stepwise.Value.Equal

/-!
Builtin functions on lists. Those that change a list give the heap after the change.
-/
namespace Stepwise.Prelude

abbrev Changing := Heap → List Value → Except Failure (Value × Heap)

def append : Changing := fun heap args => do
  arity "append" args 2 2 (some "append(list, value)")
  let ref ← wantList "append" heap (arg args 0) "first argument"
  return (.null, heap.set ref (.list ((heap.items ref).push (arg args 1))))

def pop : Changing := fun heap args => do
  arity "pop" args 1 2 (some "pop(list) or pop(list, index)")
  let ref ← wantList "pop" heap (arg args 0) "first argument"
  let items := heap.items ref
  if items.isEmpty then refuse "pop" "cannot pop from an empty list"
  else
    let position ←
      if args.length = 1 then pure (items.size - 1 : Int)
      else match whole? (arg args 1) with
        | some i => pure i
        | none => refuse "pop" "index must be a whole number"
    if position < -(items.size : Int) || (items.size : Int) ≤ position then
      let shown ← digits position
      refuse "pop" s!"index {shown} is out of range (length {items.size})"
    else
      let i := (if position < 0 then position + items.size else position).toNat
      return (items.getD i .null, heap.set ref (.list (items.eraseIdxIfInBounds i)))

def insert : Changing := fun heap args => do
  arity "insert" args 3 3 (some "insert(list, index, value)")
  let ref ← wantList "insert" heap (arg args 0) "first argument"
  let items := heap.items ref
  match whole? (arg args 1) with
  | none => refuse "insert" "second argument must be a whole number"
  | some position =>
    if position < 0 || (items.size : Int) < position then
      let shown ← digits position
      refuse "insert" s!"index {shown} is out of range (0-{items.size})"
    else
      let i := position.toNat
      let placed := items.extract 0 i ++ #[arg args 2] ++ items.extract i items.size
      return (.null, heap.set ref (.list placed))

/-- What a list is sorted by: numbers before everything else, which goes by the text shown. -/
inductive SortKey where
  | number (n : Number)
  | text (s : String)

def sortKey (heap : Heap) : Value → Except Failure SortKey
  | .number n => .ok (.number n)
  | v => do return .text (← Value.display heap v)

def SortKey.lt : SortKey → SortKey → Bool
  | .number m, .number n => m.lt n
  | .number _, .text _ => true
  | .text _, .number _ => false
  | .text s, .text t => s < t

/-- Keys other than NaN are ordered. -/
def SortKey.isOrdered : SortKey → Bool
  | .number n => n.eq n
  | .text _ => true

/-- Sorting is stable: equal keys keep their order. Ordered keys allow one stable result; with NaN
among them it depends on the comparisons made, and the list is sorted by runs. -/
def sortByKey (keyed : List (SortKey × Value)) : List (SortKey × Value) :=
  if keyed.all fun entry => entry.1.isOrdered then keyed.mergeSort fun a b => !b.1.lt a.1
  else Runs.sort (fun a b => a.1.lt b.1) keyed

/-- Sorts a list in place. Its items are taken out while their keys are found, so that a list inside
itself is shown as empty. -/
def sort : Changing := fun heap args => do
  arity "sort" args 1 1
  let ref ← wantList "sort" heap (arg args 0)
  let emptied := heap.set ref (.list #[])
  let keyed ← (heap.items ref).toList.mapM fun v => do return (← sortKey emptied v, v)
  return (.null, heap.set ref (.list ((sortByKey keyed).map Prod.snd).toArray))

def reverse : Changing := fun heap args => do
  arity "reverse" args 1 1
  let ref ← wantList "reverse" heap (arg args 0)
  return (.null, heap.set ref (.list (heap.items ref).reverse))

def clear : Changing := fun heap args => do
  arity "clear" args 1 1
  let ref ← wantList "clear" heap (arg args 0)
  return (.null, heap.set ref (.list #[]))

/-- The position of the first item that equals a value, counted from `i`. -/
def indexFrom (heap : Heap) (v : Value) (i : Nat) : List Value → Except Failure Int
  | [] => .ok (-1)
  | item :: items => do
    if ← Value.equal heap item v then return i else indexFrom heap v (i + 1) items

def index (heap : Heap) (args : List Value) : Except Failure Value := do
  arity "index" args 2 2 (some "index(list, value)")
  let ref ← wantList "index" heap (arg args 0) "first argument"
  return .int (← indexFrom heap (arg args 1) 0 (heap.items ref).toList)

def countEqual (heap : Heap) (v : Value) : List Value → Except Failure Nat
  | [] => .ok 0
  | item :: items => do
    let here ← Value.equal heap item v
    let later ← countEqual heap v items
    return if here then later + 1 else later

def count (heap : Heap) (args : List Value) : Except Failure Value := do
  arity "count" args 2 2 (some "count(list, value)")
  let ref ← wantList "count" heap (arg args 0) "first argument"
  return .int (← countEqual heap (arg args 1) (heap.items ref).toList)

def len (heap : Heap) (args : List Value) : Except Failure Value := do
  arity "len" args 1 1
  match arg args 0 with
  | .list ref => return .int (heap.items ref).size
  | .text s => return .int s.length
  | .map ref => return .int (heap.entries ref).length
  | v => refuse "len" s!"works on lists, strings and objects, got {v.typeName heap}"

end Stepwise.Prelude
