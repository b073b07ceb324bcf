import Stepwise.Powers

/-!
Sorting by runs. A comparison that is no order, as with NaN among the numbers, has no sorted list:
what comes out depends on which items are compared, and this module fixes that. The list is cut into
ascending runs, short runs are filled up by binary insertion, and neighbouring runs are merged, with
a search of growing strides while one of them keeps winning.
-/
namespace Stepwise.Runs

variable {α : Type}

/-- The end at which two runs are merged. At the back the runs are held in reverse. -/
inductive Side where
  | front
  | back

/-- The middle of an interval, rounded up as seen from the front of the runs. -/
def Side.middle : Side → Nat → Nat → Nat
  | .front, low, high => low + (high - low) / 2
  | .back, low, high => low + (high - low - 1) / 2

/-- Where the items that lead end, searched between `low` and `high` by halving. -/
def bisect (side : Side) (leads : α → Bool) (items : List α) (low high : Nat) : Nat :=
  if low < high then
    let middle := side.middle low high
    if items[middle]?.any leads then bisect side leads items (middle + 1) high
    else bisect side leads items low middle
  else low
termination_by high - low
decreasing_by all_goals (simp only [Side.middle]; split <;> omega)

/-- Looks at growing distances for an item that does not lead. The items that lead end after the
first number and not after the second. -/
def stride (leads : α → Bool) (items : List α) (last next : Nat) : Nat × Nat :=
  if inside : next < items.length then
    if leads items[next] then stride leads items next (2 * next + 1) else (last, next)
  else (last, items.length)
termination_by items.length - next

/-- How many items at the head lead. -/
def leading (side : Side) (leads : α → Bool) : List α → Nat
  | [] => 0
  | x :: rest =>
    if leads x then
      let (last, next) := stride leads (x :: rest) 0 1
      bisect side leads (x :: rest) (last + 1) next
    else 0

/-- Two runs and what has been taken from their heads, the latest first. -/
structure Merging (α : Type) where
  first : List α
  second : List α
  merged : List α := []

namespace Merging

/-- A merge ends when the second run is used up, or when only the last item of the first one is
left, which is known to come last. -/
def isOver (m : Merging α) : Bool :=
  match m.first, m.second with
  | _ :: _ :: _, _ :: _ => false
  | _, _ => true

def result (m : Merging α) : List α :=
  m.merged.reverse ++ match m.first with
    | [x] => m.second ++ [x]
    | first => first ++ m.second

def takeFirst (m : Merging α) (n : Nat) : Merging α :=
  { m with first := m.first.drop n, merged := (m.first.take n).reverse ++ m.merged }

def takeSecond (m : Merging α) (n : Nat) : Merging α :=
  { m with second := m.second.drop n, merged := (m.second.take n).reverse ++ m.merged }

end Merging

/-- An item of the first run gives way to one of the second. -/
def yields (side : Side) (lt : α → α → Bool) (x y : α) : Bool :=
  match side with
  | .front => lt y x
  | .back => lt x y

/-- Takes what stands before the head of the second run, and then that head. -/
def passFirst (side : Side) (lt : α → α → Bool) (m : Merging α) : Nat × Merging α :=
  match m.isOver, m.second with
  | false, y :: _ =>
    let n := leading side (fun x => !yields side lt x y) m.first
    let m := m.takeFirst n
    (n, if m.isOver then m else m.takeSecond 1)
  | _, _ => (0, m)

/-- Takes what stands before the head of the first run, and then that head. -/
def passSecond (side : Side) (lt : α → α → Bool) (m : Merging α) : Nat × Merging α :=
  match m.isOver, m.first with
  | false, x :: _ =>
    let n := leading side (fun y => yields side lt x y) m.second
    let m := m.takeSecond n
    (n, if m.isOver then m else m.takeFirst 1)
  | _, _ => (0, m)

/-- So many items in a row are worth a search. -/
def longStretch : Nat := 7

/-- One search in each run. Tells whether one of them found a long stretch. -/
def passBoth (side : Side) (lt : α → α → Bool) (m : Merging α) : Bool × Merging α :=
  let (n, m) := match side with
    | .front => passFirst side lt m
    | .back => passSecond side lt m
  let (k, m) := match side with
    | .front => passSecond side lt m
    | .back => passFirst side lt m
  (longStretch ≤ n || longStretch ≤ k, m)

/-- Items are compared one by one, with a count of those that came in a row from each run, or
searched for. -/
inductive Pace where
  | single (fromFirst fromSecond : Nat)
  | search

/-- Merges two runs. `patience` is how many items in a row start a search; searches that find long
stretches lower it. Every round takes an item, so the number of items is enough fuel. -/
def mergeFrom (side : Side) (lt : α → α → Bool) :
    Nat → Pace → Nat → Merging α → List α × Nat
  | 0, _, patience, m => (m.result, patience)
  | fuel + 1, pace, patience, m =>
    match m.isOver, pace, m.first, m.second with
    | false, .single fromFirst fromSecond, x :: _, y :: _ =>
      if yields side lt x y then
        let pace := if patience ≤ fromSecond + 1 then .search else .single 0 (fromSecond + 1)
        mergeFrom side lt fuel pace patience (m.takeSecond 1)
      else
        let pace := if patience ≤ fromFirst + 1 then .search else .single (fromFirst + 1) 0
        mergeFrom side lt fuel pace patience (m.takeFirst 1)
    | false, .search, _, _ =>
      let (long, m) := passBoth side lt m
      if m.isOver then (m.result, patience)
      else if long then mergeFrom side lt fuel .search (max 1 (patience - 1)) m
      else mergeFrom side lt fuel (.single 0 0) (patience + 1) m
    | _, _, _, _ => (m.result, patience)

/-- Merges runs whose second one gives the first item and whose first one gives the last. -/
def mergeAt (side : Side) (lt : α → α → Bool) (patience : Nat) (first second : List α) :
    List α × Nat :=
  mergeFrom side lt (first.length + second.length) (.single 0 0) patience
    (Merging.takeSecond { first, second } 1)

/-- Merges two neighbouring runs. What is already in place at both ends stays there, and the
merge starts at the end of the shorter run. -/
def merge (lt : α → α → Bool) (patience : Nat) (left right : List α) : List α × Nat :=
  match right with
  | [] => (left, patience)
  | head :: _ =>
    let low := leading .front (fun x => !lt head x) left
    let lower := left.drop low
    match lower.getLast? with
    | none => (left ++ right, patience)
    | some last =>
      let high := right.length - leading .back (fun y => !lt y last) right.reverse
      let upper := right.take high
      let (middle, patience) :=
        if upper.isEmpty then (lower, patience)
        else if lower.length ≤ upper.length then mergeAt .front lt patience lower upper
        else
          let (merged, patience) := mergeAt .back lt patience upper.reverse lower.reverse
          (merged.reverse, patience)
      (left.take low ++ middle ++ right.drop high, patience)

/-- The items after `x` that follow one another by `linked`, and the rest. -/
def spanLinked (linked : α → α → Bool) : α → List α → List α × List α
  | _, [] => ([], [])
  | x, y :: rest =>
    if linked x y then
      let (run, rest) := spanLinked linked y rest
      (y :: run, rest)
    else ([], y :: rest)

/-- The run at the head of a list, which ascends or is strictly descending and turned around, and
the rest. -/
def takeRun (lt : α → α → Bool) : List α → List α × List α
  | x :: y :: rest =>
    if lt y x then
      let (run, rest) := spanLinked (fun a b => lt b a) y rest
      ((x :: y :: run).reverse, rest)
    else
      let (run, rest) := spanLinked (fun a b => !lt b a) y rest
      (x :: y :: run, rest)
  | items => (items, [])

/-- Inserts an item into a run after those that it is not less than. -/
def insert (lt : α → α → Bool) (run : List α) (x : α) : List α :=
  let place := bisect .front (fun y => !lt x y) run 0 run.length
  run.take place ++ x :: run.drop place

/-- Runs are filled up to a length of 32 to 64, so that few and equal runs cover a list of
`n` items. -/
def leastLength (n : Nat) (odd : Nat := 0) : Nat :=
  if n < 64 then n + odd else leastLength (n / 2) (max odd (n % 2))

/-- A run on the stack: where it starts, its items and how fine the boundary to the next run is. -/
structure Run (α : Type) where
  start : Nat
  items : List α
  fineness : Nat := 0

/-- The number of halvings of a list of `n` items that separate the middles of two neighbouring
runs. -/
def separation (n : Nat) (run : Run α) (next : List α) : Nat :=
  let a := 2 * run.start + run.items.length
  let b := a + run.items.length + next.length
  ((List.range (n.log2 + 2)).find? fun k => a * pow2 k / n ≠ b * pow2 k / n).getD 0

def Run.join (lt : α → α → Bool) (patience : Nat) (left right : Run α) : Run α × Nat :=
  let (items, patience) := merge lt patience left.items right.items
  ({ start := left.start, items }, patience)

/-- Merges the runs below the top whose boundary is finer than the new one. -/
def settle (lt : α → α → Bool) (fineness : Nat) : Nat → Run α → List (Run α) → List (Run α) × Nat
  | patience, top, [] => ([{ top with fineness }], patience)
  | patience, top, below :: stack =>
    if fineness < below.fineness then
      let (joined, patience) := below.join lt patience top
      settle lt fineness patience joined stack
    else ({ top with fineness } :: below :: stack, patience)

/-- Merges all runs, the shorter neighbour of the second one first. -/
def collapse (lt : α → α → Bool) (patience : Nat) (top : Run α) : List (Run α) → List α
  | [] => top.items
  | [below] => (below.join lt patience top).1.items
  | below :: lower :: stack =>
    if lower.items.length < top.items.length then
      let (joined, patience) := lower.join lt patience below
      collapse lt patience top (joined :: stack)
    else
      let (joined, patience) := below.join lt patience top
      collapse lt patience joined (lower :: stack)
termination_by stack => stack.length

/-- Cuts the remaining items into runs. Every run takes an item, so their number is enough fuel. -/
def sortFrom (lt : α → α → Bool) (n : Nat) :
    Nat → Nat → Nat → List α → List (Run α) → List α
  | 0, _, _, items, stack => (stack.reverse.flatMap Run.items) ++ items
  | fuel + 1, patience, start, items, stack =>
    let (run, rest) := takeRun lt items
    let missing := leastLength n - run.length
    let run := (rest.take missing).foldl (insert lt) run
    let rest := rest.drop missing
    let (stack, patience) := match stack with
      | [] => ([], patience)
      | top :: stack => settle lt (separation n top run) patience top stack
    if rest.isEmpty then collapse lt patience { start, items := run } stack
    else sortFrom lt n fuel patience (start + run.length) rest ({ start, items := run } :: stack)

/-- Sorts a list by runs. -/
def sort (lt : α → α → Bool) (items : List α) : List α :=
  sortFrom lt items.length items.length longStretch 0 items []

end Stepwise.Runs
