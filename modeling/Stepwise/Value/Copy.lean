import Stepwise.Value

/-!
Copying values from one heap into another. Everything that can be reached is copied once, so values
that shared a cell before share its copy afterwards.
-/
namespace Stepwise

/-- Moves the references of a value along `rename`. -/
def Value.rename (rename : Ref → Ref) : Value → Value
  | .list ref => .list (rename ref)
  | .map ref => .map (rename ref)
  | .inst ref => .inst (rename ref)
  | v => v

def Bindings.rename (rename : Ref → Ref) (bindings : Bindings Value) : Bindings Value :=
  bindings.map fun (name, value) => (name, value.rename rename)

def Cell.rename (rename : Ref → Ref) : Cell → Cell
  | .list items => .list (items.map (Value.rename rename))
  | .map entries => .map (entries.rename rename)
  | .inst className fields => .inst className (fields.rename rename)

namespace Heap

/-- Visits the waiting cells and what they lead to. `seen` marks the cells already found and `found`
lists them, the latest first. -/
def reachFrom (heap : Heap) : Nat → List Value → Array Bool → List Ref → List Ref
  | 0, _, _, found => found
  | _, [], _, found => found
  | fuel + 1, v :: waiting, seen, found =>
    match v.ref? with
    | none => reachFrom heap fuel waiting seen found
    | some ref =>
      if seen.getD ref true then reachFrom heap fuel waiting seen found
      else
        let parts := (heap.get? ref).elim [] Cell.parts
        reachFrom heap fuel (parts ++ waiting) (seen.setIfInBounds ref true) (ref :: found)

/-- Number of values in all cells. -/
def population (heap : Heap) : Nat :=
  heap.cells.foldl (fun n cell => n + cell.parts.length) 0

/-- The cells that can be reached from some values, in the order in which they are found. Each value
waits once for every place it stands in, which bounds the visits. -/
def reachable (heap : Heap) (roots : List Value) : List Ref :=
  (heap.reachFrom (roots.length + heap.population + 1) roots
    (Array.replicate heap.size false) []).reverse

/-- Where each of the copied cells goes when the first one goes to `base`. -/
def placement (size base : Nat) (refs : List Ref) : Array Ref :=
  (refs.foldl (fun (acc : Array Ref × Nat) ref => (acc.1.setIfInBounds ref acc.2, acc.2 + 1))
    (Array.replicate size 0, base)).1

/-- Copies what can be reached from `roots` in `old` behind the cells of `heap`, and gives the
renaming that leads to the copies. -/
def graft (heap old : Heap) (roots : List Value) : (Ref → Ref) × Heap :=
  let refs := old.reachable roots
  let target := placement old.size heap.size refs
  let rename (ref : Ref) : Ref := target.getD ref ref
  let copies := refs.filterMap fun ref => (old.get? ref).map (Cell.rename rename)
  (rename, ⟨heap.cells ++ copies.toArray⟩)

/-- A copy of a value that shares nothing with it. -/
def copy (heap : Heap) (v : Value) : Value × Heap :=
  let (rename, heap) := heap.graft heap [v]
  (v.rename rename, heap)

end Heap

end Stepwise
