import Stepwise.Value

/-!
Equality of values: numbers by value, lists and maps by content, instances by identity. A boolean
never equals a number. Comparing values that contain themselves may have no end, which is a host
failure.
-/
namespace Stepwise.Value

/-- Whether two maps have the same keys, in any order. -/
def sameKeys (a b : Bindings Value) : Bool :=
  a.length == b.length && a.all fun entry => b.has entry.1

/-- Compares pairs from the left and stops at the first difference. -/
def allEqual (equal : Value → Value → Except Failure Bool) :
    List (Value × Value) → Except Failure Bool
  | [] => .ok true
  | (x, y) :: pairs => do
    if ← equal x y then allEqual equal pairs else return false

/-- Equality below the pairs of cells of `path`. Coming back to a pair means there is no end; pairs
on a path differ, so their number bounds the depth. -/
def equalFrom (heap : Heap) : Nat → List (Ref × Ref) → Value → Value → Except Failure Bool
  | _, _, .inst a, .inst b => .ok (a == b)
  | _, _, .bool a, .bool b => .ok (a == b)
  | _, _, .number a, .number b => .ok (a.eq b)
  | _, _, .text a, .text b => .ok (a == b)
  | _, _, .null, .null => .ok true
  | fuel, path, .list a, .list b =>
    let xs := heap.items a
    let ys := heap.items b
    if xs.size != ys.size then .ok false
    else if path.contains (a, b) then .error (.host .endless)
    else match fuel with
      | 0 => .error (.host .endless)
      | fuel + 1 => allEqual (equalFrom heap fuel ((a, b) :: path)) (xs.toList.zip ys.toList)
  | fuel, path, .map a, .map b =>
    let xs := heap.entries a
    let ys := heap.entries b
    if !sameKeys xs ys then .ok false
    else if path.contains (a, b) then .error (.host .endless)
    else match fuel with
      | 0 => .error (.host .endless)
      | fuel + 1 =>
        allEqual (equalFrom heap fuel ((a, b) :: path))
          (xs.map fun entry => (entry.2, (ys.get? entry.1).getD .null))
  | _, _, _, _ => .ok false

def equal (heap : Heap) (a b : Value) : Except Failure Bool :=
  equalFrom heap (heap.size * heap.size + 1) [] a b

end Stepwise.Value
