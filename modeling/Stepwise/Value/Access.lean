import Stepwise.Value.Text

/-!
Reading and writing parts of values: by position, by key, by bounds and by name.
-/
namespace Stepwise.Value

/-- The position an index names in a sequence of `length` items; negative ones count from the
end. -/
def resolve (heap : Heap) (what : String) (length : Nat) (position : Value) :
    Except Failure Nat :=
  match position with
  | .number n =>
    match n.whole? with
    | some i =>
      let i := if i < 0 then i + length else i
      if 0 ≤ i && i < length then .ok i.toNat
      else do
        let shown ← numberText n
        complain s!"{what} index {shown} is out of range (length {length})"
          (some s!"Valid indexes go from 0 to {(length : Int) - 1}, or from -1 backwards.")
    | none => refuse
  | _ => refuse
where
  refuse : Except Failure Nat :=
    complain s!"{what} index must be a whole number, got {position.typeName heap}"

def getIndex (heap : Heap) (object position : Value) : Except Failure Value :=
  match object with
  | .list ref => do
    let items := heap.items ref
    let i ← resolve heap "List" items.size position
    return items.getD i .null
  | .text s => do
    let cs := s.toList
    let i ← resolve heap "String" cs.length position
    return .text (String.ofList ((cs.drop i).take 1))
  | .map ref => do
    let k ← key heap position
    match (heap.entries ref).get? k with
    | some v => return v
    | none => complain s!"Object has no key \"{k}\""
  | v => complain s!"Only lists, strings and objects can be indexed, got {v.typeName heap}"

def setIndex (heap : Heap) (object position v : Value) : Except Failure Heap :=
  match object with
  | .list ref => do
    let items := heap.items ref
    let i ← resolve heap "List" items.size position
    return heap.set ref (.list (items.setIfInBounds i v))
  | .map ref => do
    let k ← key heap position
    return heap.set ref (.map ((heap.entries ref).put k v))
  | other =>
    complain s!"Only list items and object keys can be assigned, got {other.typeName heap}"

/-- A bound of a slice, cut to the sequence; a negative one counts from the end. -/
def clamp (length default : Nat) (bound : Value) : Except Failure Nat :=
  match bound with
  | .null => .ok default
  | .number n =>
    match n.whole? with
    | some i =>
      let i := if i < 0 then max 0 (i + length) else i
      .ok (min i.toNat length)
    | none => complain "Slice bounds must be whole numbers"
  | _ => complain "Slice bounds must be whole numbers"

/-- The items from `start` up to, and without, `stop`; null stands for an absent bound. A slice of a
list is a new list. -/
def slice (heap : Heap) (object start stop : Value) : Except Failure (Value × Heap) :=
  match object with
  | .list ref => do
    let items := heap.items ref
    let lo ← clamp items.size 0 start
    let hi ← clamp items.size items.size stop
    return heap.newList (items.extract lo hi)
  | .text s => do
    let cs := s.toList
    let lo ← clamp cs.length 0 start
    let hi ← clamp cs.length cs.length stop
    return (.text (String.ofList ((cs.take hi).drop lo)), heap)
  | v => complain s!"Only lists and strings can be sliced, got {v.typeName heap}"

def getMember (heap : Heap) (object : Value) (name : Name) : Except Failure Value :=
  match object with
  | .inst ref =>
    match (heap.fields ref).get? name with
    | some v => .ok v
    | none =>
      complain s!"{heap.className ref} instance has no attribute \"{name}\""
        (some s!"Assign self.{name} in __init__ before reading it.")
  | .map ref =>
    match (heap.entries ref).get? name with
    | some v => .ok v
    | none => complain s!"Object has no attribute \"{name}\""
  | v => complain s!"Cannot read attribute \"{name}\" of a {v.typeName heap}"

def setMember (heap : Heap) (object : Value) (name : Name) (v : Value) :
    Except Failure Heap :=
  match object with
  | .inst ref =>
    .ok (heap.set ref (.inst (heap.className ref) ((heap.fields ref).put name v)))
  | .map ref => .ok (heap.set ref (.map ((heap.entries ref).put name v)))
  | other => complain s!"Cannot set attribute \"{name}\" on a {other.typeName heap}"

end Stepwise.Value
