import Stepwise.Bindings
import Stepwise.Fault
import Stepwise.Scalar

/-!
Values of running programs and the heap they refer to. Lists, maps and instances are cells of the
heap, so that two names for one list see each other's changes. Cells are never removed.
-/
namespace Stepwise

/-- The number of a cell. -/
abbrev Ref := Nat

inductive Value where
  | null
  | bool (b : Bool)
  | number (n : Number)
  | text (s : String)
  | list (ref : Ref)
  | map (ref : Ref)
  | inst (ref : Ref)
  deriving Inhabited

def Scalar.toValue : Scalar → Value
  | .null => .null
  | .bool b => .bool b
  | .number n => .number n
  | .text s => .text s

namespace Value

def int (n : Int) : Value := .number (.int n)

/-- The cell a value refers to. -/
def ref? : Value → Option Ref
  | .list ref | .map ref | .inst ref => some ref
  | _ => none

def isNull : Value → Bool
  | .null => true
  | _ => false

/-- A value without parts, as which it can name something. -/
def scalar? : Value → Option Scalar
  | .null => some .null
  | .bool b => some (.bool b)
  | .number n => some (.number n)
  | .text s => some (.text s)
  | .list _ | .map _ | .inst _ => none

/-- The number a value counts as when it is compared with numbers. -/
def weight? (v : Value) : Option Number := v.scalar?.bind Scalar.weight?

end Value

inductive Cell where
  | list (items : Array Value)
  | map (entries : Bindings Value)
  | inst (className : Name) (fields : Bindings Value)
  deriving Inhabited

structure Heap where
  cells : Array Cell := #[]
  deriving Inhabited

namespace Heap

def size (heap : Heap) : Nat := heap.cells.size

def get? (heap : Heap) (ref : Ref) : Option Cell := heap.cells[ref]?

def set (heap : Heap) (ref : Ref) (cell : Cell) : Heap := ⟨heap.cells.setIfInBounds ref cell⟩

/-- A new cell, numbered after all earlier ones. -/
def alloc (heap : Heap) (cell : Cell) : Ref × Heap := (heap.size, ⟨heap.cells.push cell⟩)

def newList (heap : Heap) (items : Array Value) : Value × Heap :=
  let (ref, heap) := heap.alloc (.list items)
  (.list ref, heap)

def newMap (heap : Heap) (entries : Bindings Value) : Value × Heap :=
  let (ref, heap) := heap.alloc (.map entries)
  (.map ref, heap)

def newInst (heap : Heap) (className : Name) (fields : Bindings Value) : Value × Heap :=
  let (ref, heap) := heap.alloc (.inst className fields)
  (.inst ref, heap)

/-- The items of a list cell. -/
def items (heap : Heap) (ref : Ref) : Array Value :=
  match heap.get? ref with
  | some (.list items) => items
  | _ => #[]

/-- The entries of a map cell. -/
def entries (heap : Heap) (ref : Ref) : Bindings Value :=
  match heap.get? ref with
  | some (.map entries) => entries
  | _ => []

def className (heap : Heap) (ref : Ref) : Name :=
  match heap.get? ref with
  | some (.inst className _) => className
  | _ => .null

/-- The fields of an instance cell. -/
def fields (heap : Heap) (ref : Ref) : Bindings Value :=
  match heap.get? ref with
  | some (.inst _ fields) => fields
  | _ => []

@[simp] theorem alloc_ref (heap : Heap) (cell : Cell) : (heap.alloc cell).1 = heap.size := rfl

@[simp] theorem size_alloc (heap : Heap) (cell : Cell) :
    (heap.alloc cell).2.size = heap.size + 1 := by
  simp [alloc, size]

@[simp] theorem size_set (heap : Heap) (ref : Ref) (cell : Cell) :
    (heap.set ref cell).size = heap.size := by
  simp [set, size]

/-- A new cell leaves the earlier ones alone. -/
theorem get?_alloc (heap : Heap) (cell : Cell) (ref : Ref) :
    (heap.alloc cell).2.get? ref = if ref = heap.size then some cell else heap.get? ref := by
  by_cases new : ref = heap.size
  · simp [alloc, get?, size, new]
  · have older : ref ≠ heap.cells.size := new
    simp [alloc, get?, size, Array.getElem?_push, older]

theorem get?_set (heap : Heap) (ref other : Ref) (cell : Cell) (inside : ref < heap.size) :
    (heap.set ref cell).get? other = if other = ref then some cell else heap.get? other := by
  have bound : ref < heap.cells.size := inside
  by_cases same : other = ref
  · simp [set, get?, same, bound]
  · simp [set, get?, same, Array.getElem?_setIfInBounds_ne (Ne.symm same)]

end Heap

/-- The values directly inside a cell. -/
def Cell.parts : Cell → List Value
  | .list items => items.toList
  | .map entries => entries.map Prod.snd
  | .inst _ fields => fields.map Prod.snd

/-- What the language calls the type of a value. An instance is named after its class. -/
def Value.typeName (heap : Heap) : Value → Name
  | .null => "null"
  | .bool _ => "boolean"
  | .number _ => "number"
  | .text _ => "string"
  | .list _ => "list"
  | .map _ => "object"
  | .inst ref => heap.className ref

/-- Zero, the empty text, the empty list, null and false are not truthy; maps and instances always
are. -/
def Value.isTruthy (heap : Heap) : Value → Bool
  | .null => false
  | .bool b => b
  | .number n => !n.isZero
  | .text s => !s.isEmpty
  | .list ref => !(heap.items ref).isEmpty
  | .map _ | .inst _ => true

end Stepwise
