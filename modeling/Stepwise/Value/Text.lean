import Stepwise.Value.Copy

/-!
The texts of a value: as shown by `print`, as made by `str`, and in literal form. A value that
contains itself has no text of the first two kinds; following it is a host failure.
-/
namespace Stepwise

namespace Value

/-- How lists are shown. -/
inductive ListStyle where
  | bare
  | bracketed
  deriving DecidableEq

def ListStyle.join (style : ListStyle) (parts : List String) : String :=
  match style with
  | .bare => String.intercalate "," parts
  | .bracketed => "[" ++ String.intercalate ", " parts ++ "]"

/-- The fault for a number that cannot be represented or shown. -/
def tooLarge {α : Type} : Except Failure α :=
  complain "Number too large" (some "Keep numbers within the range a float can hold.")

def numberText (n : Number) : Except Failure String :=
  match n.text? with
  | some shown => .ok shown
  | none => tooLarge

/-- The text of a value below the cells of `path`. Cells on a path differ, so their number bounds
the depth. -/
def format (style : ListStyle) (heap : Heap) : Nat → List Ref → Value → Except Failure String
  | _, _, .null => .ok "null"
  | _, _, .bool b => .ok (if b then "true" else "false")
  | _, _, .number n => numberText n
  | _, _, .text s => .ok s
  | 0, _, _ => .error (.host .endless)
  | fuel + 1, path, .list ref =>
    if path.contains ref then .error (.host .endless)
    else do
      return style.join (← (heap.items ref).toList.mapM (format style heap fuel (ref :: path)))
  | fuel + 1, path, .map ref =>
    if path.contains ref then .error (.host .endless)
    else do
      let parts ← (heap.entries ref).mapM fun (key, v) => do
        let key ← written key.plain?
        return s!"{key}: {← format style heap fuel (ref :: path) v}"
      return "\x7b" ++ String.intercalate ", " parts ++ "\x7d"
  | fuel + 1, path, .inst ref =>
    if path.contains ref then .error (.host .endless)
    else do
      let parts ← (heap.fields ref).mapM fun (key, v) => do
        let key ← written key.plain?
        return s!"{key}: {← format style heap fuel (ref :: path) v}"
      return s!"<{heap.className ref} \x7b" ++ String.intercalate ", " parts ++ "\x7d>"

/-- The text shown by `print` and used when texts are joined. -/
def display (heap : Heap) (v : Value) : Except Failure String :=
  format .bare heap (heap.size + 1) [] v

/-- The text made by `str`. -/
def toText (heap : Heap) (v : Value) : Except Failure String :=
  format .bracketed heap (heap.size + 1) [] v

/-- Keys of maps are texts: any other value is shown. -/
def key (heap : Heap) : Value → Except Failure String
  | .text s => .ok s
  | v => display heap v

/-- Several values in one line, with blanks between them. -/
def line (heap : Heap) (vs : List Value) : Except Failure String := do
  return String.intercalate " " (← vs.mapM (display heap))

/-- The literal form of a value below the cells of `path`, where a value inside itself is
abbreviated. -/
def spellFrom (heap : Heap) : Nat → List Ref → Value → String
  | _, _, .null => Scalar.null.literal
  | _, _, .bool b => (Scalar.bool b).literal
  | _, _, .number n => n.literal
  | _, _, .text s => Text.quoted s
  | 0, _, _ => "..."
  | fuel + 1, path, .list ref =>
    if path.contains ref then "[...]"
    else
      let parts := (heap.items ref).toList.map (spellFrom heap fuel (ref :: path))
      "[" ++ String.intercalate ", " parts ++ "]"
  | fuel + 1, path, .map ref =>
    if path.contains ref then "\x7b...\x7d"
    else
      let parts := (heap.entries ref).map fun (key, v) =>
        key.literal ++ ": " ++ spellFrom heap fuel (ref :: path) v
      "\x7b" ++ String.intercalate ", " parts ++ "\x7d"
  | fuel + 1, path, .inst ref =>
    if path.contains ref then "..."
    else
      let parts := (heap.fields ref).map fun (key, v) =>
        key.literal ++ ": " ++ spellFrom heap fuel (ref :: path) v
      s!"Instance({(heap.className ref).literal}, " ++
        "\x7b" ++ String.intercalate ", " parts ++ "\x7d)"

/-- The literal form of a value, however many digits its numbers have. -/
def spelling (heap : Heap) (v : Value) : String := spellFrom heap (heap.size + 1) [] v

/-- Whether a value without parts keeps within the digit limit. -/
def isWritable (v : Value) : Bool := v.scalar?.all Scalar.isWritable

end Value

/-- Whether everything directly inside a cell keeps within the digit limit. -/
def Cell.isWritable : Cell → Bool
  | .list items => items.all Value.isWritable
  | .map entries | .inst _ entries =>
    entries.all fun (key, v) => key.isWritable && v.isWritable

namespace Value

/-- Whether a value and all that it leads to keep within the digit limit. -/
def fits (heap : Heap) (v : Value) : Bool :=
  match v.ref? with
  | none => v.isWritable
  | some _ => (heap.reachable [v]).all fun ref => (heap.get? ref).all Cell.isWritable

def spelled (heap : Heap) (v : Value) : Spelled := ⟨v.spelling heap, v.fits heap⟩

def literal (heap : Heap) (v : Value) : Except Failure String :=
  written (if v.fits heap then some (v.spelling heap) else none)

/-- The literal form, but a text stands for itself. -/
def plain (heap : Heap) : Value → Except Failure String
  | .text s => .ok s
  | v => literal heap v

end Value

end Stepwise
