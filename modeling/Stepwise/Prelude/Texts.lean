import Stepwise.Prelude.Arguments
import Stepwise.Text.Scripts
import Stepwise.Text.Case
import Stepwise.Text.Pieces

/-!
Builtin functions on texts and the conversion to text.
-/
namespace Stepwise.Prelude

def toText (heap : Heap) (args : List Value) : Except Failure Value := do
  arity "str" args 1 1
  return .text (← Value.toText heap (arg args 0))

def upper (heap : Heap) (args : List Value) : Except Failure Value := do
  arity "upper" args 1 1
  return .text (Text.upper (← wantText "upper" heap (arg args 0)))

def lower (heap : Heap) (args : List Value) : Except Failure Value := do
  arity "lower" args 1 1
  return .text (Text.lower (← wantText "lower" heap (arg args 0)))

def strip (heap : Heap) (args : List Value) : Except Failure Value := do
  arity "strip" args 1 1
  return .text (Text.trimText (← wantText "strip" heap (arg args 0)))

/-- The pieces of a text: its words, or what stands between separators. -/
def pieces (heap : Heap) (args : List Value) : Except Failure (List String) := do
  arity "split" args 1 2 (some "split(text) or split(text, separator)")
  let whole ← wantText "split" heap (arg args 0) "first argument"
  if args.length = 1 then return (Text.words whole.toList).map String.ofList
  else
    let sep ← wantText "split" heap (arg args 1) "second argument"
    return (Text.split sep.toList whole.toList).map String.ofList

def split (heap : Heap) (args : List Value) : Except Failure (Value × Heap) := do
  return heap.newList ((← pieces heap args).map Value.text).toArray

def join (heap : Heap) (args : List Value) : Except Failure Value := do
  arity "join" args 1 2 (some "join(list) or join(list, separator)")
  let ref ← wantList "join" heap (arg args 0) "first argument"
  let sep ← if args.length = 2 then Value.display heap (arg args 1) else pure ""
  return .text (String.intercalate sep (← (heap.items ref).toList.mapM (Value.toText heap)))

def replace (heap : Heap) (args : List Value) : Except Failure Value := do
  arity "replace" args 3 3 (some "replace(text, old, new)")
  let whole ← wantText "replace" heap (arg args 0) "every argument"
  let old ← wantText "replace" heap (arg args 1) "every argument"
  let new ← wantText "replace" heap (arg args 2) "every argument"
  return .text (String.ofList (Text.replace old.toList new.toList whole.toList))

/-- A question about a text and a part of it. -/
def onPart (name usage : String) (ask : List Char → List Char → Value) (heap : Heap)
    (args : List Value) : Except Failure Value := do
  arity name args 2 2 (some usage)
  let whole ← wantText name heap (arg args 0)
  let part ← wantText name heap (arg args 1)
  return ask whole.toList part.toList

def find : Heap → List Value → Except Failure Value :=
  onPart "find" "find(text, part)" fun whole part =>
    match Text.index? part whole with
    | some i => .int i
    | none => .int (-1)

def startsWith : Heap → List Value → Except Failure Value :=
  onPart "startswith" "startswith(text, prefix)" fun whole part =>
    .bool (part.isPrefixOf whole)

def endsWith : Heap → List Value → Except Failure Value :=
  onPart "endswith" "endswith(text, suffix)" fun whole part => .bool (part.isSuffixOf whole)

end Stepwise.Prelude
