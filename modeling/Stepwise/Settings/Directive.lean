import Stepwise.Datum
import Stepwise.Fault
import Stepwise.Settings
import Stepwise.Text.Case
import Stepwise.Text.Pieces

/-!
Settings given in a program's own comments. A directive stands in a comment near the top of the
source, as a JSON object or as a list of `name=value` pairs. What is not understood is ignored.
-/
namespace Stepwise

abbrev Flags := Bindings Datum

namespace Flags

/-- How many lines of a source are searched. -/
def searchedLines : Nat := 25

/-- What makes a comment a directive. -/
def marker : List Char := "@minipy".toList

/-- The text of a directive, if a line holds one. The marker may be written with capital letters as
long as it also stands somewhere in small ones. -/
def directive? (line : List Char) : Option (List Char) :=
  let line := Text.trim line
  if line.head? ≠ some '#' || (Text.index? marker line).isNone then none
  else
    let body := Text.trim (line.dropWhile (· = '#'))
    if marker.isPrefixOf (Text.lowerAfter [] body) then
      let body := Text.trim (body.drop marker.length)
      match body with
      | ':' :: rest => some (Text.trim rest)
      | _ => some body
    else none

/-- What stands between a pair of quotes of one kind. A quote alone is both of the pair. -/
def unquote? (cs : List Char) : Option (List Char) :=
  match cs.head?, cs.getLast? with
  | some '"', some '"' | some '\'', some '\'' => some (cs.drop 1).dropLast
  | _, _ => none

/-- A value without quotes is a truth value or a number if it can be read as one. -/
def valueOf (cs : List Char) : Datum :=
  let word := String.ofList (Text.lowerAfter [] cs)
  if ["true", "yes", "on"].contains word then .bool true
  else if ["false", "no", "off"].contains word then .bool false
  else
    let number :=
      if cs.contains '.' then (Decimal.readFloat? cs).map Number.float
      else (Decimal.readInt? cs).map Number.int
    match number with
    | some n => .number n
    | none => .text (String.ofList ((unquote? cs).getD cs))

/-- Adds the pairs of a directive; parts without an equals sign are skipped. -/
def addPairs (flags : Flags) (body : List Char) : Flags :=
  let parts := (Text.splitAtChar ';' [] body).flatMap (Text.splitAtChar ',' [])
  parts.foldl (fun flags part =>
    match part.dropWhile (· ≠ '=') with
    | [] => flags
    | _ :: value =>
      let name := String.ofList (Text.trim (part.takeWhile (· ≠ '=')))
      flags.put name (valueOf (Text.trim value))) flags

def addDirective (flags : Flags) (body : List Char) : Flags :=
  if body.head? = some '\x7b' then
    match Datum.ofJson? body with
    | some (.map entries) => flags.update entries
    | _ => flags
  else flags.addPairs body

/-- The flags that the directives of a source set; later ones win. -/
def ofSource (source : String) : Flags :=
  let lines := (Text.wideLines source).take searchedLines
  (lines.filterMap directive?).foldl addDirective []

end Flags

namespace Settings

/-- A positive number as a limit: its whole part, which may be zero. Other data set no limit. -/
def limit? : Datum → Except HostFailure (Option Int)
  | .number (.int n) => .ok (if 0 < n then some n else none)
  | .number (.float x) =>
    if 0.0 < x then
      if Binary64.isFinite x then .ok (some (Binary64.truncate x)) else .error .overflow
    else .ok none
  | _ => .ok none

/-- Applies one flag. Names that are not settings are ignored. -/
def applyFlag (settings : Settings) (name : Name) (datum : Datum) :
    Except HostFailure Settings :=
  let withLimit (change : Int → Settings) : Except HostFailure Settings := do
    return ((← limit? datum).map change).getD settings
  match name with
  | .text "max_steps" => withLimit fun n => { settings with maxSteps := some n }
  | .text "max_history_size" => withLimit fun n => { settings with historySize := n }
  | .text "eval_max_steps" => withLimit fun n => { settings with evaluationSteps := n }
  | .text "max_call_depth" => withLimit fun n => { settings with callDepth := n }
  | .text "debug" => .ok { settings with debug := datum.isTruthy }
  | _ => .ok settings

def ofFlags (flags : Flags) (base : Settings) : Except HostFailure Settings :=
  flags.foldlM (fun settings flag => settings.applyFlag flag.1 flag.2) base

def ofSource (source : String) (base : Settings) : Except HostFailure Settings :=
  ofFlags (Flags.ofSource source) base

end Settings

end Stepwise
