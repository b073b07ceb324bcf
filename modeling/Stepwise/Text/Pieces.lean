/-!
Texts in pieces. Parts of a text are found, split off and replaced from left to right and without
overlap. Programs use line feeds only: the other two conventions are brought to that form before
scanning. Directives are looked for in a wider notion of line.
-/
namespace Stepwise.Text

/-- The position of the first occurrence of `part`, counted from `position`. -/
def indexFrom (part : List Char) (position : Nat) : List Char → Option Nat
  | [] => if part.isEmpty then some position else none
  | c :: cs =>
    if part.isPrefixOf (c :: cs) then some position else indexFrom part (position + 1) cs

def index? (part whole : List Char) : Option Nat := indexFrom part 0 whole

/-- The pieces of a text between occurrences of a separator that is not empty. `skip` counts the
characters of the last occurrence that are still to be passed over. -/
def splitFrom (sep : List Char) : Nat → List Char → List (List Char)
  | _, [] => [[]]
  | skip + 1, _ :: cs => splitFrom sep skip cs
  | 0, c :: cs =>
    if sep.isPrefixOf (c :: cs) then [] :: splitFrom sep (sep.length - 1) cs
    else match splitFrom sep 0 cs with
      | piece :: pieces => (c :: piece) :: pieces
      | [] => [[c]]

/-- An empty separator cuts between any two characters. -/
def split (sep whole : List Char) : List (List Char) :=
  if sep.isEmpty then whole.map fun c => [c] else splitFrom sep 0 whole

/-- An empty `old` occurs before every character and at the end. -/
def replace (old new whole : List Char) : List Char :=
  if old.isEmpty then new ++ whole.flatMap fun c => c :: new
  else List.intercalate new (splitFrom old 0 whole)

/-- A carriage return with its line feed, or alone, becomes one line feed. -/
def normalizeBreaks : List Char → List Char
  | [] => []
  | '\r' :: '\n' :: cs => '\n' :: normalizeBreaks cs
  | '\r' :: cs => '\n' :: normalizeBreaks cs
  | c :: cs => c :: normalizeBreaks cs

/-- A carriage return before a line feed is dropped; one that stands alone is kept. -/
def dropPairedReturns : List Char → List Char
  | [] => []
  | '\r' :: '\n' :: cs => '\n' :: dropPairedReturns cs
  | c :: cs => c :: dropPairedReturns cs

/-- The text as the scanner reads it: line feeds only, and one at the end. -/
def normalized (source : String) : List Char :=
  let cs := normalizeBreaks source.toList
  if cs.getLast? = some '\n' then cs else cs ++ ['\n']

/-- The stretches between occurrences of `sep`; there is one more than there are occurrences.
`piece` holds the characters of the current stretch, the latest first. -/
def splitAtChar (sep : Char) (piece : List Char) : List Char → List (List Char)
  | [] => [piece.reverse]
  | c :: cs =>
    if c = sep then piece.reverse :: splitAtChar sep [] cs else splitAtChar sep (c :: piece) cs

/-- Characters that end a line in the wide sense. -/
def isLineBreak (c : Char) : Bool :=
  let n := c.toNat
  (0x0a ≤ n && n ≤ 0x0d) || (0x1c ≤ n && n ≤ 0x1e) || n == 0x85 || n == 0x2028 || n == 0x2029

/-- Lines in the wide sense, without their breaks. A break at the very end starts no further
line. -/
def wideLinesFrom (line : List Char) : List Char → List (List Char)
  | [] => if line.isEmpty then [] else [line.reverse]
  | '\r' :: '\n' :: cs => line.reverse :: wideLinesFrom [] cs
  | c :: cs =>
    if isLineBreak c then line.reverse :: wideLinesFrom [] cs else wideLinesFrom (c :: line) cs

def wideLines (source : String) : List (List Char) := wideLinesFrom [] source.toList

end Stepwise.Text
