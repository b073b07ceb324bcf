import Stepwise.Bindings
import Stepwise.Decimal.Read

/-!
Plain data, what a setting can be given as, and reading them written as JSON. Unlike the values of a
running program, data share nothing and cannot contain themselves. Integers stay apart from numbers
with a fraction or an exponent, the words for infinity and for what is not a number are accepted, and
of two entries with one key the later counts. Each reader gives what it read and the characters that
are left.
-/
namespace Stepwise

inductive Datum where
  | null
  | bool (b : Bool)
  | number (n : Number)
  | text (s : String)
  | list (items : List Datum)
  | map (entries : List (Name × Datum))
  deriving Inhabited

/-- Null, false, zero and whatever is empty are not truthy. -/
def Datum.isTruthy : Datum → Bool
  | .null => false
  | .bool b => b
  | .number n => !n.isZero
  | .text s => !s.isEmpty
  | .list items => !items.isEmpty
  | .map entries => !entries.isEmpty

end Stepwise

namespace Stepwise.Datum

def skipBlanks (cs : List Char) : List Char :=
  cs.dropWhile fun c => c = ' ' || c = '\t' || c = '\n' || c = '\r'

def hexDigit? (c : Char) : Option Nat :=
  if c.isDigit then some (c.toNat - '0'.toNat)
  else if 'a' ≤ c && c ≤ 'f' then some (c.toNat - 'a'.toNat + 10)
  else if 'A' ≤ c && c ≤ 'F' then some (c.toNat - 'A'.toNat + 10)
  else none

/-- Four hexadecimal digits. -/
def unit? : List Char → Option (Nat × List Char)
  | a :: b :: c :: d :: rest => do
    let a ← hexDigit? a
    let b ← hexDigit? b
    let c ← hexDigit? c
    let d ← hexDigit? d
    some (((a * 16 + b) * 16 + c) * 16 + d, rest)
  | _ => none

/-- The character behind an escaped code unit; two units may form a pair. -/
def unitChar? (cs : List Char) : Option (Char × List Char) := do
  let (unit, rest) ← unit? cs
  let single := Char.ofNat (if 0xd800 ≤ unit && unit ≤ 0xdfff then 0xfffd else unit)
  if 0xd800 ≤ unit && unit ≤ 0xdbff then
    match rest with
    | '\\' :: 'u' :: more =>
      let (low, after) ← unit? more
      if 0xdc00 ≤ low && low ≤ 0xdfff then
        some (Char.ofNat (0x10000 + (unit - 0xd800) * 0x400 + (low - 0xdc00)), after)
      else some (single, rest)
    | _ => some (single, rest)
  else some (single, rest)

def escape? : Char → Option Char
  | '"' => some '"'
  | '\\' => some '\\'
  | '/' => some '/'
  | 'b' => some (Char.ofNat 8)
  | 'f' => some (Char.ofNat 12)
  | 'n' => some '\n'
  | 'r' => some '\r'
  | 't' => some '\t'
  | _ => none

/-- A text behind its opening quote. Control characters have to be escaped. -/
def text? : Nat → List Char → List Char → Option (String × List Char)
  | 0, _, _ => none
  | fuel + 1, found, cs =>
    match cs with
    | [] => none
    | '"' :: rest => some (String.ofList found.reverse, rest)
    | '\\' :: 'u' :: rest => do
      let (c, rest) ← unitChar? rest
      text? fuel (c :: found) rest
    | '\\' :: mark :: rest => do
      let c ← escape? mark
      text? fuel (c :: found) rest
    | c :: rest => if c.toNat < 0x20 || c = '\\' then none else text? fuel (c :: found) rest

/-- A point with digits behind it. -/
def fractionPart (cs : List Char) : List Char × List Char :=
  match cs with
  | '.' :: rest =>
    let digits := rest.takeWhile Char.isDigit
    if digits.isEmpty then ([], cs) else ('.' :: digits, rest.drop digits.length)
  | _ => ([], cs)

/-- An exponent mark with an optional sign and digits behind it. -/
def exponentPart (cs : List Char) : List Char × List Char :=
  match cs with
  | mark :: rest =>
    let (sign, rest) := match rest with
      | '+' :: more => (['+'], more)
      | '-' :: more => (['-'], more)
      | _ => ([], rest)
    let digits := rest.takeWhile Char.isDigit
    if (mark = 'e' || mark = 'E') && !digits.isEmpty then
      (mark :: sign ++ digits, rest.drop digits.length)
    else ([], cs)
  | [] => ([], cs)

/-- A number: no zero stands in front of another digit. -/
def number? (cs : List Char) : Option (Datum × List Char) := do
  let (sign, rest) := match cs with
    | '-' :: rest => (['-'], rest)
    | _ => ([], cs)
  let whole := match rest with
    | '0' :: _ => ['0']
    | _ => rest.takeWhile Char.isDigit
  if whole.isEmpty then none
  else
    let (fraction, rest) := fractionPart (rest.drop whole.length)
    let (exponent, rest) := exponentPart rest
    if fraction.isEmpty && exponent.isEmpty then
      let n ← Decimal.readInt? (sign ++ whole)
      some (.number (.int n), rest)
    else
      let x ← Decimal.readFloat? (sign ++ whole ++ fraction ++ exponent)
      some (.number (.float x), rest)

/-- The words that stand for a value. -/
def words : List (List Char × Datum) :=
  [("null".toList, .null), ("true".toList, .bool true), ("false".toList, .bool false),
   ("NaN".toList, .number (.float Binary64.notANumber)),
   ("Infinity".toList, .number (.float Binary64.infinity)),
   ("-Infinity".toList, .number (.float (-Binary64.infinity)))]

def word? (cs : List Char) : Option (Datum × List Char) :=
  (words.find? fun entry => entry.1.isPrefixOf cs).map fun entry =>
    (entry.2, cs.drop entry.1.length)

mutual

def value? : Nat → List Char → Option (Datum × List Char)
  | 0, _ => none
  | fuel + 1, cs =>
    match cs with
    | '"' :: rest => (text? (rest.length + 1) [] rest).map fun (s, rest) => (.text s, rest)
    | '[' :: rest =>
      match skipBlanks rest with
      | ']' :: rest => some (.list [], rest)
      | rest => items? fuel [] rest
    | '\x7b' :: rest =>
      match skipBlanks rest with
      | '\x7d' :: rest => some (.map [], rest)
      | rest => entries? fuel [] rest
    | _ => (word? cs).or (number? cs)

/-- The items of a list from the next one on. -/
def items? : Nat → List Datum → List Char → Option (Datum × List Char)
  | 0, _, _ => none
  | fuel + 1, found, cs => do
    let (v, rest) ← value? fuel cs
    match skipBlanks rest with
    | ',' :: rest => items? fuel (v :: found) (skipBlanks rest)
    | ']' :: rest => some (.list (v :: found).reverse, rest)
    | _ => none

/-- The entries of a map from the next one on. -/
def entries? : Nat → Bindings Datum → List Char → Option (Datum × List Char)
  | 0, _, _ => none
  | fuel + 1, found, cs =>
    match cs with
    | '"' :: rest => do
      let (key, rest) ← text? (rest.length + 1) [] rest
      match skipBlanks rest with
      | ':' :: rest => do
        let (v, rest) ← value? fuel (skipBlanks rest)
        let found := found.put key v
        match skipBlanks rest with
        | ',' :: rest => entries? fuel found (skipBlanks rest)
        | '\x7d' :: rest => some (.map found, rest)
        | _ => none
      | _ => none
    | _ => none

end

/-- Reads a whole text. Each nested piece begins with a character of its own, which bounds the
reading. -/
def ofJson? (cs : List Char) : Option Datum :=
  match value? (cs.length + 1) (skipBlanks cs) with
  | some (v, rest) => if (skipBlanks rest).isEmpty then some v else none
  | none => none

end Stepwise.Datum
