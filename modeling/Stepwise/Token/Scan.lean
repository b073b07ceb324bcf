import Stepwise.Fault
import Stepwise.Token

/-!
Scanning. The text, with line feeds only, is consumed from the left; the scanner remembers its
place, the widths of the open blocks and the kind of the last token. At the start of a line it
compares the indentation of the next line that is neither blank nor a comment with the open blocks;
elsewhere it reads one token.
-/
namespace Stepwise

/-- A place in a text, counted from one. -/
structure Place where
  line : Nat
  column : Nat
  deriving DecidableEq, Inhabited

/-- The place behind a character that stands here. -/
def Place.after (place : Place) (c : Char) : Place :=
  if c = '\n' then ⟨place.line + 1, 1⟩ else ⟨place.line, place.column + 1⟩

def Place.afterAll (place : Place) (cs : List Char) : Place := cs.foldl Place.after place

structure Scanner where
  rest : List Char
  place : Place
  /-- Widths of the open blocks, the innermost first; the program itself has width zero. -/
  blocks : List Nat
  atLineStart : Bool
  last : Option Token.Kind
  filename : String

namespace Scanner

open Token (Kind)

def start (source filename : String) : Scanner where
  rest := Text.normalized source
  place := ⟨1, 1⟩
  blocks := []
  atLineStart := true
  last := none
  filename := filename

def tokenAt (place : Place) (kind : Kind) (literal : Scalar) : Token :=
  { kind, literal := .scalar literal, line := some place.line, column := some place.column }

def faultAt (s : Scanner) (place : Place) (message : String) (suggestion : String) : Failure :=
  .fault { phase := .reading, message, line := some place.line, column := some place.column,
           suggestion := some suggestion, filename := s.filename }

/-- The indentation of the next line with code, its place, and the text from its first character.
Blank lines and comments start the count again. -/
def skipLayout (inComment : Bool) (width : Nat) (place : Place) :
    List Char → Nat × Place × List Char
  | [] => (width, place, [])
  | c :: cs =>
    if c = '\n' then skipLayout false 0 (place.after c) cs
    else if inComment then skipLayout true 0 (place.after c) cs
    else if c = ' ' then skipLayout false (width + 1) (place.after c) cs
    else if c = '\t' then skipLayout false (width + Token.tabWidth) (place.after c) cs
    else if c = '#' then skipLayout true 0 (place.after c) cs
    else (width, place, c :: cs)

/-- Opens or closes blocks for a line of the given indentation. -/
def layout (s : Scanner) : Except Failure (List Token × Scanner) :=
  let (width, place, rest) := skipLayout false 0 s.place s.rest
  let s := { s with rest, place, atLineStart := false }
  let current := s.blocks.headD 0
  if rest.isEmpty || width = current then .ok ([], s)
  else if current < width then
    .ok ([tokenAt place .indent .null],
      { s with blocks := width :: s.blocks, last := some .indent })
  else
    let still := s.blocks.dropWhile (width < ·)
    let closed := s.blocks.length - still.length
    if still.headD 0 = width then
      .ok (List.replicate closed (tokenAt place .dedent .null),
        { s with blocks := still, last := some .dedent })
    else
      .error (s.faultAt place "Indentation does not match any outer block"
        ("Line this statement up with the block it belongs to; " ++
          "every level should use the same number of spaces."))

/-- At the end of the text the open blocks are closed. -/
def finish (s : Scanner) : List Token :=
  List.replicate s.blocks.length (tokenAt s.place .dedent .null) ++ [tokenAt s.place .eof .null]

/-- The scanner behind the first `length` characters, having read one token. -/
def take (s : Scanner) (length : Nat) (kind : Kind) (literal : Scalar) :
    Except Failure (List Token × Scanner) :=
  let read := s.rest.take length
  .ok ([tokenAt s.place kind literal],
    { s with rest := s.rest.drop length, place := s.place.afterAll read, last := some kind })

/-- The scanner behind the first `length` characters, having read no token. -/
def skip (s : Scanner) (length : Nat) : Except Failure (List Token × Scanner) :=
  .ok ([], { s with rest := s.rest.drop length, place := s.place.afterAll (s.rest.take length) })

/-- The digits of a numeral and those of its fraction. A point belongs to the numeral only if a
digit follows it. -/
def numeral (cs : List Char) : List Char × List Char :=
  let whole := cs.takeWhile Char.isDigit
  match cs.drop whole.length with
  | '.' :: rest => (whole, rest.takeWhile Char.isDigit)
  | _ => (whole, [])

def number (s : Scanner) : Except Failure (List Token × Scanner) :=
  let (whole, fraction) := numeral s.rest
  if fraction.isEmpty then
    if Decimal.digitLimit < whole.length then .error (.host .digitLimit)
    else s.take whole.length .number (.number (.int (Decimal.numeral (Decimal.digitsOf whole))))
  else
    let x := Decimal.ofDecimal (Decimal.digitsOf (whole ++ fraction)) (-fraction.length)
    s.take (whole.length + 1 + fraction.length) .number (.number (.float x))

/-- The contents of a string literal and its length with the closing quote, from the text behind the
opening one. The literal ends on its own line or not at all. -/
def stringBody (quote : Char) : List Char → Option (List Char × Nat)
  | [] => none
  | '\n' :: _ => none
  | '\\' :: [] => none
  | '\\' :: c :: cs =>
    if c = '\n' then none
    else (stringBody quote cs).map fun (body, length) => (Token.unescape c :: body, length + 2)
  | c :: cs =>
    if c = quote then some ([], 1)
    else (stringBody quote cs).map fun (body, length) => (c :: body, length + 1)

def string (s : Scanner) (quote : Char) (cs : List Char) :
    Except Failure (List Token × Scanner) :=
  match stringBody quote cs with
  | some (body, length) => s.take (length + 1) .string (.text (String.ofList body))
  | none =>
    .error (s.faultAt s.place "Unterminated string literal"
      s!"Add a closing {quote} at the end of the string.")

/-- The fault for a character that starts no token. -/
def stranger (s : Scanner) (c : Char) : Failure :=
  match Token.fullWidthSigns.lookup c with
  | some meant =>
    s.faultAt s.place s!"Unexpected full-width character '{c}'"
      s!"Switch to an English keyboard and type '{meant}' instead."
  | none => s.faultAt s.place s!"Unexpected character '{c}'" (Token.strangerHint c)

/-- Reads one token, or passes over a blank, a comment or the end of a line. -/
def word (s : Scanner) (c : Char) (cs : List Char) : Except Failure (List Token × Scanner) :=
  if c = ' ' || c = '\t' then s.skip 1
  else if c = '#' then s.skip (s.rest.takeWhile (· ≠ '\n')).length
  else if c = '\n' then
    let ended := { s with rest := cs, place := s.place.after c, atLineStart := true }
    if s.last.isNone || s.last = some .newline then .ok ([], ended)
    else .ok ([tokenAt s.place .newline .null], { ended with last := some .newline })
  else match cs.head?.bind fun d => Token.twoCharOperators.lookup (c, d) with
    | some kind => s.take 2 kind (.text (String.ofList (s.rest.take 2)))
    | none =>
      match Token.oneCharSigns.lookup c with
      | some kind => s.take 1 kind (.text (String.ofList [c]))
      | none =>
        if c.isDigit then s.number
        else if c = '"' || c = '\'' then s.string c cs
        else if Token.isNameStart c then
          let name := s.rest.takeWhile Token.isNamePart
          s.take name.length (Token.wordKind (String.ofList name)) (.text (String.ofList name))
        else .error (s.stranger c)

/-- One move of the scanner: the tokens it yields, and the scanner that goes on unless the text has
ended. -/
def advance (s : Scanner) : Except Failure (List Token × Option Scanner) :=
  if s.atLineStart then s.layout.map fun (tokens, s) => (tokens, some s)
  else match s.rest with
    | [] => .ok (s.finish, none)
    | c :: cs => (s.word c cs).map fun (tokens, s) => (tokens, some s)

/-- Moves until the text ends or a fault stops the scan. `found` holds the tokens so far, the latest
first. -/
def run : Nat → Scanner → List Token → List Token × Option Failure
  | 0, _, found => (found.reverse, none)
  | fuel + 1, s, found =>
    match s.advance with
    | .error failure => (found.reverse, some failure)
    | .ok (tokens, none) => ((tokens.reverse ++ found).reverse, none)
    | .ok (tokens, some s) => run fuel s (tokens.reverse ++ found)

/-- Every move but those at a line start consumes a character, and there are no two line starts
without a line feed between them. -/
def moves (s : Scanner) : Nat := 2 * s.rest.length + 3

end Scanner

namespace Token

/-- The tokens before the end of the text, or before the fault that stopped the scan. -/
def scan (source : String) (filename : String) : List Token × Option Failure :=
  let s := Scanner.start source filename
  Scanner.run s.moves s []

/-- The tokens of a text; the last one marks its end. -/
def tokenize (source : String) (filename : String) : Except Failure (List Token) :=
  match scan source filename with
  | (tokens, none) => .ok tokens
  | (_, some failure) => .error failure

end Token

end Stepwise
