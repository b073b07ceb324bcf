import Stepwise.Fault
import Stepwise.Token

/-!
Reading tokens from the left. A cursor always stands on a token, and never moves past one that marks
the end, so no parser can read outside the tokens it was given.
-/
namespace Stepwise

structure Cursor where
  current : Token
  rest : List Token
  filename : String

/-- The cursor on the first token. An end mark is added behind tokens that lack one, at the place of
the last of them. -/
def Cursor.start (tokens : List Token) (filename : String) : Cursor :=
  let closed := match tokens.getLast? with
    | none => [⟨.eof, .scalar .null, some 1, some 1⟩]
    | some last =>
      if last.kind = .eof then tokens else tokens ++ [⟨.eof, .scalar .null, last.line, last.column⟩]
  match closed with
  | [] => ⟨⟨.eof, .scalar .null, some 1, some 1⟩, [], filename⟩
  | token :: rest => ⟨token, rest, filename⟩

/-- The cursor on the next token; at an end mark it stays. -/
def Cursor.next (c : Cursor) : Cursor :=
  if c.current.kind = .eof then c
  else match c.rest with
    | [] => c
    | token :: rest => { c with current := token, rest }

/-- A reader of tokens. Naming a token in a fault can fail in the host. -/
abbrev Parser := StateT Cursor (Except Failure)

namespace Parser

open Token (Kind)

def current : Parser Token := return (← get).current

def kind : Parser Kind := return (← get).current.kind

def at? (k : Kind) : Parser Bool := return (← get).current.kind == k

/-- Moves on and gives the token that was left behind. -/
def advance : Parser Token := do
  let token ← current
  modify Cursor.next
  return token

/-- Moves over a token of the given kind, if the cursor stands on one. -/
def accept (k : Kind) : Parser Bool := do
  if ← at? k then
    let _ ← advance
    return true
  else return false

/-- A bound on how many more tokens can be passed. -/
def remaining : Parser Nat := return (← get).rest.length + 1

/-- How a token is named in a fault. -/
def describe (token : Token) : Parser String :=
  match token.kind with
  | .eof => return "end of file"
  | .newline => return "end of line"
  | .indent => return "extra indentation"
  | .dedent => return "end of block"
  | kind => match token.literal with
    | .scalar .null => return kind.name
    | literal => return s!"'{← written literal.plain?}'"

def failAt {α : Type} (token : Token) (message : String) (suggestion : Option String := none) :
    Parser α := do
  throw (.fault
    { phase := .reading, message, line := token.line, column := token.column, suggestion,
      filename := (← get).filename })

def fail {α : Type} (message : String) (suggestion : Option String := none) : Parser α := do
  failAt (← current) message suggestion

/-- How a kind is named when it is missing. -/
def expectedName : Kind → String
  | .colon => "\":\""
  | .lparen => "\"(\""
  | .rparen => "\")\""
  | .rbracket => "\"]\""
  | .rbrace => "\"\x7d\""
  | .identifier => "a name"
  | .newline => "a line break"
  | .indent => "an indented block"
  | .kwTimes => "\"times\" (or \"次\")"
  | .kwIn => "\"in\" (or \"在\")"
  | kind => kind.name

def expect (k : Kind) (suggestion : Option String := none) : Parser Token := do
  if ← at? k then advance
  else
    let found ← describe (← current)
    fail s!"Expected {expectedName k} but found {found}" suggestion

/-- The name in a token that is one. -/
def expectName (suggestion : Option String := none) : Parser Constant := do
  return (← expect .identifier suggestion).literal

/-- Items separated by commas, at least one. -/
def commaSeparated {α : Type} (item : Parser α) : Nat → Parser (List α)
  | 0 => return []
  | fuel + 1 => do
    let first ← item
    if ← accept .comma then return first :: (← commaSeparated item fuel)
    else return [first]

/-- Items separated by commas up to a closing token, possibly none. -/
def listUntil {α : Type} (close : Kind) (suggestion : Option String) (item : Parser α) :
    Parser (List α) := do
  let items ← if ← at? close then pure [] else commaSeparated item (← remaining)
  let _ ← expect close suggestion
  return items

end Parser

end Stepwise
