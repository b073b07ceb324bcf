import Stepwise.Tree
import Stepwise.Tree.Cursor

/-!
Expressions, from the loosest binding to the tightest:

  or, and, not, comparison, sum, term, minus, power, suffixes, atom

Each level takes the parser of the next one; `whole` is the parser for the expressions inside
brackets. Every repetition passes at least one token, so the tokens that remain bound it.
-/
namespace Stepwise.Parser

open Token (Kind)

def tokenPos (token : Token) : Pos := ⟨token.line, token.column⟩

def comparisonOp : Kind → Option BinaryOp
  | .eq => some .eq
  | .neq => some .ne
  | .lt => some .lt
  | .gt => some .gt
  | .lte => some .le
  | .gte => some .ge
  | .kwIn => some .isIn
  | _ => none

def sumOp : Kind → Option BinaryOp
  | .plus => some .add
  | .minus => some .sub
  | _ => none

def termOp : Kind → Option BinaryOp
  | .multiply => some .mul
  | .divide => some .div
  | .modulo => some .mod
  | .floorDiv => some .floorDiv
  | _ => none

def orOp : Kind → Option BinaryOp
  | .kwOr => some .or
  | _ => none

def andOp : Kind → Option BinaryOp
  | .kwAnd => some .and
  | _ => none

/-- Operators of one level behind a left operand; they group to the left. -/
def leftTail (op? : Kind → Option BinaryOp) (operand : Parser Expr) : Nat → Expr → Parser Expr
  | 0, left => return left
  | fuel + 1, left => do
    match op? (← kind) with
    | none => return left
    | some op =>
      let _ ← advance
      let right ← operand
      leftTail op? operand fuel (.binary left.pos op left right)

def leftLevel (op? : Kind → Option BinaryOp) (operand : Parser Expr) : Parser Expr := do
  let left ← operand
  leftTail op? operand (← remaining) left

def arguments (whole : Parser Expr) : Parser (List Expr) :=
  listUntil .rparen (some "Close the argument list with ')'.") whole

/-- An entry of a record. A key is a name or a string. -/
def recordEntry (whole : Parser Expr) : Parser (Constant × Expr) := do
  let token ← current
  if token.kind = .identifier || token.kind = .string then
    let _ ← advance
    let _ ← expect .colon
    return (token.literal, ← whole)
  else
    fail "Object keys must be names or strings"
      (some "Use \x7bname: value\x7d or \x7b\"name\": value\x7d.")

def atom (whole : Parser Expr) : Parser Expr := do
  let token ← current
  let pos := tokenPos token
  match token.kind with
  | .number => let _ ← advance; return .literal pos .number token.literal
  | .string => let _ ← advance; return .literal pos .string token.literal
  | .kwTrue => let _ ← advance; return .literal pos .boolean (.scalar (.bool true))
  | .kwFalse => let _ ← advance; return .literal pos .boolean (.scalar (.bool false))
  | .lparen =>
    let _ ← advance
    let e ← whole
    let _ ← expect .rparen (some "Every '(' needs a matching ')'.")
    return e
  | .lbracket =>
    let _ ← advance
    return .list pos (← listUntil .rbracket (some "Close the list with ']'.") whole)
  | .lbrace =>
    let _ ← advance
    return .record pos
      (← listUntil .rbrace (some "Close the object with '\x7d'.") (recordEntry whole))
  | .identifier =>
    let _ ← advance
    let name := token.literal
    if ← accept .lparen then return .call pos name (← arguments whole)
    else return .var pos name
  | .kwRange =>
    fail "range() can only be used in a for loop" (some "Write: for i in range(10):")
  | _ => fail s!"Unexpected {← describe token}" (some "Check the syntax of this line.")

/-- An index or a slice, behind the opening bracket. -/
def subscript (whole : Parser Expr) (object : Expr) : Parser Expr := do
  let slice (start : Option Expr) : Parser Expr := do
    let _ ← expect .colon
    let stop ← if ← at? .rbracket then pure none else some <$> whole
    let _ ← expect .rbracket (some "Close the index with ']'.")
    return .slice object.pos object start stop
  if ← at? .colon then slice none
  else
    let position ← whole
    if ← accept .rbracket then return .index object.pos object position
    else slice (some position)

/-- Indexes, slices, members and method calls behind an expression. -/
def suffixes (whole : Parser Expr) : Nat → Expr → Parser Expr
  | 0, e => return e
  | fuel + 1, e => do
    if ← accept .lbracket then suffixes whole fuel (← subscript whole e)
    else if ← accept .dot then
      let name ← expectName (some "Write a member or method name after '.'.")
      if ← accept .lparen then suffixes whole fuel (.invoke e.pos e name (← arguments whole))
      else suffixes whole fuel (.member e.pos e name)
    else return e

def suffixed (whole : Parser Expr) : Parser Expr := do
  let e ← atom whole
  suffixes whole (← remaining) e

/-- Minus signs and powers. A power groups to the right, and its exponent may carry a sign. -/
def signed (whole : Parser Expr) : Nat → Parser Expr
  | 0 => suffixed whole
  | fuel + 1 => do
    if ← at? .minus then
      let token ← advance
      return .unary (tokenPos token) .neg (← signed whole fuel)
    else
      let base ← suffixed whole
      if ← accept .power then return .binary base.pos .pow base (← signed whole fuel)
      else return base

def term (whole : Parser Expr) : Parser Expr :=
  leftLevel termOp (do signed whole (← remaining))

def sum (whole : Parser Expr) : Parser Expr := leftLevel sumOp (term whole)

def comparison (whole : Parser Expr) : Parser Expr := leftLevel comparisonOp (sum whole)

def negation (whole : Parser Expr) : Nat → Parser Expr
  | 0 => comparison whole
  | fuel + 1 => do
    if ← at? .kwNot then
      let token ← advance
      return .unary (tokenPos token) .not (← negation whole fuel)
    else comparison whole

def conjunction (whole : Parser Expr) : Parser Expr :=
  leftLevel andOp (do negation whole (← remaining))

def disjunction (whole : Parser Expr) : Parser Expr := leftLevel orOp (conjunction whole)

/-- An expression with at most `depth` levels of brackets. -/
def nested : Nat → Parser Expr
  | 0 => disjunction (fail "Unexpected nesting")
  | depth + 1 => disjunction (nested depth)

/-- An expression. Every level of brackets takes a token, so the tokens that remain bound the
depth. -/
def expression : Parser Expr := do nested (← remaining)

end Stepwise.Parser
