import Stepwise.Tree.Expression
import Stepwise.Token.Scan

/-!
Statements, blocks and whole programs. A block is a line break, an indentation, at least one
statement, and the end of the indentation.
-/
namespace Stepwise.Parser

open Token (Kind)

/-- Passes the end of a statement. The end of a block or of the program ends it as well. -/
def endOfStatement : Parser Unit := do
  if (← at? .eof) || (← at? .dedent) then return
  else if ← accept .newline then return
  else
    let found ← describe (← current)
    fail s!"Unexpected {found} after the end of the statement"
      (some "Put each statement on its own line.")

def skipNewlinesUpTo : Nat → Parser Unit
  | 0 => return
  | fuel + 1 => do
    if ← accept .newline then skipNewlinesUpTo fuel

def skipNewlines : Parser Unit := do skipNewlinesUpTo (← remaining)

/-- Items up to the end of a block or of the program, with empty lines after each. -/
def itemsUpTo {α : Type} (item : Parser α) : Nat → Parser (List α)
  | 0 => return []
  | fuel + 1 => do
    if (← at? .dedent) || (← at? .eof) then return []
    else
      let first ← item
      skipNewlines
      return first :: (← itemsUpTo item fuel)

def colon : Parser Unit := do
  let _ ← expect .colon (some "Compound statements end with a ':' before the block.")

def block (statement : Parser Stmt) : Parser (List Stmt) := do
  let _ ← expect .newline (some "Start the block on a new line after the ':'.")
  if ← at? .indent then
    let _ ← advance
    let statements ← itemsUpTo statement (← remaining)
    let _ ← accept .dedent
    if statements.isEmpty then
      fail "Block cannot be empty" (some "Indent at least one statement under the ':' line.")
    else return statements
  else
    fail "Block cannot be empty"
      (some ("Indent at least one statement under the ':' line " ++
        "(use pass if there is nothing to do)."))

def elifsUpTo (statement : Parser Stmt) : Nat → Parser (List Elif)
  | 0 => return []
  | fuel + 1 => do
    if ← at? .kwElif then
      let token ← advance
      let test ← expression
      colon
      let body ← block statement
      return .mk (tokenPos token) test body :: (← elifsUpTo statement fuel)
    else return []

def branch (statement : Parser Stmt) : Parser Stmt := do
  let token ← advance
  let test ← expression
  colon
  let body ← block statement
  let elifs ← elifsUpTo statement (← remaining)
  if ← accept .kwElse then
    colon
    return .branch (tokenPos token) test body elifs (some (← block statement))
  else return .branch (tokenPos token) test body elifs none

def loopTimes (statement : Parser Stmt) : Parser Stmt := do
  let token ← advance
  let count ← expression
  let _ ← expect .kwTimes (some "Write it as: repeat 3 times:")
  colon
  return .loopTimes (tokenPos token) count (← block statement)

def loopWhile (statement : Parser Stmt) : Parser Stmt := do
  let token ← advance
  let test ← expression
  let _ ← accept .kwDo
  colon
  return .loopWhile (tokenPos token) test (← block statement)

/-- The bounds of a range: with one argument it starts at zero. -/
def rangeBounds : Parser (Expr × Expr × Option Expr) := do
  let _ ← expect .lparen
  let first ← expression
  let bounds ←
    if ← accept .comma then
      let stop ← expression
      let step ← if ← accept .comma then some <$> expression else pure none
      pure (first, stop, step)
    else pure (.literal first.pos .number (.scalar (.number (.int 0))), first, none)
  let _ ← expect .rparen
  return bounds

def loopFor (statement : Parser Stmt) : Parser Stmt := do
  let token ← advance
  let var ← expectName (some "Name the loop variable, as in: for i in range(3):")
  let _ ← expect .kwIn
  if ← accept .kwRange then
    let (start, stop, step) ← rangeBounds
    colon
    return .loopRange (tokenPos token) var start stop step (← block statement)
  else
    let items ← expression
    colon
    return .loopEach (tokenPos token) var items (← block statement)

/-- Parameter names; `earlier` are those already read. -/
def parameterNames (earlier : List Constant) : Nat → Parser (List Constant)
  | 0 => return earlier
  | fuel + 1 => do
    let name ← expectName
    if earlier.any name.same then fail s!"Duplicate parameter '{← written name.plain?}'"
    else if ← accept .comma then parameterNames (earlier ++ [name]) fuel
    else return earlier ++ [name]

def parameters : Parser (List Constant) := do
  let _ ← expect .lparen
  let names ← if ← at? .rparen then pure [] else parameterNames [] (← remaining)
  let _ ← expect .rparen
  return names

def function (statement : Parser Stmt) : Parser Func := do
  let token ← advance
  let name ← expectName (some "Give the function a name, as in: def greet():")
  let params ← parameters
  colon
  return .mk (tokenPos token) name params (← block statement)

/-- A member of a class: a method, or a `pass` that adds nothing. -/
def classMember (statement : Parser Stmt) : Parser (Option Func) := do
  if ← at? .kwDef then return some (← function statement)
  else if ← accept .kwPass then
    endOfStatement
    return none
  else
    fail "Only methods can be defined inside a class"
      (some "Use def to define a method in the class body.")

def classDefinition (statement : Parser Stmt) : Parser Stmt := do
  let token ← advance
  let name ← expectName (some "Give the class a name, as in: class Dog:")
  colon
  let _ ← expect .newline
  let _ ← expect .indent (some "Indent the methods of the class.")
  let members ← itemsUpTo (classMember statement) (← remaining)
  let _ ← accept .dedent
  return .defineClass (tokenPos token) name (members.filterMap id)

def give : Parser Stmt := do
  let token ← advance
  let value ←
    if (← at? .newline) || (← at? .dedent) || (← at? .eof) then pure none
    else some <$> expression
  endOfStatement
  return .give (tokenPos token) value

def keyword (form : Pos → Stmt) : Parser Stmt := do
  let token ← advance
  endOfStatement
  return form (tokenPos token)

def updateOp : Kind → Option UpdateOp
  | .plusAssign => some .add
  | .minusAssign => some .sub
  | .multiplyAssign => some .mul
  | .divideAssign => some .div
  | _ => none

/-- What assigning to an expression means, if anything. -/
def assignment? (left value : Expr) : Option Stmt :=
  match left with
  | .var pos name => some (.assign pos name value)
  | .index pos object position => some (.setIndex pos object position value)
  | .member pos object property => some (.setMember pos object property value)
  | _ => none

/-- An assignment, an update or an expression. The left side is read first and judged last. -/
def simple : Parser Stmt := do
  let left ← expression
  match updateOp (← kind) with
  | some op =>
    let sign ← advance
    let value ← expression
    endOfStatement
    match left with
    | .var pos name => return .update pos name op value
    | _ =>
      failAt sign "Augmented assignment only works on a plain variable"
        (some "With += -= *= /= the left side must be a variable name, like x += 1.")
  | none =>
    if ← at? .assign then
      let sign ← advance
      let value ← expression
      endOfStatement
      match assignment? left value with
      | some statement => return statement
      | none =>
        failAt sign "Cannot assign to this expression"
          (some ("The left side of '=' must be a variable, an index like arr[0], " ++
            "or a member like self.x."))
    else
      endOfStatement
      return .expr left.pos left

/-- A statement, where `inner` reads the statements of its blocks. -/
def statementWith (inner : Parser Stmt) : Parser Stmt := do
  match ← kind with
  | .kwIf => branch inner
  | .kwRepeat => loopTimes inner
  | .kwWhile => loopWhile inner
  | .kwFor => loopFor inner
  | .kwBreak => keyword .leave
  | .kwContinue => keyword .again
  | .kwPass => keyword .pass
  | .kwDef => return .define (← function inner)
  | .kwClass => classDefinition inner
  | .kwReturn => give
  | _ => simple

/-- A statement with at most `depth` levels of blocks. -/
def statementUpTo : Nat → Parser Stmt
  | 0 => statementWith (fail "Unexpected nesting")
  | depth + 1 => statementWith (statementUpTo depth)

/-- A statement. Every level of blocks takes a token, so the tokens that remain bound the depth. -/
def statement : Parser Stmt := do statementUpTo (← remaining)

def statementsUpTo : Nat → Parser (List Stmt)
  | 0 => return []
  | fuel + 1 => do
    if ← at? .eof then return []
    else if ← at? .indent then
      fail "Unexpected indentation" (some "Only lines inside a block (after a ':') are indented.")
    else
      let first ← statement
      skipNewlines
      return first :: (← statementsUpTo fuel)

def program : Parser Program := do
  skipNewlines
  let body ← statementsUpTo (← remaining)
  return { body }

end Stepwise.Parser

namespace Stepwise.Program

/-- Reads a program from its tokens. -/
def ofTokens (tokens : List Token) (filename : String) : Except Failure Program :=
  (Parser.program.run (Cursor.start tokens filename)).map Prod.fst

/-- Reads a program from its text. -/
def parse (source filename : String) : Except Failure Program := do
  let tokens ← Token.tokenize source filename
  ofTokens tokens filename

end Stepwise.Program
