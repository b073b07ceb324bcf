import Stepwise.Token.Scan
import Stepwise.Proofs.Grammar.Completeness
import Stepwise.Proofs.Shape

/-!
The text of a program: one statement a line, four blanks for each block, and parentheses only where
an expression stands at a level that binds tighter than its own. A line is kept as a list of words
and gaps, so that its characters and its tokens are both read off it, and a text as a tree of lines,
each with the block under it.
-/
namespace Stepwise

namespace Printing

open Token (Kind)
open Grammar

/-- How decimals are written: the digits before and behind the point. Any digits will do that read
back as the number. -/
abbrev Spelling := Float → List Char × List Char

/-- A word of a text. -/
inductive Lexeme where
  | word (s : String)
  | sign (s : String) (kind : Kind)
  | whole (n : Nat)
  | decimal (digits : List Char × List Char) (x : Float)
  | quoted (s : String)

/-- How a character stands in a string. -/
def escaped : Char → List Char
  | '\\' => ['\\', '\\']
  | '"' => ['\\', '"']
  | '\n' => ['\\', 'n']
  | '\t' => ['\\', 't']
  | c => [c]

namespace Lexeme

def chars : Lexeme → List Char
  | word s => s.toList
  | sign s _ => s.toList
  | whole n => Nat.toDigits 10 n
  | decimal digits _ => digits.1 ++ '.' :: digits.2
  | quoted s => '"' :: s.toList.flatMap escaped ++ ['"']

def kind : Lexeme → Kind
  | word s => Token.wordKind s
  | sign _ kind => kind
  | whole _ | decimal _ _ => .number
  | quoted _ => .string

def literal : Lexeme → Scalar
  | word s | sign s _ | quoted s => .text s
  | whole n => .number (.int n)
  | decimal _ x => .number (.float x)

/-- The token that a word is scanned as, without its place. -/
def token (x : Lexeme) : Token := ⟨x.kind, .scalar x.literal, none, none⟩

end Lexeme

/-- A line is made of words and gaps. -/
inductive Glyph where
  | gap
  | lexeme (x : Lexeme)

namespace Glyph

def chars : Glyph → List Char
  | gap => [' ']
  | lexeme x => x.chars

def token? : Glyph → Option Token
  | gap => none
  | lexeme x => some x.token

end Glyph

/-- The characters of words and gaps. -/
def text (gs : List Glyph) : List Char := gs.flatMap Glyph.chars

/-- The tokens of words and gaps. -/
def tokens (gs : List Glyph) : List Token := gs.filterMap Glyph.token?

@[simp] theorem tokens_nil : tokens [] = [] := rfl

@[simp] theorem tokens_gap (gs : List Glyph) : tokens (.gap :: gs) = tokens gs := rfl

@[simp] theorem tokens_lexeme (x : Lexeme) (gs : List Glyph) :
    tokens (.lexeme x :: gs) = x.token :: tokens gs := rfl

@[simp] theorem tokens_append (gs hs : List Glyph) : tokens (gs ++ hs) = tokens gs ++ tokens hs :=
  List.filterMap_append

@[simp] theorem text_nil : text [] = [] := rfl

@[simp] theorem text_cons (g : Glyph) (gs : List Glyph) : text (g :: gs) = g.chars ++ text gs := by
  simp [text]

@[simp] theorem text_append (gs hs : List Glyph) : text (gs ++ hs) = text gs ++ text hs := by
  simp [text]

def word (s : String) : Glyph := .lexeme (.word s)

def sign (s : String) (kind : Kind) : Glyph := .lexeme (.sign s kind)

def lparen : Glyph := sign "(" .lparen

def rparen : Glyph := sign ")" .rparen

def lbracket : Glyph := sign "[" .lbracket

def rbracket : Glyph := sign "]" .rbracket

def lbrace : Glyph := sign "\x7b" .lbrace

def rbrace : Glyph := sign "\x7d" .rbrace

def colon : Glyph := sign ":" .colon

def comma : Glyph := sign "," .comma

def dot : Glyph := sign "." .dot

def minus : Glyph := sign "-" .minus

/-- The text that a name is. -/
def nameText : Constant → String
  | .scalar (.text s) => s
  | _ => ""

def name (c : Constant) : Glyph := word (nameText c)

def key (c : Constant) : Glyph := .lexeme (.quoted (nameText c))

def operator : BinaryOp → Glyph
  | .or => word "or"
  | .and => word "and"
  | .isIn => word "in"
  | .eq => sign "==" .eq
  | .ne => sign "!=" .neq
  | .lt => sign "<" .lt
  | .gt => sign ">" .gt
  | .le => sign "<=" .lte
  | .ge => sign ">=" .gte
  | .add => sign "+" .plus
  | .sub => sign "-" .minus
  | .mul => sign "*" .multiply
  | .div => sign "/" .divide
  | .mod => sign "%" .modulo
  | .floorDiv => sign "//" .floorDiv
  | .pow => sign "**" .power
  | .unknown _ => .gap

/-- The level of an operation. -/
def levelOf : BinaryOp → Level
  | .or => .or
  | .and => .and
  | .eq | .ne | .lt | .gt | .le | .ge | .isIn => .comparison
  | .add | .sub => .sum
  | .mul | .div | .mod | .floorDiv => .term
  | .pow => .power
  | .unknown _ => .atom

/-- The levels that the operands of a level's operations stand at. -/
def sides : Level → Level × Level
  | .or => (.or, .and)
  | .and => (.and, .not)
  | .comparison => (.comparison, .sum)
  | .sum => (.sum, .term)
  | .term => (.term, .unary)
  | .power => (.suffixed, .unary)
  | l => (l, l)

/-- An expression of level `m` where one of level `l` is wanted. -/
def bracketed (l m : Level) (gs : List Glyph) : List Glyph :=
  if l.reach ≤ m.reach then gs else lparen :: gs ++ [rparen]

def literal (spell : Spelling) : Constant → List Glyph
  | .scalar (.number (.int n)) => [.lexeme (.whole n.toNat)]
  | .scalar (.number (.float x)) => [.lexeme (.decimal (spell x) x)]
  | .scalar (.text s) => [.lexeme (.quoted s)]
  | .scalar (.bool true) => [word "True"]
  | .scalar (.bool false) => [word "False"]
  | _ => []

mutual

/-- An expression where one of level `l` is wanted. -/
def expression (spell : Spelling) (l : Level) : Expr → List Glyph
  | .literal _ _ value => literal spell value
  | .var _ v => [name v]
  | .binary _ op a b =>
    bracketed l (levelOf op) <|
      expression spell (sides (levelOf op)).1 a ++
        .gap :: operator op :: .gap :: expression spell (sides (levelOf op)).2 b
  | .unary _ .not e => bracketed l .not (word "not" :: .gap :: expression spell .not e)
  | .unary _ .neg e => bracketed l .unary (minus :: expression spell .unary e)
  | .unary _ (.unknown _) e => expression spell l e
  | .call _ callee args => name callee :: lparen :: expressions spell args ++ [rparen]
  | .new _ _ _ => []
  | .invoke _ object method args =>
    bracketed l .suffixed <| expression spell .suffixed object ++
      dot :: name method :: lparen :: expressions spell args ++ [rparen]
  | .list _ elements => lbracket :: expressions spell elements ++ [rbracket]
  | .record _ fields => lbrace :: entries spell fields ++ [rbrace]
  | .index _ object position =>
    bracketed l .suffixed <| expression spell .suffixed object ++
      lbracket :: expression spell .or position ++ [rbracket]
  | .slice _ object start stop =>
    bracketed l .suffixed <| expression spell .suffixed object ++
      lbracket :: bound spell start ++ colon :: bound spell stop ++ [rbracket]
  | .member _ object property =>
    bracketed l .suffixed <| expression spell .suffixed object ++ [dot, name property]
  | .alien _ => []

def expressions (spell : Spelling) : List Expr → List Glyph
  | [] => []
  | e :: es => expression spell .or e ++ expressionsAfter spell es

/-- Further expressions, each behind a comma. -/
def expressionsAfter (spell : Spelling) : List Expr → List Glyph
  | [] => []
  | e :: es => comma :: .gap :: expression spell .or e ++ expressionsAfter spell es

def bound (spell : Spelling) : Option Expr → List Glyph
  | none => []
  | some e => expression spell .or e

def entries (spell : Spelling) : List (Constant × Expr) → List Glyph
  | [] => []
  | (k, e) :: fields => key k :: colon :: .gap :: expression spell .or e ++ entriesAfter spell fields

/-- Further entries, each behind a comma. -/
def entriesAfter (spell : Spelling) : List (Constant × Expr) → List Glyph
  | [] => []
  | (k, e) :: fields =>
    comma :: .gap :: key k :: colon :: .gap :: expression spell .or e ++ entriesAfter spell fields

end

def updateSign : UpdateOp → Glyph
  | .add => sign "+=" .plusAssign
  | .sub => sign "-=" .minusAssign
  | .mul => sign "*=" .multiplyAssign
  | .div => sign "/=" .divideAssign
  | .unknown _ => .gap

/-- An assignment to what is written as `target`. -/
def assigned (spell : Spelling) (target : List Glyph) (value : Expr) : List Glyph :=
  target ++ .gap :: sign "=" .assign :: .gap :: expression spell .or value

/-- Names with commas between them. -/
def names : List Constant → List Glyph
  | [] => []
  | [c] => [name c]
  | c :: cs => name c :: comma :: .gap :: names cs

/-- The first line of a loop over numbers. -/
def rangeHeading (spell : Spelling) (v : Constant) (start stop : Expr) (step : Option Expr) :
    List Glyph :=
  word "for" :: .gap :: name v :: .gap :: word "in" :: .gap :: word "range" :: lparen ::
    expressions spell (start :: stop :: step.toList) ++ [rparen, colon]

/-- A line with the block under it. -/
inductive Row where
  | mk (heading : List Glyph) (block : List Row)

mutual

/-- The characters of a line and its block, with four blanks for each level. -/
def Row.chars (depth : Nat) : Row → List Char
  | .mk heading block =>
    List.replicate (4 * depth) ' ' ++ text heading ++ '\n' :: Row.charsAll (depth + 1) block

def Row.charsAll (depth : Nat) : List Row → List Char
  | [] => []
  | row :: rows => row.chars depth ++ Row.charsAll depth rows

end

mutual

/-- A statement is a line with its block; a branch is one for each of its tests. -/
def statement (spell : Spelling) : Stmt → List Row
  | .expr _ value => [.mk (expression spell .or value) []]
  | .assign _ target value => [.mk (assigned spell [name target] value) []]
  | .update _ target op value =>
    [.mk (name target :: .gap :: updateSign op :: .gap :: expression spell .or value) []]
  | .setIndex _ object position value =>
    [.mk (assigned spell (expression spell .or (.index {} object position)) value) []]
  | .setMember _ object property value =>
    [.mk (assigned spell (expression spell .or (.member {} object property)) value) []]
  | .branch _ test body elifs otherwise =>
    .mk (word "if" :: .gap :: expression spell .or test ++ [colon]) (statements spell body) ::
      (elifRows spell elifs ++ otherwiseRows spell otherwise)
  | .loopTimes _ count body =>
    [.mk (word "repeat" :: .gap :: expression spell .or count ++ [.gap, word "times", colon])
      (statements spell body)]
  | .loopWhile _ test body =>
    [.mk (word "while" :: .gap :: expression spell .or test ++ [colon]) (statements spell body)]
  | .loopRange _ v start stop step body =>
    [.mk (rangeHeading spell v start stop step) (statements spell body)]
  | .loopEach _ v items body =>
    [.mk (word "for" :: .gap :: name v :: .gap :: word "in" :: .gap ::
      expression spell .or items ++ [colon]) (statements spell body)]
  | .leave _ => [.mk [word "break"] []]
  | .again _ => [.mk [word "continue"] []]
  | .pass _ => [.mk [word "pass"] []]
  | .define f => [function spell f]
  | .defineClass _ c methods =>
    [.mk [word "class", .gap, name c, colon]
      (if methods.isEmpty then [.mk [word "pass"] []] else functions spell methods)]
  | .give _ none => [.mk [word "return"] []]
  | .give _ (some value) => [.mk (word "return" :: .gap :: expression spell .or value) []]
  | .alien _ => []

def statements (spell : Spelling) : List Stmt → List Row
  | [] => []
  | s :: ss => statement spell s ++ statements spell ss

def elifRows (spell : Spelling) : List Elif → List Row
  | [] => []
  | .mk _ test body :: elifs =>
    .mk (word "elif" :: .gap :: expression spell .or test ++ [colon]) (statements spell body) ::
      elifRows spell elifs

def otherwiseRows (spell : Spelling) : Option (List Stmt) → List Row
  | none => []
  | some body => [.mk [word "else", colon] (statements spell body)]

def function (spell : Spelling) : Func → Row
  | .mk _ f params body =>
    .mk (word "def" :: .gap :: name f :: lparen :: names params ++ [rparen, colon])
      (statements spell body)

def functions (spell : Spelling) : List Func → List Row
  | [] => []
  | f :: fs => function spell f :: functions spell fs

end

/-- The text of a program. -/
def program (spell : Spelling) (p : Program) : String :=
  String.ofList (Row.charsAll 0 (statements spell p.body))

/-- Digits on both sides of a point that read back as a number. -/
structure Spells (written : List Char × List Char) (x : Float) : Prop where
  whole : written.1 ≠ []
  fraction : written.2 ≠ []
  digits : ∀ c ∈ written.1 ++ written.2, c.isDigit = true
  reads : Decimal.ofDecimal (Decimal.digitsOf (written.1 ++ written.2))
    (-(written.2.length : Int)) = x

/-- A word that is scanned as one and is no keyword. -/
def IsIdentifier (c : Constant) : Prop :=
  ∃ (s : String) (first : Char) (rest : List Char), c = .scalar (.text s) ∧
    s.toList = first :: rest ∧ Token.isNameStart first = true ∧
    (∀ ch ∈ rest, Token.isNamePart ch = true) ∧ Token.wordKind s = .identifier

/-- A text whose line breaks are line feeds. -/
def IsText (c : Constant) : Prop := ∃ s : String, c = .scalar (.text s) ∧ '\r' ∉ s.toList

/-- A literal that can be written down. -/
def LiteralWritable (spell : Spelling) : LiteralForm → Constant → Prop
  | .number, .scalar (.number (.int n)) =>
    0 ≤ n ∧ (Nat.toDigits 10 n.toNat).length ≤ Decimal.digitLimit
  | .number, .scalar (.number (.float x)) => Spells (spell x) x
  | .string, c => IsText c
  | .boolean, c => ∃ b, c = .scalar (.bool b)
  | _, _ => False

/-- What an expression needs to be written down, apart from those inside it. -/
def ExprWritable (spell : Spelling) : Expr → Prop
  | .literal _ form value => LiteralWritable spell form value
  | .var _ v => IsIdentifier v
  | .binary _ op _ _ => op.IsKnown
  | .unary _ op _ => op.IsKnown
  | .call _ callee _ => IsIdentifier callee
  | .invoke _ _ method _ => IsIdentifier method
  | .record _ fields => ∀ field ∈ fields, IsText field.1
  | .member _ _ property => IsIdentifier property
  | .new _ _ _ | .alien _ => False
  | .list _ _ | .index _ _ _ | .slice _ _ _ _ => True

/-- A function with good names, distinct parameters and a body that is not empty. -/
structure FuncWritable (f : Func) : Prop where
  name : IsIdentifier f.name
  params : ∀ param ∈ f.params, IsIdentifier param
  distinct : f.params.Nodup
  body : f.body ≠ []

/-- What a statement needs to be written down, apart from what is inside it: good names, and blocks
that are not empty. -/
def StmtWritable : Stmt → Prop
  | .assign _ target _ => IsIdentifier target
  | .update _ target op _ => IsIdentifier target ∧ op.IsKnown
  | .setMember _ _ property _ => IsIdentifier property
  | .branch _ _ body elifs otherwise =>
    body ≠ [] ∧ (∀ e ∈ elifs, e.body ≠ []) ∧ otherwise ≠ some []
  | .loopTimes _ _ body | .loopWhile _ _ body => body ≠ []
  | .loopRange _ v _ _ _ body => IsIdentifier v ∧ body ≠ []
  | .loopEach _ v _ body => IsIdentifier v ∧ body ≠ []
  | .define f => FuncWritable f
  | .defineClass _ c methods => IsIdentifier c ∧ ∀ f ∈ methods, FuncWritable f
  | .alien _ => False
  | .expr _ _ | .setIndex _ _ _ _ | .leave _ | .again _ | .pass _ | .give _ _ => True

/-- A program that can be written down. -/
def Writable (spell : Spelling) (p : Program) : Prop := p.Every (ExprWritable spell) StmtWritable

end Printing

end Stepwise
