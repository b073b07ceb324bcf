import Stepwise.Constant

/-!
Tokens and how they are spelled: keywords in both languages, operators, delimiters, names and escapes,
and the hints for characters that are none of these. Both spellings of a keyword are one kind, so
nothing after scanning depends on the language a program is written in.
-/
namespace Stepwise

namespace Token

inductive Kind where
  | kwIf | kwElif | kwElse | kwRepeat | kwTimes | kwWhile | kwDo | kwFor | kwIn | kwRange
  | kwBreak | kwContinue | kwPass | kwDef | kwReturn | kwTrue | kwFalse | kwAnd | kwOr | kwNot
  | kwClass
  | plus | minus | multiply | divide | modulo | floorDiv | power
  | assign | eq | neq | lt | gt | lte | gte
  | plusAssign | minusAssign | multiplyAssign | divideAssign
  | lparen | rparen | lbracket | rbracket | lbrace | rbrace | colon | comma | dot
  | indent | dedent | newline
  | number | string | identifier
  | eof
  /-- A kind no rule of the language knows. -/
  | other (name : String)
  deriving DecidableEq, Inhabited

namespace Kind

/-- Every known kind with its name. -/
def names : List (Kind × String) :=
  [(kwIf, "IF"), (kwElif, "ELIF"), (kwElse, "ELSE"), (kwRepeat, "REPEAT"), (kwTimes, "TIMES"),
   (kwWhile, "WHILE"), (kwDo, "DO"), (kwFor, "FOR"), (kwIn, "IN"), (kwRange, "RANGE"),
   (kwBreak, "BREAK"), (kwContinue, "CONTINUE"), (kwPass, "PASS"), (kwDef, "DEF"),
   (kwReturn, "RETURN"), (kwTrue, "TRUE"), (kwFalse, "FALSE"), (kwAnd, "AND"), (kwOr, "OR"),
   (kwNot, "NOT"), (kwClass, "CLASS"), (plus, "PLUS"), (minus, "MINUS"), (multiply, "MULTIPLY"),
   (divide, "DIVIDE"), (modulo, "MODULO"), (floorDiv, "FLOOR_DIV"), (power, "POWER"),
   (assign, "ASSIGN"), (eq, "EQ"), (neq, "NEQ"), (lt, "LT"), (gt, "GT"), (lte, "LTE"),
   (gte, "GTE"), (plusAssign, "PLUS_ASSIGN"), (minusAssign, "MINUS_ASSIGN"),
   (multiplyAssign, "MULTIPLY_ASSIGN"), (divideAssign, "DIVIDE_ASSIGN"), (lparen, "LPAREN"),
   (rparen, "RPAREN"), (lbracket, "LBRACKET"), (rbracket, "RBRACKET"), (lbrace, "LBRACE"),
   (rbrace, "RBRACE"), (colon, "COLON"), (comma, "COMMA"), (dot, "DOT"), (indent, "INDENT"),
   (dedent, "DEDENT"), (newline, "NEWLINE"), (number, "NUMBER"), (string, "STRING"),
   (identifier, "IDENTIFIER"), (eof, "EOF")]

def name : Kind → String
  | .other name => name
  | kind => (names.lookup kind).getD ""

def ofName (name : String) : Kind :=
  match names.find? fun entry => entry.2 = name with
  | some entry => entry.1
  | none => .other name

end Kind

end Token

/-- A token with its literal and the place it starts at. Layout tokens have no literal. -/
structure Token where
  kind : Token.Kind
  literal : Constant
  line : Option Int
  column : Option Int
  deriving Inhabited

namespace Token

/-- A line or column number as text. -/
def placeText : Option Int → String
  | some n => n.repr
  | none => "None"

def describe (token : Token) : String :=
  s!"Token({token.kind.name}, {token.literal.literal}, " ++
    s!"{placeText token.line}:{placeText token.column})"

end Token

end Stepwise

namespace Stepwise.Token

open Kind

/-- Chinese and English keywords. -/
def keywords : List (String × Kind) :=
  [("如果", kwIf), ("否则如果", kwElif), ("否则", kwElse), ("重复", kwRepeat), ("次", kwTimes),
   ("当", kwWhile), ("时", kwDo), ("对于", kwFor), ("从", kwFor), ("在", kwIn), ("到", kwRange),
   ("范围", kwRange), ("停止", kwBreak), ("跳出", kwBreak), ("继续", kwContinue), ("跳过", kwPass),
   ("定义", kwDef), ("返回", kwReturn), ("真", kwTrue), ("假", kwFalse), ("和", kwAnd),
   ("或", kwOr), ("不", kwNot), ("类", kwClass),
   ("if", kwIf), ("elif", kwElif), ("else", kwElse), ("repeat", kwRepeat), ("times", kwTimes),
   ("while", kwWhile), ("for", kwFor), ("in", kwIn), ("range", kwRange), ("break", kwBreak),
   ("continue", kwContinue), ("pass", kwPass), ("def", kwDef), ("return", kwReturn),
   ("True", kwTrue), ("False", kwFalse), ("and", kwAnd), ("or", kwOr), ("not", kwNot),
   ("class", kwClass)]

/-- A word that is no keyword is a name. -/
def wordKind (word : String) : Kind := (keywords.lookup word).getD identifier

def twoCharOperators : List ((Char × Char) × Kind) :=
  [(('=', '='), eq), (('!', '='), neq), (('<', '='), lte), (('>', '='), gte),
   (('/', '/'), floorDiv), (('*', '*'), power), (('+', '='), plusAssign), (('-', '='), minusAssign),
   (('*', '='), multiplyAssign), (('/', '='), divideAssign)]

def oneCharSigns : List (Char × Kind) :=
  [('+', plus), ('-', minus), ('*', multiply), ('/', divide), ('%', modulo), ('=', assign),
   ('<', lt), ('>', gt),
   ('(', lparen), (')', rparen), ('[', lbracket), (']', rbracket), ('\x7b', lbrace),
   ('\x7d', rbrace), (':', colon), (',', comma), ('.', dot)]

/-- Names start with a Latin letter, an underscore or a character of the unified ideographs. -/
def isNameStart (c : Char) : Bool :=
  c = '_' || c.isAlpha || (0x4e00 ≤ c.toNat && c.toNat ≤ 0x9fff)

def isNamePart (c : Char) : Bool := isNameStart c || c.isDigit

/-- The character an escape stands for; an unknown one stands for itself. -/
def unescape : Char → Char
  | 'n' => '\n'
  | 't' => '\t'
  | c => c

/-- A tab in the indentation is as wide as this many blanks. -/
def tabWidth : Nat := 4

/-- Full-width punctuation from a Chinese keyboard and the sign that was meant. -/
def fullWidthSigns : List (Char × Char) :=
  [('：', ':'), ('（', '('), ('）', ')'), ('，', ','), ('【', '['), ('】', ']'), ('“', '"'),
   ('”', '"'), ('‘', '\''), ('’', '\'')]

/-- The hint for a character that starts no token. -/
def strangerHint : Char → String
  | '!' => "Use 'not' for logical negation."
  | '&' => "Use 'and' to combine conditions."
  | '|' => "Use 'or' to combine conditions."
  | _ => "Check for typos or symbols the language does not support."

end Stepwise.Token
