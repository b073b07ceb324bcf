import Stepwise.Constant
import Stepwise.Tree.Outline

/-!
Syntax trees. Programs that were read from text use every form but `new` and the `alien` ones: a
host may build trees itself, and can put a node where the language has no place for it. Such a node
is kept with its outline, so that it can be shown and named in a fault.
-/
namespace Stepwise

/-- Operators with two operands. -/
inductive BinaryOp where
  | add | sub | mul | div | mod | floorDiv | pow
  | eq | ne | lt | gt | le | ge | isIn
  | and | or
  | unknown (sign : Constant)
  deriving Inhabited

namespace BinaryOp

def signs : List (String × BinaryOp) :=
  [("+", add), ("-", sub), ("*", mul), ("/", div), ("%", mod), ("//", floorDiv), ("**", pow),
   ("==", eq), ("!=", ne), ("<", lt), (">", gt), ("<=", le), (">=", ge), ("in", isIn),
   ("and", and), ("or", or)]

def sign : BinaryOp → Constant
  | add => .scalar (.text "+")
  | sub => .scalar (.text "-")
  | mul => .scalar (.text "*")
  | div => .scalar (.text "/")
  | mod => .scalar (.text "%")
  | floorDiv => .scalar (.text "//")
  | pow => .scalar (.text "**")
  | eq => .scalar (.text "==")
  | ne => .scalar (.text "!=")
  | lt => .scalar (.text "<")
  | gt => .scalar (.text ">")
  | le => .scalar (.text "<=")
  | ge => .scalar (.text ">=")
  | isIn => .scalar (.text "in")
  | and => .scalar (.text "and")
  | or => .scalar (.text "or")
  | unknown sign => sign

def ofText (sign : String) : BinaryOp := (signs.lookup sign).getD (.unknown (.scalar (.text sign)))

def ofSign : Constant → BinaryOp
  | .scalar (.text sign) => ofText sign
  | sign => .unknown sign

end BinaryOp

/-- Operators with one operand. -/
inductive UnaryOp where
  | neg
  | not
  | unknown (sign : Constant)
  deriving Inhabited

namespace UnaryOp

def sign : UnaryOp → Constant
  | .neg => .scalar (.text "-")
  | .not => .scalar (.text "not")
  | .unknown sign => sign

def ofSign : Constant → UnaryOp
  | .scalar (.text "-") => .neg
  | .scalar (.text "not") => .not
  | sign => .unknown sign

end UnaryOp

/-- Operators that update a variable. -/
inductive UpdateOp where
  | add | sub | mul | div
  | unknown (sign : Constant)
  deriving Inhabited

namespace UpdateOp

def sign : UpdateOp → Constant
  | .add => .scalar (.text "+=")
  | .sub => .scalar (.text "-=")
  | .mul => .scalar (.text "*=")
  | .div => .scalar (.text "/=")
  | .unknown sign => sign

def ofSign : Constant → UpdateOp
  | .scalar (.text "+=") => .add
  | .scalar (.text "-=") => .sub
  | .scalar (.text "*=") => .mul
  | .scalar (.text "/=") => .div
  | sign => .unknown sign

/-- The operator applied to the old value: the sign without its last character. Only a text has
one. -/
def base? : UpdateOp → Option BinaryOp
  | .add => some .add
  | .sub => some .sub
  | .mul => some .mul
  | .div => some .div
  | .unknown (.scalar (.text sign)) => some (.ofText (String.ofList sign.toList.dropLast))
  | .unknown _ => none

end UpdateOp

/-- What a literal was written as; its value says what it stands for. -/
inductive LiteralForm where
  | number
  | string
  | boolean
  deriving DecidableEq, Inhabited

inductive Expr where
  | literal (pos : Pos) (form : LiteralForm) (value : Constant)
  | var (pos : Pos) (name : Constant)
  | binary (pos : Pos) (op : BinaryOp) (left right : Expr)
  | unary (pos : Pos) (op : UnaryOp) (operand : Expr)
  | call (pos : Pos) (callee : Constant) (args : List Expr)
  | new (pos : Pos) (className : Constant) (args : List Expr)
  | invoke (pos : Pos) (object : Expr) (method : Constant) (args : List Expr)
  | list (pos : Pos) (elements : List Expr)
  | record (pos : Pos) (entries : List (Constant × Expr))
  | index (pos : Pos) (object position : Expr)
  | slice (pos : Pos) (object : Expr) (start stop : Option Expr)
  | member (pos : Pos) (object : Expr) (property : Constant)
  | alien (node : Outline)
  deriving Inhabited

mutual

inductive Stmt where
  | expr (pos : Pos) (value : Expr)
  | assign (pos : Pos) (target : Constant) (value : Expr)
  | update (pos : Pos) (target : Constant) (op : UpdateOp) (value : Expr)
  | setIndex (pos : Pos) (object position value : Expr)
  | setMember (pos : Pos) (object : Expr) (property : Constant) (value : Expr)
  | branch (pos : Pos) (test : Expr) (body : List Stmt) (elifs : List Elif)
      (otherwise : Option (List Stmt))
  | loopTimes (pos : Pos) (count : Expr) (body : List Stmt)
  | loopWhile (pos : Pos) (test : Expr) (body : List Stmt)
  | loopRange (pos : Pos) (var : Constant) (start stop : Expr) (step : Option Expr)
      (body : List Stmt)
  | loopEach (pos : Pos) (var : Constant) (items : Expr) (body : List Stmt)
  | leave (pos : Pos)
  | again (pos : Pos)
  | pass (pos : Pos)
  | define (function : Func)
  | defineClass (pos : Pos) (name : Constant) (methods : List Func)
  | give (pos : Pos) (value : Option Expr)
  | alien (node : Outline)

/-- A further test of a branch, with the statements it guards. -/
inductive Elif where
  | mk (pos : Pos) (test : Expr) (body : List Stmt)

inductive Func where
  | mk (pos : Pos) (name : Constant) (params : List Constant) (body : List Stmt)

end

instance : Inhabited Stmt := ⟨.pass {}⟩

instance : Inhabited Elif := ⟨.mk {} default []⟩

instance : Inhabited Func := ⟨.mk {} default [] []⟩

namespace Elif

def pos : Elif → Pos
  | .mk pos _ _ => pos

def test : Elif → Expr
  | .mk _ test _ => test

def body : Elif → List Stmt
  | .mk _ _ body => body

end Elif

namespace Func

def pos : Func → Pos
  | .mk pos _ _ _ => pos

def name : Func → Constant
  | .mk _ name _ _ => name

def params : Func → List Constant
  | .mk _ _ params _ => params

def body : Func → List Stmt
  | .mk _ _ _ body => body

end Func

structure Program where
  pos : Pos := {}
  body : List Stmt
  deriving Inhabited

def Expr.pos : Expr → Pos
  | .literal pos _ _ | .var pos _ | .binary pos _ _ _ | .unary pos _ _ | .call pos _ _
  | .new pos _ _ | .invoke pos _ _ _ | .list pos _ | .record pos _ | .index pos _ _
  | .slice pos _ _ _ | .member pos _ _ => pos
  | .alien node => node.pos

def Stmt.pos : Stmt → Pos
  | .expr pos _ | .assign pos _ _ | .update pos _ _ _ | .setIndex pos _ _ _
  | .setMember pos _ _ _ | .branch pos _ _ _ _ | .loopTimes pos _ _ | .loopWhile pos _ _
  | .loopRange pos _ _ _ _ _ | .loopEach pos _ _ _ | .leave pos | .again pos | .pass pos
  | .defineClass pos _ _ | .give pos _ => pos
  | .define function => function.pos
  | .alien node => node.pos

def Expr.line (e : Expr) : Option Int := e.pos.line

def Stmt.line (s : Stmt) : Option Int := s.pos.line

end Stepwise
