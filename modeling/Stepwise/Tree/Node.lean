import Stepwise.Tree.View

/-!
The nodes of a syntax tree, of whatever kind, and the walk through them. Every node carries its
position; what is read from a library loses the positions of all nodes that the walk visits.
-/
namespace Stepwise

inductive Node where
  | program (program : Program)
  | stmt (stmt : Stmt)
  | elif (elif : Elif)
  | func (func : Func)
  | expr (expr : Expr)
  /-- A node below one that the language has no place for. -/
  | alien (outline : Outline)

namespace Node

def outline : Node → Outline
  | .program p => p.outline
  | .stmt s => s.outline
  | .elif e => Stmt.outlineElif e
  | .func f => Stmt.outlineFunc f
  | .expr e => e.outline
  | .alien o => o

def pos : Node → Pos
  | .program p => p.pos
  | .stmt s => s.pos
  | .elif e => e.pos
  | .func f => f.pos
  | .expr e => e.pos
  | .alien o => o.pos

/-- Number of nodes. -/
def size (node : Node) : Nat := node.outline.size

end Node

/-! The nodes directly under a node, in the order of its fields. -/

def Expr.children : Expr → List Node
  | .literal _ _ _ | .var _ _ => []
  | .binary _ _ left right => [.expr left, .expr right]
  | .unary _ _ operand => [.expr operand]
  | .call _ _ args | .new _ _ args => args.map .expr
  | .invoke _ object _ args => .expr object :: args.map .expr
  | .list _ elements => elements.map .expr
  | .record _ entries => entries.map fun entry => .expr entry.2
  | .index _ object position => [.expr object, .expr position]
  | .slice _ object start stop => .expr object :: (start.toList.map .expr ++ stop.toList.map .expr)
  | .member _ object _ => [.expr object]
  | .alien node => node.children.map .alien

def Func.children (f : Func) : List Node := f.body.map .stmt

def Elif.children (e : Elif) : List Node := .expr e.test :: e.body.map .stmt

def Stmt.children : Stmt → List Node
  | .expr _ value | .assign _ _ value | .update _ _ _ value => [.expr value]
  | .setIndex _ object position value => [.expr object, .expr position, .expr value]
  | .setMember _ object _ value => [.expr object, .expr value]
  | .branch _ test body elifs otherwise =>
    .expr test :: (body.map .stmt ++ (elifs.map .elif ++ (otherwise.getD []).map .stmt))
  | .loopTimes _ count body => .expr count :: body.map .stmt
  | .loopWhile _ test body => .expr test :: body.map .stmt
  | .loopRange _ _ start stop step body =>
    .expr start :: .expr stop :: (step.toList.map .expr ++ body.map .stmt)
  | .loopEach _ _ items body => .expr items :: body.map .stmt
  | .leave _ | .again _ | .pass _ => []
  | .define function => function.children
  | .defineClass _ _ methods => methods.map .func
  | .give _ value => value.toList.map .expr
  | .alien node => node.children.map .alien

def Node.children : Node → List Node
  | .program p => p.body.map .stmt
  | .stmt s => s.children
  | .elif e => e.children
  | .func f => f.children
  | .expr e => e.children
  | .alien o => o.children.map .alien

/-- A node and everything under it, depth first. -/
def Node.walk (node : Node) : List Node := walkFrom Node.children node.size [node]

/-- A node with the path to it, the numbers of the children on the way down. -/
structure Rooted where
  path : List Nat
  node : Node

def Rooted.below (rooted : Rooted) : List Rooted :=
  rooted.node.children.mapIdx fun i child => ⟨rooted.path ++ [i], child⟩

/-- The paths to the nodes that the walk visits. -/
def Node.paths (node : Node) : List (List Nat) :=
  (walkFrom Rooted.below node.size [⟨[], node⟩]).map Rooted.path

/-- What becomes of a node, for each kind of node. -/
@[ext]
structure Edit where
  program : Program → Program := id
  stmt : Stmt → Stmt := id
  elif : Elif → Elif := id
  func : Func → Func := id
  expr : Expr → Expr := id
  alien : Outline → Outline := id

def Edit.node (edit : Edit) : Node → Node
  | .program p => .program (edit.program p)
  | .stmt s => .stmt (edit.stmt s)
  | .elif e => .elif (edit.elif e)
  | .func f => .func (edit.func f)
  | .expr e => .expr (edit.expr e)
  | .alien o => .alien (edit.alien o)

/-- One edit after another. -/
def Edit.andThen (first second : Edit) : Edit where
  program := second.program ∘ first.program
  stmt := second.stmt ∘ first.stmt
  elif := second.elif ∘ first.elif
  func := second.func ∘ first.func
  expr := second.expr ∘ first.expr
  alien := second.alien ∘ first.alien

/-- An entry with another node under its key. -/
def Entry.change (f : Outline → Outline) : Entry → Entry
  | .mk key node => .mk key (f node)

/-- A field with its node of each number changed. -/
def Field.edited (edits : Nat → Edit) : Field → Field
  | .value name v => .value name v
  | .child name node => .child name ((edits 0).alien node)
  | .children name nodes => .children name (nodes.mapIdx fun i => (edits i).alien)
  | .keyed name entries => .keyed name (entries.mapIdx fun i => Entry.change (edits i).alien)

def Field.editedAll (edits : Nat → Edit) : List Field → List Field
  | [] => []
  | field :: fields =>
    field.edited edits :: Field.editedAll (fun i => edits (i + field.nodes.length)) fields

/-! A node with its position moved by `place` and its child of each number changed by `edits`. -/

section

variable (place : Pos → Pos) (edits : Nat → Edit)

def Outline.edited : Outline → Outline
  | .mk label pos text fields => .mk label (place pos) text (Field.editedAll edits fields)

def Expr.edited : Expr → Expr
  | .literal pos form value => .literal (place pos) form value
  | .var pos name => .var (place pos) name
  | .binary pos op left right => .binary (place pos) op ((edits 0).expr left) ((edits 1).expr right)
  | .unary pos op operand => .unary (place pos) op ((edits 0).expr operand)
  | .call pos callee args => .call (place pos) callee (args.mapIdx fun i => (edits i).expr)
  | .new pos className args => .new (place pos) className (args.mapIdx fun i => (edits i).expr)
  | .invoke pos object method args =>
    .invoke (place pos) ((edits 0).expr object) method (args.mapIdx fun i => (edits (i + 1)).expr)
  | .list pos elements => .list (place pos) (elements.mapIdx fun i => (edits i).expr)
  | .record pos entries =>
    .record (place pos) (entries.mapIdx fun i entry => (entry.1, (edits i).expr entry.2))
  | .index pos object position =>
    .index (place pos) ((edits 0).expr object) ((edits 1).expr position)
  | .slice pos object start stop =>
    .slice (place pos) ((edits 0).expr object) (start.map (edits 1).expr)
      (stop.map (edits (start.toList.length + 1)).expr)
  | .member pos object property => .member (place pos) ((edits 0).expr object) property
  | .alien node => .alien (node.edited place edits)

def Func.edited : Func → Func
  | .mk pos name params body => .mk (place pos) name params (body.mapIdx fun i => (edits i).stmt)

def Elif.edited : Elif → Elif
  | .mk pos test body =>
    .mk (place pos) ((edits 0).expr test) (body.mapIdx fun i => (edits (i + 1)).stmt)

def Stmt.edited : Stmt → Stmt
  | .expr pos value => .expr (place pos) ((edits 0).expr value)
  | .assign pos target value => .assign (place pos) target ((edits 0).expr value)
  | .update pos target op value => .update (place pos) target op ((edits 0).expr value)
  | .setIndex pos object position value =>
    .setIndex (place pos) ((edits 0).expr object) ((edits 1).expr position) ((edits 2).expr value)
  | .setMember pos object property value =>
    .setMember (place pos) ((edits 0).expr object) property ((edits 1).expr value)
  | .branch pos test body elifs otherwise =>
    .branch (place pos) ((edits 0).expr test) (body.mapIdx fun i => (edits (i + 1)).stmt)
      (elifs.mapIdx fun i => (edits (i + body.length + 1)).elif)
      (otherwise.map (·.mapIdx fun i => (edits (i + elifs.length + body.length + 1)).stmt))
  | .loopTimes pos count body =>
    .loopTimes (place pos) ((edits 0).expr count) (body.mapIdx fun i => (edits (i + 1)).stmt)
  | .loopWhile pos test body =>
    .loopWhile (place pos) ((edits 0).expr test) (body.mapIdx fun i => (edits (i + 1)).stmt)
  | .loopRange pos var start stop step body =>
    .loopRange (place pos) var ((edits 0).expr start) ((edits 1).expr stop) (step.map (edits 2).expr)
      (body.mapIdx fun i => (edits (i + step.toList.length + 2)).stmt)
  | .loopEach pos var items body =>
    .loopEach (place pos) var ((edits 0).expr items) (body.mapIdx fun i => (edits (i + 1)).stmt)
  | .leave pos => .leave (place pos)
  | .again pos => .again (place pos)
  | .pass pos => .pass (place pos)
  | .define function => .define (function.edited place edits)
  | .defineClass pos name methods =>
    .defineClass (place pos) name (methods.mapIdx fun i => (edits i).func)
  | .give pos value => .give (place pos) (value.map (edits 0).expr)
  | .alien node => .alien (node.edited place edits)

def Program.edited (program : Program) : Program where
  pos := place program.pos
  body := program.body.mapIdx fun i => (edits i).stmt

def Edit.at : Edit where
  program := Program.edited place edits
  stmt := Stmt.edited place edits
  elif := Elif.edited place edits
  func := Func.edited place edits
  expr := Expr.edited place edits
  alien := Outline.edited place edits

end

namespace Edit

/-- Takes the position from the node at a path. -/
def clearing : List Nat → Edit
  | [] => .at (fun _ => {}) fun _ => {}
  | i :: path => .at id fun j => if j = i then clearing path else {}

/-- Takes the positions from the nodes at some paths, one after the other. -/
def clearingAll : List (List Nat) → Edit
  | [] => {}
  | path :: paths => (clearing path).andThen (clearingAll paths)

end Edit

/-- A program in which the nodes that the walk visits have lost their positions. Which nodes these
are does not depend on positions. -/
def Program.stripped (program : Program) : Program :=
  (Edit.clearingAll (Node.program program).paths).program program

end Stepwise
