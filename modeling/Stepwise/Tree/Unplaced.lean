import Stepwise.Tree

/-!
Trees without positions. Nothing else about a tree changes, so it compiles to the same instructions
without their lines.
-/
namespace Stepwise

mutual

def Outline.unplaced : Outline → Outline
  | .mk label _ text fields => .mk label {} text (Outline.unplacedFields fields)

def Outline.unplacedFields : List Field → List Field
  | [] => []
  | field :: rest => Outline.unplacedField field :: Outline.unplacedFields rest

def Outline.unplacedField : Field → Field
  | .value name value => .value name value
  | .child name node => .child name node.unplaced
  | .children name nodes => .children name (Outline.unplacedNodes nodes)
  | .keyed name entries => .keyed name (Outline.unplacedEntries entries)

def Outline.unplacedNodes : List Outline → List Outline
  | [] => []
  | node :: rest => node.unplaced :: Outline.unplacedNodes rest

def Outline.unplacedEntries : List Entry → List Entry
  | [] => []
  | entry :: rest => Outline.unplacedEntry entry :: Outline.unplacedEntries rest

def Outline.unplacedEntry : Entry → Entry
  | .mk key node => .mk key node.unplaced

end

mutual

def Expr.unplaced : Expr → Expr
  | .literal _ form value => .literal {} form value
  | .var _ name => .var {} name
  | .binary _ op left right => .binary {} op left.unplaced right.unplaced
  | .unary _ op operand => .unary {} op operand.unplaced
  | .call _ callee args => .call {} callee (Expr.unplacedAll args)
  | .new _ className args => .new {} className (Expr.unplacedAll args)
  | .invoke _ object method args => .invoke {} object.unplaced method (Expr.unplacedAll args)
  | .list _ elements => .list {} (Expr.unplacedAll elements)
  | .record _ entries => .record {} (Expr.unplacedEntries entries)
  | .index _ object position => .index {} object.unplaced position.unplaced
  | .slice _ object start stop =>
    .slice {} object.unplaced (Expr.unplacedOption start) (Expr.unplacedOption stop)
  | .member _ object property => .member {} object.unplaced property
  | .alien node => .alien node.unplaced

def Expr.unplacedAll : List Expr → List Expr
  | [] => []
  | e :: rest => e.unplaced :: Expr.unplacedAll rest

def Expr.unplacedOption : Option Expr → Option Expr
  | none => none
  | some e => some e.unplaced

def Expr.unplacedEntries : List (Constant × Expr) → List (Constant × Expr)
  | [] => []
  | (key, e) :: rest => (key, e.unplaced) :: Expr.unplacedEntries rest

end

mutual

def Stmt.unplaced : Stmt → Stmt
  | .expr _ value => .expr {} value.unplaced
  | .assign _ target value => .assign {} target value.unplaced
  | .update _ target op value => .update {} target op value.unplaced
  | .setIndex _ object position value =>
    .setIndex {} object.unplaced position.unplaced value.unplaced
  | .setMember _ object property value => .setMember {} object.unplaced property value.unplaced
  | .branch _ test body elifs otherwise =>
    .branch {} test.unplaced (Stmt.unplacedAll body) (Stmt.unplacedElifs elifs)
      (Stmt.unplacedOption otherwise)
  | .loopTimes _ count body => .loopTimes {} count.unplaced (Stmt.unplacedAll body)
  | .loopWhile _ test body => .loopWhile {} test.unplaced (Stmt.unplacedAll body)
  | .loopRange _ var start stop step body =>
    .loopRange {} var start.unplaced stop.unplaced (Expr.unplacedOption step)
      (Stmt.unplacedAll body)
  | .loopEach _ var items body => .loopEach {} var items.unplaced (Stmt.unplacedAll body)
  | .leave _ => .leave {}
  | .again _ => .again {}
  | .pass _ => .pass {}
  | .define f => .define (Stmt.unplacedFunc f)
  | .defineClass _ name methods => .defineClass {} name (Stmt.unplacedFuncs methods)
  | .give _ value => .give {} (Expr.unplacedOption value)
  | .alien node => .alien node.unplaced

def Stmt.unplacedAll : List Stmt → List Stmt
  | [] => []
  | s :: rest => s.unplaced :: Stmt.unplacedAll rest

def Stmt.unplacedOption : Option (List Stmt) → Option (List Stmt)
  | none => none
  | some body => some (Stmt.unplacedAll body)

def Stmt.unplacedElifs : List Elif → List Elif
  | [] => []
  | e :: rest => Stmt.unplacedElif e :: Stmt.unplacedElifs rest

def Stmt.unplacedElif : Elif → Elif
  | .mk _ test body => .mk {} test.unplaced (Stmt.unplacedAll body)

def Stmt.unplacedFuncs : List Func → List Func
  | [] => []
  | f :: rest => Stmt.unplacedFunc f :: Stmt.unplacedFuncs rest

def Stmt.unplacedFunc : Func → Func
  | .mk _ name params body => .mk {} name params (Stmt.unplacedAll body)

end

def Program.unplaced (program : Program) : Program := { body := Stmt.unplacedAll program.body }

namespace Expr

theorem unplacedAll_eq_map (es : List Expr) : unplacedAll es = es.map unplaced := by
  induction es with
  | nil => rfl
  | cons e es ih => simp [unplacedAll, ih]

theorem unplacedOption_eq_map (e : Option Expr) : unplacedOption e = e.map unplaced := by
  cases e <;> rfl

theorem unplacedEntries_eq_map (entries : List (Constant × Expr)) :
    unplacedEntries entries = entries.map fun entry => (entry.1, entry.2.unplaced) := by
  induction entries with
  | nil => rfl
  | cons entry entries ih => simp [unplacedEntries, ih]

end Expr

namespace Stmt

theorem unplacedAll_eq_map (ss : List Stmt) : unplacedAll ss = ss.map unplaced := by
  induction ss with
  | nil => rfl
  | cons s ss ih => simp [unplacedAll, ih]

theorem unplacedOption_eq_map (body : Option (List Stmt)) :
    unplacedOption body = body.map (List.map unplaced) := by
  cases body with
  | none => rfl
  | some body => rw [unplacedOption, unplacedAll_eq_map, Option.map_some]

theorem unplacedElifs_eq_map (es : List Elif) : unplacedElifs es = es.map unplacedElif := by
  induction es with
  | nil => rfl
  | cons e es ih => simp [unplacedElifs, ih]

theorem unplacedFuncs_eq_map (fs : List Func) : unplacedFuncs fs = fs.map unplacedFunc := by
  induction fs with
  | nil => rfl
  | cons f fs ih => simp [unplacedFuncs, ih]

end Stmt

end Stepwise
