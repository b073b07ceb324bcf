import Mathlib.Logic.Basic
import Stepwise.Tree

/-!
Trees whose positions are moved. A tree that is read further down in a text differs from the one read
by itself in nothing but the lines, and those differ by the same number everywhere (`Pos.down`).
-/
namespace Stepwise

/-- The same column so many lines further down. -/
def Pos.down (n : Nat) (pos : Pos) : Pos := ⟨pos.line.map (· + n), pos.column⟩

theorem Pos.down_zero : Pos.down 0 = id := by
  funext pos
  cases pos with
  | mk line column => cases line <;> simp [Pos.down]

mutual

def Outline.moved (f : Pos → Pos) : Outline → Outline
  | .mk label pos text fields => .mk label (f pos) text (Outline.movedFields f fields)

def Outline.movedFields (f : Pos → Pos) : List Field → List Field
  | [] => []
  | field :: rest => Outline.movedField f field :: Outline.movedFields f rest

def Outline.movedField (f : Pos → Pos) : Field → Field
  | .value name value => .value name value
  | .child name node => .child name (node.moved f)
  | .children name nodes => .children name (Outline.movedNodes f nodes)
  | .keyed name entries => .keyed name (Outline.movedEntries f entries)

def Outline.movedNodes (f : Pos → Pos) : List Outline → List Outline
  | [] => []
  | node :: rest => node.moved f :: Outline.movedNodes f rest

def Outline.movedEntries (f : Pos → Pos) : List Entry → List Entry
  | [] => []
  | entry :: rest => Outline.movedEntry f entry :: Outline.movedEntries f rest

def Outline.movedEntry (f : Pos → Pos) : Entry → Entry
  | .mk key node => .mk key (node.moved f)

end

mutual

def Expr.moved (f : Pos → Pos) : Expr → Expr
  | .literal pos form value => .literal (f pos) form value
  | .var pos name => .var (f pos) name
  | .binary pos op left right => .binary (f pos) op (left.moved f) (right.moved f)
  | .unary pos op operand => .unary (f pos) op (operand.moved f)
  | .call pos callee args => .call (f pos) callee (Expr.movedAll f args)
  | .new pos className args => .new (f pos) className (Expr.movedAll f args)
  | .invoke pos object method args =>
    .invoke (f pos) (object.moved f) method (Expr.movedAll f args)
  | .list pos elements => .list (f pos) (Expr.movedAll f elements)
  | .record pos entries => .record (f pos) (Expr.movedEntries f entries)
  | .index pos object position => .index (f pos) (object.moved f) (position.moved f)
  | .slice pos object start stop =>
    .slice (f pos) (object.moved f) (Expr.movedOption f start) (Expr.movedOption f stop)
  | .member pos object property => .member (f pos) (object.moved f) property
  | .alien node => .alien (node.moved f)

def Expr.movedAll (f : Pos → Pos) : List Expr → List Expr
  | [] => []
  | e :: rest => e.moved f :: Expr.movedAll f rest

def Expr.movedOption (f : Pos → Pos) : Option Expr → Option Expr
  | none => none
  | some e => some (e.moved f)

def Expr.movedEntries (f : Pos → Pos) : List (Constant × Expr) → List (Constant × Expr)
  | [] => []
  | (key, e) :: rest => (key, e.moved f) :: Expr.movedEntries f rest

end

mutual

def Stmt.moved (f : Pos → Pos) : Stmt → Stmt
  | .expr pos value => .expr (f pos) (value.moved f)
  | .assign pos target value => .assign (f pos) target (value.moved f)
  | .update pos target op value => .update (f pos) target op (value.moved f)
  | .setIndex pos object position value =>
    .setIndex (f pos) (object.moved f) (position.moved f) (value.moved f)
  | .setMember pos object property value =>
    .setMember (f pos) (object.moved f) property (value.moved f)
  | .branch pos test body elifs otherwise =>
    .branch (f pos) (test.moved f) (Stmt.movedAll f body) (Stmt.movedElifs f elifs)
      (Stmt.movedOption f otherwise)
  | .loopTimes pos count body => .loopTimes (f pos) (count.moved f) (Stmt.movedAll f body)
  | .loopWhile pos test body => .loopWhile (f pos) (test.moved f) (Stmt.movedAll f body)
  | .loopRange pos var start stop step body =>
    .loopRange (f pos) var (start.moved f) (stop.moved f) (Expr.movedOption f step)
      (Stmt.movedAll f body)
  | .loopEach pos var items body => .loopEach (f pos) var (items.moved f) (Stmt.movedAll f body)
  | .leave pos => .leave (f pos)
  | .again pos => .again (f pos)
  | .pass pos => .pass (f pos)
  | .define function => .define (Stmt.movedFunc f function)
  | .defineClass pos name methods => .defineClass (f pos) name (Stmt.movedFuncs f methods)
  | .give pos value => .give (f pos) (Expr.movedOption f value)
  | .alien node => .alien (node.moved f)

def Stmt.movedAll (f : Pos → Pos) : List Stmt → List Stmt
  | [] => []
  | s :: rest => s.moved f :: Stmt.movedAll f rest

def Stmt.movedOption (f : Pos → Pos) : Option (List Stmt) → Option (List Stmt)
  | none => none
  | some body => some (Stmt.movedAll f body)

def Stmt.movedElifs (f : Pos → Pos) : List Elif → List Elif
  | [] => []
  | e :: rest => Stmt.movedElif f e :: Stmt.movedElifs f rest

def Stmt.movedElif (f : Pos → Pos) : Elif → Elif
  | .mk pos test body => .mk (f pos) (test.moved f) (Stmt.movedAll f body)

def Stmt.movedFuncs (f : Pos → Pos) : List Func → List Func
  | [] => []
  | function :: rest => Stmt.movedFunc f function :: Stmt.movedFuncs f rest

def Stmt.movedFunc (f : Pos → Pos) : Func → Func
  | .mk pos name params body => .mk (f pos) name params (Stmt.movedAll f body)

end

section Lists

variable (f : Pos → Pos)

theorem Expr.movedAll_eq_map (es : List Expr) : Expr.movedAll f es = es.map (·.moved f) := by
  induction es with
  | nil => rfl
  | cons e es ih => simp [Expr.movedAll, ih]

theorem Expr.movedOption_eq_map (e : Option Expr) : Expr.movedOption f e = e.map (·.moved f) := by
  cases e <;> rfl

theorem Expr.movedEntries_eq_map (entries : List (Constant × Expr)) :
    Expr.movedEntries f entries = entries.map fun entry => (entry.1, entry.2.moved f) := by
  induction entries with
  | nil => rfl
  | cons entry entries ih => simp [Expr.movedEntries, ih]

theorem Stmt.movedAll_eq_map (body : List Stmt) : Stmt.movedAll f body = body.map (·.moved f) := by
  induction body with
  | nil => rfl
  | cons s body ih => simp [Stmt.movedAll, ih]

theorem Stmt.movedElifs_eq_map (elifs : List Elif) :
    Stmt.movedElifs f elifs = elifs.map (Stmt.movedElif f) := by
  induction elifs with
  | nil => rfl
  | cons e elifs ih => simp [Stmt.movedElifs, ih]

theorem Stmt.movedFuncs_eq_map (functions : List Func) :
    Stmt.movedFuncs f functions = functions.map (Stmt.movedFunc f) := by
  induction functions with
  | nil => rfl
  | cons function functions ih => simp [Stmt.movedFuncs, ih]

/-- A node stands where it was moved to. -/
@[simp] theorem Expr.moved_pos (e : Expr) : (e.moved f).pos = f e.pos := by
  cases e with
  | alien node => cases node; rfl
  | _ => rfl

end Lists

/-! Without a move every tree stays as it is. -/

mutual

theorem Outline.moved_id : ∀ node : Outline, node.moved id = node
  | .mk label pos text fields => congrArg (Outline.mk label pos text) (Outline.movedFields_id fields)

theorem Outline.movedFields_id : ∀ fields, Outline.movedFields id fields = fields
  | [] => rfl
  | field :: rest => congrArg₂ List.cons (Outline.movedField_id field) (Outline.movedFields_id rest)

theorem Outline.movedField_id : ∀ field, Outline.movedField id field = field
  | .value _ _ => rfl
  | .child name node => congrArg (Field.child name) node.moved_id
  | .children name nodes => congrArg (Field.children name) (Outline.movedNodes_id nodes)
  | .keyed name entries => congrArg (Field.keyed name) (Outline.movedEntries_id entries)

theorem Outline.movedNodes_id : ∀ nodes, Outline.movedNodes id nodes = nodes
  | [] => rfl
  | node :: rest => congrArg₂ List.cons node.moved_id (Outline.movedNodes_id rest)

theorem Outline.movedEntries_id : ∀ entries, Outline.movedEntries id entries = entries
  | [] => rfl
  | entry :: rest => congrArg₂ List.cons (Outline.movedEntry_id entry) (Outline.movedEntries_id rest)

theorem Outline.movedEntry_id : ∀ entry, Outline.movedEntry id entry = entry
  | .mk key node => congrArg (Entry.mk key) node.moved_id

end

mutual

theorem Expr.moved_id : ∀ e : Expr, e.moved id = e
  | .literal _ _ _ | .var _ _ => rfl
  | .binary _ _ left right => by simp [Expr.moved, left.moved_id, right.moved_id]
  | .unary _ _ operand => by simp [Expr.moved, operand.moved_id]
  | .call _ _ args | .new _ _ args => by simp [Expr.moved, Expr.movedAll_id args]
  | .invoke _ object _ args => by simp [Expr.moved, object.moved_id, Expr.movedAll_id args]
  | .list _ elements => by simp [Expr.moved, Expr.movedAll_id elements]
  | .record _ entries => by simp [Expr.moved, Expr.movedEntries_id entries]
  | .index _ object position => by simp [Expr.moved, object.moved_id, position.moved_id]
  | .slice _ object start stop => by
    simp [Expr.moved, object.moved_id, Expr.movedOption_id start, Expr.movedOption_id stop]
  | .member _ object _ => by simp [Expr.moved, object.moved_id]
  | .alien node => congrArg Expr.alien node.moved_id

theorem Expr.movedAll_id : ∀ es, Expr.movedAll id es = es
  | [] => rfl
  | e :: rest => congrArg₂ List.cons e.moved_id (Expr.movedAll_id rest)

theorem Expr.movedOption_id : ∀ e, Expr.movedOption id e = e
  | none => rfl
  | some e => congrArg some e.moved_id

theorem Expr.movedEntries_id : ∀ entries, Expr.movedEntries id entries = entries
  | [] => rfl
  | (key, e) :: rest => congrArg₂ List.cons (congrArg (key, ·) e.moved_id) (Expr.movedEntries_id rest)

end

mutual

theorem Stmt.moved_id : ∀ s : Stmt, s.moved id = s
  | .expr _ value | .assign _ _ value | .update _ _ _ value => by simp [Stmt.moved, value.moved_id]
  | .setIndex _ object position value => by
    simp [Stmt.moved, object.moved_id, position.moved_id, value.moved_id]
  | .setMember _ object _ value => by simp [Stmt.moved, object.moved_id, value.moved_id]
  | .branch _ test body elifs otherwise => by
    simp [Stmt.moved, test.moved_id, Stmt.movedAll_id body, Stmt.movedElifs_id elifs,
      Stmt.movedOption_id otherwise]
  | .loopTimes _ e body | .loopWhile _ e body | .loopEach _ _ e body => by
    simp [Stmt.moved, e.moved_id, Stmt.movedAll_id body]
  | .loopRange _ _ start stop step body => by
    simp [Stmt.moved, start.moved_id, stop.moved_id, Expr.movedOption_id step, Stmt.movedAll_id body]
  | .leave _ | .again _ | .pass _ => rfl
  | .define function => congrArg Stmt.define (Stmt.movedFunc_id function)
  | .defineClass pos name methods => congrArg (Stmt.defineClass pos name) (Stmt.movedFuncs_id methods)
  | .give pos value => congrArg (Stmt.give pos) (Expr.movedOption_id value)
  | .alien node => congrArg Stmt.alien node.moved_id

theorem Stmt.movedAll_id : ∀ body, Stmt.movedAll id body = body
  | [] => rfl
  | s :: rest => congrArg₂ List.cons s.moved_id (Stmt.movedAll_id rest)

theorem Stmt.movedOption_id : ∀ body, Stmt.movedOption id body = body
  | none => rfl
  | some body => congrArg some (Stmt.movedAll_id body)

theorem Stmt.movedElifs_id : ∀ elifs, Stmt.movedElifs id elifs = elifs
  | [] => rfl
  | e :: rest => congrArg₂ List.cons (Stmt.movedElif_id e) (Stmt.movedElifs_id rest)

theorem Stmt.movedElif_id : ∀ e, Stmt.movedElif id e = e
  | .mk pos test body => by simp [Stmt.movedElif, test.moved_id, Stmt.movedAll_id body]

theorem Stmt.movedFuncs_id : ∀ functions, Stmt.movedFuncs id functions = functions
  | [] => rfl
  | function :: rest => congrArg₂ List.cons (Stmt.movedFunc_id function) (Stmt.movedFuncs_id rest)

theorem Stmt.movedFunc_id : ∀ function, Stmt.movedFunc id function = function
  | .mk pos name params body => congrArg (Func.mk pos name params) (Stmt.movedAll_id body)

end

end Stepwise
