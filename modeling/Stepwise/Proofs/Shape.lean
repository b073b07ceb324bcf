import Stepwise.Token
import Stepwise.Tree

/-!
The shape of trees that were read from text. `Every` states a condition on all nodes of a tree;
`Shaped` is the condition that reading guarantees at each of them.
-/
namespace Stepwise

/-- A name as it is read: a text of characters that names are made of. -/
def Constant.IsName (c : Constant) : Prop :=
  ∃ s : String, c = .scalar (.text s) ∧ ∀ ch ∈ s.toList, Token.isNamePart ch = true

def Constant.IsText (c : Constant) : Prop := ∃ s : String, c = .scalar (.text s)

theorem Constant.IsName.isText {c : Constant} (name : c.IsName) : c.IsText := by
  obtain ⟨s, rfl, -⟩ := name
  exact ⟨s, rfl⟩

def BinaryOp.IsKnown : BinaryOp → Prop
  | .unknown _ => False
  | _ => True

def UnaryOp.IsKnown : UnaryOp → Prop
  | .unknown _ => False
  | _ => True

def UpdateOp.IsKnown : UpdateOp → Prop
  | .unknown _ => False
  | _ => True

/-- A literal has a value of the kind it was written as. -/
def LiteralForm.Fits : LiteralForm → Constant → Prop
  | .number, c => ∃ n, c = .scalar (.number n)
  | .string, c => c.IsText
  | .boolean, c => ∃ b, c = .scalar (.bool b)

mutual

/-- Whether a condition holds of an expression and of all expressions inside it. -/
def Expr.Every (check : Expr → Prop) : Expr → Prop
  | .literal pos form value => check (.literal pos form value)
  | .var pos name => check (.var pos name)
  | .binary pos op left right =>
    check (.binary pos op left right) ∧ left.Every check ∧ right.Every check
  | .unary pos op operand => check (.unary pos op operand) ∧ operand.Every check
  | .call pos callee args => check (.call pos callee args) ∧ Expr.EveryIn check args
  | .new pos className args => check (.new pos className args) ∧ Expr.EveryIn check args
  | .invoke pos object method args =>
    check (.invoke pos object method args) ∧ object.Every check ∧ Expr.EveryIn check args
  | .list pos elements => check (.list pos elements) ∧ Expr.EveryIn check elements
  | .record pos entries => check (.record pos entries) ∧ Expr.EveryEntry check entries
  | .index pos object position =>
    check (.index pos object position) ∧ object.Every check ∧ position.Every check
  | .slice pos object start stop =>
    check (.slice pos object start stop) ∧ object.Every check ∧ Expr.EveryBound check start ∧
      Expr.EveryBound check stop
  | .member pos object property => check (.member pos object property) ∧ object.Every check
  | .alien node => check (.alien node)

def Expr.EveryIn (check : Expr → Prop) : List Expr → Prop
  | [] => True
  | e :: es => e.Every check ∧ Expr.EveryIn check es

def Expr.EveryBound (check : Expr → Prop) : Option Expr → Prop
  | none => True
  | some e => e.Every check

def Expr.EveryEntry (check : Expr → Prop) : List (Constant × Expr) → Prop
  | [] => True
  | (_, e) :: entries => e.Every check ∧ Expr.EveryEntry check entries

end

mutual

/-- Whether conditions hold of a statement, of all statements inside it and of all their
expressions. -/
def Stmt.Every (onExpr : Expr → Prop) (onStmt : Stmt → Prop) : Stmt → Prop
  | .expr pos value => onStmt (.expr pos value) ∧ value.Every onExpr
  | .assign pos target value => onStmt (.assign pos target value) ∧ value.Every onExpr
  | .update pos target op value => onStmt (.update pos target op value) ∧ value.Every onExpr
  | .setIndex pos object position value =>
    onStmt (.setIndex pos object position value) ∧ object.Every onExpr ∧ position.Every onExpr ∧
      value.Every onExpr
  | .setMember pos object property value =>
    onStmt (.setMember pos object property value) ∧ object.Every onExpr ∧ value.Every onExpr
  | .branch pos test body elifs otherwise =>
    onStmt (.branch pos test body elifs otherwise) ∧ test.Every onExpr ∧
      Stmt.EveryIn onExpr onStmt body ∧ Stmt.EveryElif onExpr onStmt elifs ∧
      Stmt.EveryOtherwise onExpr onStmt otherwise
  | .loopTimes pos count body =>
    onStmt (.loopTimes pos count body) ∧ count.Every onExpr ∧ Stmt.EveryIn onExpr onStmt body
  | .loopWhile pos test body =>
    onStmt (.loopWhile pos test body) ∧ test.Every onExpr ∧ Stmt.EveryIn onExpr onStmt body
  | .loopRange pos var start stop step body =>
    onStmt (.loopRange pos var start stop step body) ∧ start.Every onExpr ∧ stop.Every onExpr ∧
      Expr.EveryBound onExpr step ∧ Stmt.EveryIn onExpr onStmt body
  | .loopEach pos var items body =>
    onStmt (.loopEach pos var items body) ∧ items.Every onExpr ∧ Stmt.EveryIn onExpr onStmt body
  | .leave pos => onStmt (.leave pos)
  | .again pos => onStmt (.again pos)
  | .pass pos => onStmt (.pass pos)
  | .define function => onStmt (.define function) ∧ Func.Every onExpr onStmt function
  | .defineClass pos name methods =>
    onStmt (.defineClass pos name methods) ∧ Func.EveryIn onExpr onStmt methods
  | .give pos value => onStmt (.give pos value) ∧ Expr.EveryBound onExpr value
  | .alien node => onStmt (.alien node)

def Stmt.EveryIn (onExpr : Expr → Prop) (onStmt : Stmt → Prop) : List Stmt → Prop
  | [] => True
  | s :: ss => s.Every onExpr onStmt ∧ Stmt.EveryIn onExpr onStmt ss

def Stmt.EveryElif (onExpr : Expr → Prop) (onStmt : Stmt → Prop) : List Elif → Prop
  | [] => True
  | e :: es => Elif.Every onExpr onStmt e ∧ Stmt.EveryElif onExpr onStmt es

def Elif.Every (onExpr : Expr → Prop) (onStmt : Stmt → Prop) : Elif → Prop
  | .mk _ test body => test.Every onExpr ∧ Stmt.EveryIn onExpr onStmt body

def Stmt.EveryOtherwise (onExpr : Expr → Prop) (onStmt : Stmt → Prop) :
    Option (List Stmt) → Prop
  | none => True
  | some body => Stmt.EveryIn onExpr onStmt body

def Func.Every (onExpr : Expr → Prop) (onStmt : Stmt → Prop) : Func → Prop
  | .mk _ _ _ body => Stmt.EveryIn onExpr onStmt body

def Func.EveryIn (onExpr : Expr → Prop) (onStmt : Stmt → Prop) : List Func → Prop
  | [] => True
  | f :: fs => Func.Every onExpr onStmt f ∧ Func.EveryIn onExpr onStmt fs

end

/-- Whether conditions hold of all statements and all expressions of a program. -/
def Program.Every (onExpr : Expr → Prop) (onStmt : Stmt → Prop) (program : Program) : Prop :=
  Stmt.EveryIn onExpr onStmt program.body

/-- What reading guarantees of an expression, apart from those inside it. -/
def Expr.Shaped : Expr → Prop
  | .literal _ form value => form.Fits value
  | .var _ name => name.IsName
  | .binary _ op _ _ => op.IsKnown
  | .unary _ op _ => op.IsKnown
  | .call _ callee _ => callee.IsName
  | .invoke _ _ method _ => method.IsName
  | .record _ entries => ∀ entry ∈ entries, entry.1.IsText
  | .member _ _ property => property.IsName
  | .new _ _ _ | .alien _ => False
  | .list _ _ | .index _ _ _ | .slice _ _ _ _ => True

/-- Names of a function and its parameters; parameters differ. -/
def Func.Shaped (f : Func) : Prop :=
  f.name.IsName ∧ (∀ param ∈ f.params, param.IsName) ∧ f.params.Nodup

/-- What reading guarantees of a statement, apart from what is inside it. -/
def Stmt.Shaped : Stmt → Prop
  | .assign _ target _ => target.IsName
  | .update _ target op _ => target.IsName ∧ op.IsKnown
  | .setMember _ _ property _ => property.IsName
  | .loopRange _ var _ _ _ _ => var.IsName
  | .loopEach _ var _ _ => var.IsName
  | .define f => f.Shaped
  | .defineClass _ name methods => name.IsName ∧ ∀ f ∈ methods, f.Shaped
  | .alien _ => False
  | .expr _ _ | .setIndex _ _ _ _ | .branch _ _ _ _ _ | .loopTimes _ _ _ | .loopWhile _ _ _
  | .leave _ | .again _ | .pass _ | .give _ _ => True

/-- Blocks are not empty, which reading guarantees as well. -/
def Stmt.Filled : Stmt → Prop
  | .branch _ _ body elifs otherwise =>
    body ≠ [] ∧ (∀ e ∈ elifs, e.body ≠ []) ∧ otherwise ≠ some []
  | .loopTimes _ _ body | .loopWhile _ _ body | .loopRange _ _ _ _ _ body
  | .loopEach _ _ _ body => body ≠ []
  | .define f => f.body ≠ []
  | .defineClass _ _ methods => ∀ f ∈ methods, f.body ≠ []
  | .expr _ _ | .assign _ _ _ | .update _ _ _ _ | .setIndex _ _ _ _ | .setMember _ _ _ _
  | .leave _ | .again _ | .pass _ | .give _ _ | .alien _ => True

/-- The blocks of which a branch runs one at most. -/
def Stmt.arms : Stmt → List (List Stmt)
  | .branch _ _ body elifs otherwise => body :: elifs.map Elif.body ++ otherwise.toList
  | _ => []

/-- The block that a loop repeats. -/
def Stmt.round? : Stmt → Option (List Stmt)
  | .loopTimes _ _ body | .loopWhile _ _ body | .loopRange _ _ _ _ _ body
  | .loopEach _ _ _ body => some body
  | _ => none

/-- A program as reading gives it. -/
def Program.Shaped (program : Program) : Prop := program.Every Expr.Shaped Stmt.Shaped

theorem Expr.everyIn_iff (check : Expr → Prop) (es : List Expr) :
    Expr.EveryIn check es ↔ ∀ e ∈ es, e.Every check := by
  induction es with
  | nil => simp [Expr.EveryIn]
  | cons e es ih => simp [Expr.EveryIn, ih]

theorem Stmt.everyIn_iff (onExpr : Expr → Prop) (onStmt : Stmt → Prop) (ss : List Stmt) :
    Stmt.EveryIn onExpr onStmt ss ↔ ∀ s ∈ ss, s.Every onExpr onStmt := by
  induction ss with
  | nil => simp [Stmt.EveryIn]
  | cons s ss ih => simp [Stmt.EveryIn, ih]

theorem Expr.everyEntry_iff (check : Expr → Prop) (entries : List (Constant × Expr)) :
    Expr.EveryEntry check entries ↔ ∀ entry ∈ entries, entry.2.Every check := by
  induction entries with
  | nil => simp [Expr.EveryEntry]
  | cons entry entries ih => simp [Expr.EveryEntry, ih]

theorem Func.everyIn_iff (onExpr : Expr → Prop) (onStmt : Stmt → Prop) (fs : List Func) :
    Func.EveryIn onExpr onStmt fs ↔ ∀ f ∈ fs, Func.Every onExpr onStmt f := by
  induction fs with
  | nil => simp [Func.EveryIn]
  | cons f fs ih => simp [Func.EveryIn, ih]

theorem Func.every_iff (onExpr : Expr → Prop) (onStmt : Stmt → Prop) (f : Func) :
    Func.Every onExpr onStmt f ↔ Stmt.EveryIn onExpr onStmt f.body := by
  cases f
  simp [Func.Every, Func.body]

section Every

variable {p q : Expr → Prop} {r s : Stmt → Prop}

mutual

theorem Expr.Every.and : ∀ {e : Expr}, e.Every p → e.Every q → e.Every fun e => p e ∧ q e
  | .literal _ _ _, first, second => ⟨first, second⟩
  | .var _ _, first, second => ⟨first, second⟩
  | .binary _ _ _ _, first, second =>
    ⟨⟨first.1, second.1⟩, first.2.1.and second.2.1, first.2.2.and second.2.2⟩
  | .unary _ _ _, first, second => ⟨⟨first.1, second.1⟩, first.2.and second.2⟩
  | .call _ _ args, first, second =>
    ⟨⟨first.1, second.1⟩, Expr.EveryIn.and args first.2 second.2⟩
  | .new _ _ args, first, second => ⟨⟨first.1, second.1⟩, Expr.EveryIn.and args first.2 second.2⟩
  | .invoke _ _ _ args, first, second =>
    ⟨⟨first.1, second.1⟩, first.2.1.and second.2.1, Expr.EveryIn.and args first.2.2 second.2.2⟩
  | .list _ es, first, second => ⟨⟨first.1, second.1⟩, Expr.EveryIn.and es first.2 second.2⟩
  | .record _ entries, first, second =>
    ⟨⟨first.1, second.1⟩, Expr.EveryEntry.and entries first.2 second.2⟩
  | .index _ _ _, first, second =>
    ⟨⟨first.1, second.1⟩, first.2.1.and second.2.1, first.2.2.and second.2.2⟩
  | .slice _ _ start stop, first, second =>
    ⟨⟨first.1, second.1⟩, first.2.1.and second.2.1,
      Expr.EveryBound.and start first.2.2.1 second.2.2.1,
      Expr.EveryBound.and stop first.2.2.2 second.2.2.2⟩
  | .member _ _ _, first, second => ⟨⟨first.1, second.1⟩, first.2.and second.2⟩
  | .alien _, first, second => ⟨first, second⟩

theorem Expr.EveryIn.and : ∀ es : List Expr, Expr.EveryIn p es → Expr.EveryIn q es →
    Expr.EveryIn (fun e => p e ∧ q e) es
  | [], _, _ => trivial
  | _ :: es, first, second => ⟨first.1.and second.1, Expr.EveryIn.and es first.2 second.2⟩

theorem Expr.EveryBound.and : ∀ e : Option Expr, Expr.EveryBound p e → Expr.EveryBound q e →
    Expr.EveryBound (fun e => p e ∧ q e) e
  | none, _, _ => trivial
  | some _, first, second => Expr.Every.and first second

theorem Expr.EveryEntry.and : ∀ entries : List (Constant × Expr), Expr.EveryEntry p entries →
    Expr.EveryEntry q entries → Expr.EveryEntry (fun e => p e ∧ q e) entries
  | [], _, _ => trivial
  | (_, _) :: entries, first, second =>
    ⟨first.1.and second.1, Expr.EveryEntry.and entries first.2 second.2⟩

end

mutual

theorem Stmt.Every.and : ∀ {x : Stmt}, x.Every p r → x.Every q s →
    x.Every (fun e => p e ∧ q e) fun x => r x ∧ s x
  | .expr _ _, first, second => ⟨⟨first.1, second.1⟩, first.2.and second.2⟩
  | .assign _ _ _, first, second => ⟨⟨first.1, second.1⟩, first.2.and second.2⟩
  | .update _ _ _ _, first, second => ⟨⟨first.1, second.1⟩, first.2.and second.2⟩
  | .setIndex _ _ _ _, first, second =>
    ⟨⟨first.1, second.1⟩, first.2.1.and second.2.1, first.2.2.1.and second.2.2.1,
      first.2.2.2.and second.2.2.2⟩
  | .setMember _ _ _ _, first, second =>
    ⟨⟨first.1, second.1⟩, first.2.1.and second.2.1, first.2.2.and second.2.2⟩
  | .branch _ _ body elifs otherwise, first, second =>
    ⟨⟨first.1, second.1⟩, first.2.1.and second.2.1,
      Stmt.EveryIn.and body first.2.2.1 second.2.2.1,
      Stmt.EveryElif.and elifs first.2.2.2.1 second.2.2.2.1,
      Stmt.EveryOtherwise.and otherwise first.2.2.2.2 second.2.2.2.2⟩
  | .loopTimes _ _ body, first, second =>
    ⟨⟨first.1, second.1⟩, first.2.1.and second.2.1, Stmt.EveryIn.and body first.2.2 second.2.2⟩
  | .loopWhile _ _ body, first, second =>
    ⟨⟨first.1, second.1⟩, first.2.1.and second.2.1, Stmt.EveryIn.and body first.2.2 second.2.2⟩
  | .loopRange _ _ _ _ step body, first, second =>
    ⟨⟨first.1, second.1⟩, first.2.1.and second.2.1, first.2.2.1.and second.2.2.1,
      Expr.EveryBound.and step first.2.2.2.1 second.2.2.2.1,
      Stmt.EveryIn.and body first.2.2.2.2 second.2.2.2.2⟩
  | .loopEach _ _ _ body, first, second =>
    ⟨⟨first.1, second.1⟩, first.2.1.and second.2.1, Stmt.EveryIn.and body first.2.2 second.2.2⟩
  | .leave _, first, second => ⟨first, second⟩
  | .again _, first, second => ⟨first, second⟩
  | .pass _, first, second => ⟨first, second⟩
  | .define f, first, second => ⟨⟨first.1, second.1⟩, Func.Every.and f first.2 second.2⟩
  | .defineClass _ _ fs, first, second =>
    ⟨⟨first.1, second.1⟩, Func.EveryIn.and fs first.2 second.2⟩
  | .give _ value, first, second =>
    ⟨⟨first.1, second.1⟩, Expr.EveryBound.and value first.2 second.2⟩
  | .alien _, first, second => ⟨first, second⟩

theorem Stmt.EveryIn.and : ∀ xs : List Stmt, Stmt.EveryIn p r xs → Stmt.EveryIn q s xs →
    Stmt.EveryIn (fun e => p e ∧ q e) (fun x => r x ∧ s x) xs
  | [], _, _ => trivial
  | _ :: xs, first, second => ⟨first.1.and second.1, Stmt.EveryIn.and xs first.2 second.2⟩

theorem Stmt.EveryElif.and : ∀ es : List Elif, Stmt.EveryElif p r es → Stmt.EveryElif q s es →
    Stmt.EveryElif (fun e => p e ∧ q e) (fun x => r x ∧ s x) es
  | [], _, _ => trivial
  | .mk _ _ body :: es, first, second =>
    ⟨⟨first.1.1.and second.1.1, Stmt.EveryIn.and body first.1.2 second.1.2⟩,
      Stmt.EveryElif.and es first.2 second.2⟩

theorem Stmt.EveryOtherwise.and : ∀ otherwise : Option (List Stmt),
    Stmt.EveryOtherwise p r otherwise → Stmt.EveryOtherwise q s otherwise →
    Stmt.EveryOtherwise (fun e => p e ∧ q e) (fun x => r x ∧ s x) otherwise
  | none, _, _ => trivial
  | some body, first, second => Stmt.EveryIn.and body first second

theorem Func.Every.and : ∀ f : Func, Func.Every p r f → Func.Every q s f →
    Func.Every (fun e => p e ∧ q e) (fun x => r x ∧ s x) f
  | .mk _ _ _ body, first, second => Stmt.EveryIn.and body first second

theorem Func.EveryIn.and : ∀ fs : List Func, Func.EveryIn p r fs → Func.EveryIn q s fs →
    Func.EveryIn (fun e => p e ∧ q e) (fun x => r x ∧ s x) fs
  | [], _, _ => trivial
  | f :: fs, first, second =>
    ⟨Func.Every.and f first.1 second.1, Func.EveryIn.and fs first.2 second.2⟩

end

mutual

/-- A weaker condition on statements. -/
theorem Stmt.Every.imp (implied : ∀ x, r x → s x) : ∀ {x : Stmt}, x.Every p r → x.Every p s
  | .expr _ _, every => ⟨implied _ every.1, every.2⟩
  | .assign _ _ _, every => ⟨implied _ every.1, every.2⟩
  | .update _ _ _ _, every => ⟨implied _ every.1, every.2⟩
  | .setIndex _ _ _ _, every => ⟨implied _ every.1, every.2⟩
  | .setMember _ _ _ _, every => ⟨implied _ every.1, every.2⟩
  | .branch _ _ body elifs otherwise, every =>
    ⟨implied _ every.1, every.2.1, Stmt.EveryIn.imp implied body every.2.2.1,
      Stmt.EveryElif.imp implied elifs every.2.2.2.1,
      Stmt.EveryOtherwise.imp implied otherwise every.2.2.2.2⟩
  | .loopTimes _ _ body, every =>
    ⟨implied _ every.1, every.2.1, Stmt.EveryIn.imp implied body every.2.2⟩
  | .loopWhile _ _ body, every =>
    ⟨implied _ every.1, every.2.1, Stmt.EveryIn.imp implied body every.2.2⟩
  | .loopRange _ _ _ _ _ body, every =>
    ⟨implied _ every.1, every.2.1, every.2.2.1, every.2.2.2.1,
      Stmt.EveryIn.imp implied body every.2.2.2.2⟩
  | .loopEach _ _ _ body, every =>
    ⟨implied _ every.1, every.2.1, Stmt.EveryIn.imp implied body every.2.2⟩
  | .leave _, every => implied _ every
  | .again _, every => implied _ every
  | .pass _, every => implied _ every
  | .define f, every => ⟨implied _ every.1, Func.Every.imp implied f every.2⟩
  | .defineClass _ _ fs, every => ⟨implied _ every.1, Func.EveryIn.imp implied fs every.2⟩
  | .give _ _, every => ⟨implied _ every.1, every.2⟩
  | .alien _, every => implied _ every

theorem Stmt.EveryIn.imp (implied : ∀ x, r x → s x) : ∀ xs : List Stmt,
    Stmt.EveryIn p r xs → Stmt.EveryIn p s xs
  | [], _ => trivial
  | _ :: xs, every => ⟨Stmt.Every.imp implied every.1, Stmt.EveryIn.imp implied xs every.2⟩

theorem Stmt.EveryElif.imp (implied : ∀ x, r x → s x) : ∀ es : List Elif,
    Stmt.EveryElif p r es → Stmt.EveryElif p s es
  | [], _ => trivial
  | .mk _ _ body :: es, every =>
    ⟨⟨every.1.1, Stmt.EveryIn.imp implied body every.1.2⟩, Stmt.EveryElif.imp implied es every.2⟩

theorem Stmt.EveryOtherwise.imp (implied : ∀ x, r x → s x) : ∀ otherwise : Option (List Stmt),
    Stmt.EveryOtherwise p r otherwise → Stmt.EveryOtherwise p s otherwise
  | none, _ => trivial
  | some body, every => Stmt.EveryIn.imp implied body every

theorem Func.Every.imp (implied : ∀ x, r x → s x) : ∀ f : Func, Func.Every p r f → Func.Every p s f
  | .mk _ _ _ body, every => Stmt.EveryIn.imp implied body every

theorem Func.EveryIn.imp (implied : ∀ x, r x → s x) : ∀ fs : List Func,
    Func.EveryIn p r fs → Func.EveryIn p s fs
  | [], _ => trivial
  | f :: fs, every => ⟨Func.Every.imp implied f every.1, Func.EveryIn.imp implied fs every.2⟩

end

end Every

section Decide

variable {p : Expr → Prop} {r : Stmt → Prop} [DecidablePred p] [DecidablePred r]

mutual

/-- A condition that is decided at each node is decided on a tree. -/
def Expr.decideEvery : ∀ e : Expr, Decidable (e.Every p)
  | .literal _ _ _ => inferInstanceAs (Decidable (p _))
  | .var _ _ => inferInstanceAs (Decidable (p _))
  | .binary _ _ left right =>
    have := left.decideEvery
    have := right.decideEvery
    inferInstanceAs (Decidable (p _ ∧ left.Every p ∧ right.Every p))
  | .unary _ _ operand =>
    have := operand.decideEvery
    inferInstanceAs (Decidable (p _ ∧ operand.Every p))
  | .call _ _ args =>
    have := Expr.decideEveryIn args
    inferInstanceAs (Decidable (p _ ∧ Expr.EveryIn p args))
  | .new _ _ args =>
    have := Expr.decideEveryIn args
    inferInstanceAs (Decidable (p _ ∧ Expr.EveryIn p args))
  | .invoke _ object _ args =>
    have := object.decideEvery
    have := Expr.decideEveryIn args
    inferInstanceAs (Decidable (p _ ∧ object.Every p ∧ Expr.EveryIn p args))
  | .list _ es =>
    have := Expr.decideEveryIn es
    inferInstanceAs (Decidable (p _ ∧ Expr.EveryIn p es))
  | .record _ entries =>
    have := Expr.decideEveryEntry entries
    inferInstanceAs (Decidable (p _ ∧ Expr.EveryEntry p entries))
  | .index _ object position =>
    have := object.decideEvery
    have := position.decideEvery
    inferInstanceAs (Decidable (p _ ∧ object.Every p ∧ position.Every p))
  | .slice _ object start stop =>
    have := object.decideEvery
    have := Expr.decideEveryBound start
    have := Expr.decideEveryBound stop
    inferInstanceAs (Decidable (p _ ∧ object.Every p ∧ Expr.EveryBound p start ∧
      Expr.EveryBound p stop))
  | .member _ object _ =>
    have := object.decideEvery
    inferInstanceAs (Decidable (p _ ∧ object.Every p))
  | .alien _ => inferInstanceAs (Decidable (p _))

def Expr.decideEveryIn : ∀ es : List Expr, Decidable (Expr.EveryIn p es)
  | [] => .isTrue trivial
  | e :: es =>
    have := e.decideEvery
    have := Expr.decideEveryIn es
    inferInstanceAs (Decidable (e.Every p ∧ Expr.EveryIn p es))

def Expr.decideEveryBound : ∀ e : Option Expr, Decidable (Expr.EveryBound p e)
  | none => .isTrue trivial
  | some e => e.decideEvery

def Expr.decideEveryEntry : ∀ entries : List (Constant × Expr), Decidable (Expr.EveryEntry p entries)
  | [] => .isTrue trivial
  | (_, e) :: entries =>
    have := e.decideEvery
    have := Expr.decideEveryEntry entries
    inferInstanceAs (Decidable (e.Every p ∧ Expr.EveryEntry p entries))

end

mutual

/-- Conditions that are decided at each node are decided on a tree. -/
def Stmt.decideEvery : ∀ s : Stmt, Decidable (s.Every p r)
  | .expr _ value =>
    have : Decidable (value.Every p) := value.decideEvery
    inferInstanceAs (Decidable (r _ ∧ value.Every p))
  | .assign _ _ value =>
    have : Decidable (value.Every p) := value.decideEvery
    inferInstanceAs (Decidable (r _ ∧ value.Every p))
  | .update _ _ _ value =>
    have : Decidable (value.Every p) := value.decideEvery
    inferInstanceAs (Decidable (r _ ∧ value.Every p))
  | .setIndex _ object position value =>
    have : Decidable (object.Every p) := object.decideEvery
    have : Decidable (position.Every p) := position.decideEvery
    have : Decidable (value.Every p) := value.decideEvery
    inferInstanceAs (Decidable (r _ ∧ object.Every p ∧ position.Every p ∧ value.Every p))
  | .setMember _ object _ value =>
    have : Decidable (object.Every p) := object.decideEvery
    have : Decidable (value.Every p) := value.decideEvery
    inferInstanceAs (Decidable (r _ ∧ object.Every p ∧ value.Every p))
  | .branch _ test body elifs otherwise =>
    have : Decidable (test.Every p) := test.decideEvery
    have : Decidable (Stmt.EveryIn p r body) := Stmt.decideEveryIn body
    have : Decidable (Stmt.EveryElif p r elifs) := Stmt.decideEveryElif elifs
    have : Decidable (Stmt.EveryOtherwise p r otherwise) := Stmt.decideEveryOtherwise otherwise
    inferInstanceAs (Decidable (r _ ∧ test.Every p ∧ Stmt.EveryIn p r body ∧
      Stmt.EveryElif p r elifs ∧ Stmt.EveryOtherwise p r otherwise))
  | .loopTimes _ count body =>
    have : Decidable (count.Every p) := count.decideEvery
    have : Decidable (Stmt.EveryIn p r body) := Stmt.decideEveryIn body
    inferInstanceAs (Decidable (r _ ∧ count.Every p ∧ Stmt.EveryIn p r body))
  | .loopWhile _ test body =>
    have : Decidable (test.Every p) := test.decideEvery
    have : Decidable (Stmt.EveryIn p r body) := Stmt.decideEveryIn body
    inferInstanceAs (Decidable (r _ ∧ test.Every p ∧ Stmt.EveryIn p r body))
  | .loopRange _ _ start stop step body =>
    have : Decidable (start.Every p) := start.decideEvery
    have : Decidable (stop.Every p) := stop.decideEvery
    have : Decidable (Expr.EveryBound p step) := Expr.decideEveryBound step
    have : Decidable (Stmt.EveryIn p r body) := Stmt.decideEveryIn body
    inferInstanceAs (Decidable (r _ ∧ start.Every p ∧ stop.Every p ∧
      Expr.EveryBound p step ∧ Stmt.EveryIn p r body))
  | .loopEach _ _ items body =>
    have : Decidable (items.Every p) := items.decideEvery
    have : Decidable (Stmt.EveryIn p r body) := Stmt.decideEveryIn body
    inferInstanceAs (Decidable (r _ ∧ items.Every p ∧ Stmt.EveryIn p r body))
  | .leave _ => inferInstanceAs (Decidable (r _))
  | .again _ => inferInstanceAs (Decidable (r _))
  | .pass _ => inferInstanceAs (Decidable (r _))
  | .define f =>
    have : Decidable (Func.Every p r f) := Func.decideEvery f
    inferInstanceAs (Decidable (r _ ∧ Func.Every p r f))
  | .defineClass _ _ methods =>
    have : Decidable (Func.EveryIn p r methods) := Func.decideEveryIn methods
    inferInstanceAs (Decidable (r _ ∧ Func.EveryIn p r methods))
  | .give _ value =>
    have : Decidable (Expr.EveryBound p value) := Expr.decideEveryBound value
    inferInstanceAs (Decidable (r _ ∧ Expr.EveryBound p value))
  | .alien _ => inferInstanceAs (Decidable (r _))

def Stmt.decideEveryIn : ∀ ss : List Stmt, Decidable (Stmt.EveryIn p r ss)
  | [] => .isTrue trivial
  | s :: ss =>
    have : Decidable (s.Every p r) := s.decideEvery
    have : Decidable (Stmt.EveryIn p r ss) := Stmt.decideEveryIn ss
    inferInstanceAs (Decidable (s.Every p r ∧ Stmt.EveryIn p r ss))

def Stmt.decideEveryElif : ∀ es : List Elif, Decidable (Stmt.EveryElif p r es)
  | [] => .isTrue trivial
  | .mk _ test body :: es =>
    have : Decidable (test.Every p) := test.decideEvery
    have : Decidable (Stmt.EveryIn p r body) := Stmt.decideEveryIn body
    have : Decidable (Stmt.EveryElif p r es) := Stmt.decideEveryElif es
    inferInstanceAs (Decidable ((test.Every p ∧ Stmt.EveryIn p r body) ∧ Stmt.EveryElif p r es))

def Stmt.decideEveryOtherwise : ∀ otherwise : Option (List Stmt),
    Decidable (Stmt.EveryOtherwise p r otherwise)
  | none => .isTrue trivial
  | some body => Stmt.decideEveryIn body

def Func.decideEvery : ∀ f : Func, Decidable (Func.Every p r f)
  | .mk _ _ _ body => Stmt.decideEveryIn body

def Func.decideEveryIn : ∀ fs : List Func, Decidable (Func.EveryIn p r fs)
  | [] => .isTrue trivial
  | f :: fs =>
    have : Decidable (Func.Every p r f) := Func.decideEvery f
    have : Decidable (Func.EveryIn p r fs) := Func.decideEveryIn fs
    inferInstanceAs (Decidable (Func.Every p r f ∧ Func.EveryIn p r fs))

end

instance (program : Program) : Decidable (program.Every p r) := Stmt.decideEveryIn program.body

end Decide

end Stepwise
