import Stepwise.Code.Compile
import Stepwise.Tree.Unplaced

/-!
Compiling trees without positions. They give the instructions of the trees they were made from, on no
line, and they are refused for the same reasons: `compileStmt_unplaced`.
-/
namespace Stepwise

/-- A failure but for its place. -/
def Failure.unplaced : Failure → Failure
  | .fault of => .fault { of with line := none, column := none }
  | .host of => .host of

/-- An instruction that belongs to no line. -/
def Instruction.unlined (i : Instruction) : Instruction := { i with line := none }

@[simp] theorem Instruction.unlined_mk (op : Opcode) (operand : Value) (line : Option Int) :
    Instruction.unlined ⟨op, operand, line⟩ = ⟨op, operand, none⟩ := rfl

namespace Code

variable {α β γ δ : Type}

/-- Attempts that end alike: with related results, or with failures in different places. -/
inductive EndAlike (R : α → β → Prop) : Except Failure α → Except Failure β → Prop where
  | ok {a : α} {b : β} : R a b → EndAlike R (.ok a) (.ok b)
  | error {e f : Failure} : e.unplaced = f.unplaced → EndAlike R (.error e) (.error f)

theorem EndAlike.bind {R : α → β → Prop} {S : γ → δ → Prop} {x : Except Failure α}
    {y : Except Failure β} {f : α → Except Failure γ} {g : β → Except Failure δ}
    (first : EndAlike R x y) (rest : ∀ a b, R a b → EndAlike S (f a) (g b)) :
    EndAlike S (x >>= f) (y >>= g) := by
  cases first with
  | ok related => exact rest _ _ related
  | error same => exact .error same

theorem EndAlike.self (x : Except Failure α) : EndAlike Eq x x := by
  cases x with
  | ok a => exact .ok rfl
  | error e => exact .error rfl

theorem endAlike_refuse {R : α → β → Prop} {scope : Scope} {pos pos' : Pos} {line line' : Option Int}
    {message : String} {suggestion : Option String} :
    EndAlike R (scope.refuse pos line message suggestion)
      (scope.refuse pos' line' message suggestion) :=
  .error rfl

/-- The same instructions, on no line. -/
def Unlined (is js : List Instruction) : Prop := js = is.map Instruction.unlined

theorem EndAlike.andThen {S : γ → δ → Prop} {x y : Except Failure (List Instruction)}
    {f : List Instruction → Except Failure γ} {g : List Instruction → Except Failure δ}
    (first : EndAlike Unlined x y)
    (rest : ∀ is, EndAlike S (f is) (g (is.map Instruction.unlined))) :
    EndAlike S (x >>= f) (y >>= g) := by
  refine first.bind fun is _ same => ?_
  subst same
  exact rest is

variable {scope : Scope}

mutual

theorem exprLength_unplaced : ∀ e : Expr, exprLength e.unplaced = exprLength e
  | .literal _ _ _ | .var _ _ | .alien _ => rfl
  | .binary _ op left right => by
    simp only [Expr.unplaced, exprLength, exprLength_unplaced left, exprLength_unplaced right]
  | .unary _ _ operand => by simp only [Expr.unplaced, exprLength, exprLength_unplaced operand]
  | .call _ _ args | .new _ _ args => by
    simp only [Expr.unplaced, exprLength, exprsLength_unplaced args]
  | .invoke _ object _ args => by
    simp only [Expr.unplaced, exprLength, exprLength_unplaced object, exprsLength_unplaced args]
  | .list _ elements => by simp only [Expr.unplaced, exprLength, exprsLength_unplaced elements]
  | .record _ entries => by simp only [Expr.unplaced, exprLength, entriesLength_unplaced entries]
  | .index _ object position => by
    simp only [Expr.unplaced, exprLength, exprLength_unplaced object, exprLength_unplaced position]
  | .slice _ object start stop => by
    simp only [Expr.unplaced, exprLength, exprLength_unplaced object, boundLength_unplaced start,
      boundLength_unplaced stop]
  | .member _ object _ => by simp only [Expr.unplaced, exprLength, exprLength_unplaced object]

theorem exprsLength_unplaced : ∀ es : List Expr, exprsLength (Expr.unplacedAll es) = exprsLength es
  | [] => rfl
  | e :: es => by
    simp only [Expr.unplacedAll, exprsLength, exprLength_unplaced e, exprsLength_unplaced es]

theorem boundLength_unplaced : ∀ bound : Option Expr,
    boundLength (Expr.unplacedOption bound) = boundLength bound
  | none => rfl
  | some e => by simp only [Expr.unplacedOption, boundLength, exprLength_unplaced e]

theorem entriesLength_unplaced : ∀ entries : List (Constant × Expr),
    entriesLength (Expr.unplacedEntries entries) = entriesLength entries
  | [] => rfl
  | (_, e) :: entries => by
    simp only [Expr.unplacedEntries, entriesLength, exprLength_unplaced e,
      entriesLength_unplaced entries]

end

theorem length_unplacedAll (es : List Expr) : (Expr.unplacedAll es).length = es.length := by
  rw [Expr.unplacedAll_eq_map, List.length_map]

theorem length_unplacedEntries (entries : List (Constant × Expr)) :
    (Expr.unplacedEntries entries).length = entries.length := by
  rw [Expr.unplacedEntries_eq_map, List.length_map]

theorem count?_unplaced (e : Expr) : e.unplaced.count? = e.count? := by
  cases e with
  | literal pos form value => rcases form <;> rcases value with (_ | _ | _ | _) | _ <;> rfl
  | _ => rfl

theorem rangeStep_unplaced (step : Option Expr) :
    RangeStep.of (Expr.unplacedOption step) = RangeStep.of step := by
  rcases step with _ | e
  · rfl
  · cases e with
    | unary pos op operand =>
      cases operand with
      | literal pos form value => cases op <;> cases form <;> rfl
      | _ => cases op <;> rfl
    | literal pos form value => cases form <;> rfl
    | _ => rfl

theorem isEmpty_unplacedElifs (es : List Elif) : (Stmt.unplacedElifs es).isEmpty = es.isEmpty := by
  cases es <;> rfl

theorem isNone_unplacedOption (otherwise : Option (List Stmt)) :
    (Stmt.unplacedOption otherwise).isNone = otherwise.isNone := by
  cases otherwise <;> rfl

mutual

theorem compileExpr_unplaced : ∀ (e : Expr) (line : Option Int) (base : Nat),
    EndAlike Unlined (compileExpr scope line base e) (compileExpr scope none base e.unplaced)
  | .literal _ _ _, _, _ => by
    simp only [Expr.unplaced, compileExpr]
    exact .ok rfl
  | .var _ _, _, _ => by
    simp only [Expr.unplaced, compileExpr]
    exact .ok rfl
  | .binary pos op left right, line, base => by
    have first := compileExpr_unplaced left (pos.line.or line) base
    cases op
    case and | or =>
      simp only [Expr.unplaced, compileExpr]
      refine first.andThen fun is => ?_
      rw [List.length_map]
      refine (compileExpr_unplaced right _ _).andThen fun js => ?_
      rw [List.length_map]
      exact .ok (by simp [Unlined])
    case unknown sign =>
      simp only [Expr.unplaced, compileExpr, binaryOpcode?]
      exact (EndAlike.self _).bind fun _ _ same => same ▸ endAlike_refuse
    all_goals
      simp only [Expr.unplaced, compileExpr, binaryOpcode?]
      refine first.andThen fun is => ?_
      rw [List.length_map]
      refine (compileExpr_unplaced right _ _).andThen fun js => ?_
      exact .ok (by simp [Unlined])
  | .unary pos op operand, line, base => by
    simp only [Expr.unplaced, compileExpr]
    refine (compileExpr_unplaced operand _ _).andThen fun is => ?_
    cases op with
    | neg | not => exact .ok (by simp [Unlined])
    | unknown sign => exact endAlike_refuse
  | .call _ callee args, line, base => by
    simp only [Expr.unplaced, compileExpr, length_unplacedAll]
    refine (compileExprs_unplaced args _ _).andThen fun is => ?_
    refine (EndAlike.self _).bind fun name _ same => ?_
    subst same
    exact .ok (by simp [Unlined])
  | .new _ _ args, line, base => by
    simp only [Expr.unplaced, compileExpr, length_unplacedAll]
    refine (compileExprs_unplaced args _ _).andThen fun is => ?_
    exact .ok (by simp [Unlined])
  | .invoke _ object _ args, line, base => by
    simp only [Expr.unplaced, compileExpr, length_unplacedAll]
    refine (compileExpr_unplaced object _ _).andThen fun is => ?_
    rw [List.length_map]
    refine (compileExprs_unplaced args _ _).andThen fun js => ?_
    exact .ok (by simp [Unlined])
  | .list _ elements, line, base => by
    simp only [Expr.unplaced, compileExpr, length_unplacedAll]
    refine (compileExprs_unplaced elements _ _).andThen fun is => ?_
    exact .ok (by simp [Unlined])
  | .record _ entries, line, base => by
    simp only [Expr.unplaced, compileExpr, length_unplacedEntries]
    refine (compileEntries_unplaced entries _ _).andThen fun is => ?_
    exact .ok (by simp [Unlined])
  | .index _ object position, line, base => by
    simp only [Expr.unplaced, compileExpr]
    refine (compileExpr_unplaced object _ _).andThen fun is => ?_
    rw [List.length_map]
    refine (compileExpr_unplaced position _ _).andThen fun js => ?_
    exact .ok (by simp [Unlined])
  | .slice _ object start stop, line, base => by
    simp only [Expr.unplaced, compileExpr]
    refine (compileExpr_unplaced object _ _).andThen fun is => ?_
    rw [List.length_map]
    refine (compileBound_unplaced start _ _).andThen fun js => ?_
    rw [List.length_map]
    refine (compileBound_unplaced stop _ _).andThen fun ks => ?_
    exact .ok (by simp [Unlined])
  | .member _ object _, line, base => by
    simp only [Expr.unplaced, compileExpr]
    refine (compileExpr_unplaced object _ _).andThen fun is => ?_
    exact .ok (by simp [Unlined])
  | .alien (.mk label pos text fields), _, _ => by
    simp only [Expr.unplaced, Outline.unplaced, compileExpr]
    exact endAlike_refuse

theorem compileExprs_unplaced : ∀ (es : List Expr) (line : Option Int) (base : Nat),
    EndAlike Unlined (compileExprs scope line base es)
      (compileExprs scope none base (Expr.unplacedAll es))
  | [], _, _ => by
    simp only [Expr.unplacedAll, compileExprs]
    exact .ok rfl
  | e :: es, _, _ => by
    simp only [Expr.unplacedAll, compileExprs]
    refine (compileExpr_unplaced e _ _).andThen fun is => ?_
    rw [List.length_map]
    refine (compileExprs_unplaced es _ _).andThen fun js => ?_
    exact .ok (by simp [Unlined])

theorem compileBound_unplaced : ∀ (bound : Option Expr) (line : Option Int) (base : Nat),
    EndAlike Unlined (compileBound scope line base bound)
      (compileBound scope none base (Expr.unplacedOption bound))
  | none, _, _ => by
    simp only [Expr.unplacedOption, compileBound]
    exact .ok rfl
  | some e, _, _ => by
    simp only [Expr.unplacedOption, compileBound]
    exact compileExpr_unplaced e _ _

theorem compileEntries_unplaced : ∀ (entries : List (Constant × Expr)) (line : Option Int)
    (base : Nat), EndAlike Unlined (compileEntries scope line base entries)
      (compileEntries scope none base (Expr.unplacedEntries entries))
  | [], _, _ => by
    simp only [Expr.unplacedEntries, compileEntries]
    exact .ok rfl
  | (key, e) :: entries, _, _ => by
    simp only [Expr.unplacedEntries, compileEntries]
    refine (compileExpr_unplaced e _ _).andThen fun is => ?_
    rw [List.length_map]
    refine (compileEntries_unplaced entries _ _).andThen fun js => ?_
    exact .ok (by simp [Unlined])

end

mutual

theorem stmtLength_unplaced : ∀ s : Stmt, stmtLength s.unplaced = stmtLength s
  | .expr _ value | .assign _ _ value | .update _ _ _ value => by
    simp only [Stmt.unplaced, stmtLength, exprLength_unplaced value]
  | .setIndex _ object position value => by
    simp only [Stmt.unplaced, stmtLength, exprLength_unplaced object, exprLength_unplaced position,
      exprLength_unplaced value]
  | .setMember _ object _ value => by
    simp only [Stmt.unplaced, stmtLength, exprLength_unplaced object, exprLength_unplaced value]
  | .branch _ test body elifs otherwise => by
    simp only [Stmt.unplaced, stmtLength, exprLength_unplaced test, stmtsLength_unplaced body,
      isEmpty_unplacedElifs, isNone_unplacedOption, elifsLength_unplaced elifs,
      otherwiseLength_unplaced otherwise]
  | .loopTimes _ count body => by
    simp only [Stmt.unplaced, stmtLength, count?_unplaced, exprLength_unplaced count,
      stmtsLength_unplaced body]
  | .loopWhile _ test body => by
    simp only [Stmt.unplaced, stmtLength, exprLength_unplaced test, stmtsLength_unplaced body]
  | .loopRange _ _ start stop step body => by
    simp only [Stmt.unplaced, stmtLength, exprLength_unplaced start, exprLength_unplaced stop,
      rangeStep_unplaced, stmtsLength_unplaced body]
    cases step with
    | none => rfl
    | some e => simp only [Expr.unplacedOption, exprLength_unplaced e]
  | .loopEach _ _ items body => by
    simp only [Stmt.unplaced, stmtLength, exprLength_unplaced items, stmtsLength_unplaced body]
  | .leave _ | .again _ | .pass _ | .define _ | .defineClass _ _ _ | .alien _ => rfl
  | .give _ value => by simp only [Stmt.unplaced, stmtLength, boundLength_unplaced value]

theorem stmtsLength_unplaced : ∀ ss : List Stmt, stmtsLength (Stmt.unplacedAll ss) = stmtsLength ss
  | [] => rfl
  | s :: ss => by
    simp only [Stmt.unplacedAll, stmtsLength, stmtLength_unplaced s, stmtsLength_unplaced ss]

theorem elifsLength_unplaced : ∀ (es : List Elif) {lastArm : Bool},
    elifsLength lastArm (Stmt.unplacedElifs es) = elifsLength lastArm es
  | [], _ => rfl
  | e :: es, _ => by
    simp only [Stmt.unplacedElifs, elifsLength, isEmpty_unplacedElifs, elifLength_unplaced e,
      elifsLength_unplaced es]

theorem elifLength_unplaced : ∀ (e : Elif) {last : Bool},
    elifLength last (Stmt.unplacedElif e) = elifLength last e
  | .mk _ test body, _ => by
    simp only [Stmt.unplacedElif, elifLength, exprLength_unplaced test, stmtsLength_unplaced body]

theorem otherwiseLength_unplaced : ∀ otherwise : Option (List Stmt),
    otherwiseLength (Stmt.unplacedOption otherwise) = otherwiseLength otherwise
  | none => rfl
  | some body => by
    simp only [Stmt.unplacedOption, otherwiseLength, stmtsLength_unplaced body]

end

/-- Attempts that end alike from any number on, and leave the same number behind. -/
def CompileAlike (R : α → β → Prop) (x : Compile α) (y : Compile β) : Prop :=
  ∀ n, EndAlike (fun p q => R p.1 q.1 ∧ p.2 = q.2) (x n) (y n)

theorem CompileAlike.pure {R : α → β → Prop} {a : α} {b : β} (related : R a b) :
    CompileAlike R (Pure.pure a) (Pure.pure b) :=
  fun _ => .ok ⟨related, rfl⟩

theorem CompileAlike.bind {R : α → β → Prop} {S : γ → δ → Prop} {x : Compile α} {y : Compile β}
    {f : α → Compile γ} {g : β → Compile δ} (first : CompileAlike R x y)
    (rest : ∀ a b, R a b → CompileAlike S (f a) (g b)) : CompileAlike S (x >>= f) (y >>= g) := by
  intro n
  refine (first n).bind ?_
  rintro ⟨a, m⟩ ⟨b, _⟩ ⟨related, rfl⟩
  exact rest a b related m

theorem CompileAlike.andThen {S : γ → δ → Prop} {x y : Compile (List Instruction)}
    {f : List Instruction → Compile γ} {g : List Instruction → Compile δ}
    (first : CompileAlike Unlined x y)
    (rest : ∀ is, CompileAlike S (f is) (g (is.map Instruction.unlined))) :
    CompileAlike S (x >>= f) (y >>= g) := by
  refine first.bind fun is _ same => ?_
  subst same
  exact rest is

theorem EndAlike.lift {R : α → β → Prop} {x : Except Failure α} {y : Except Failure β}
    (ends : EndAlike R x y) : CompileAlike R (liftM x) (liftM y) := by
  intro n
  cases ends with
  | ok related => exact .ok ⟨related, rfl⟩
  | error same => exact .error same

theorem compileAlike_self (x : Compile α) : CompileAlike Eq x x := by
  intro n
  cases x n with
  | ok p => exact .ok ⟨rfl, rfl⟩
  | error e => exact .error rfl

theorem compileAlike_refuse {R : α → β → Prop} {scope : Scope} {pos pos' : Pos}
    {line line' : Option Int} {message : String} {suggestion : Option String} :
    CompileAlike R (scope.refuse pos line message suggestion)
      (scope.refuse pos' line' message suggestion) :=
  fun _ => .error rfl

theorem compileAlike_throw {R : α → β → Prop} (e : Failure) :
    CompileAlike R (throw e) (throw e) :=
  fun _ => .error rfl

theorem plainExpr_unplaced (e : Expr) (line : Option Int) (base : Nat) :
    CompileAlike Unlined (plainExpr scope line base e) (plainExpr scope none base e.unplaced) :=
  (compileExpr_unplaced e line base).lift

theorem rangeTest_unplaced (line : Option Int) (base : Nat) (var : Constant) (stop : String)
    (step : Number ⊕ String) :
    Unlined (rangeTest line base var stop step) (rangeTest none base var stop step) := by
  cases step <;> rfl

theorem compileRange_unplaced {line : Option Int} {base length : Nat} {setup setup' : List Instruction}
    {var : Constant} {stop : String} {step : Number ⊕ String} {pushStep pushStep' : Instruction}
    {inner inner' : LoopTargets → Nat → Compile (List Instruction)} (front : Unlined setup setup')
    (push : pushStep' = pushStep.unlined)
    (body : ∀ targets start, CompileAlike Unlined (inner targets start) (inner' targets start)) :
    CompileAlike Unlined (compileRange line base setup var stop step pushStep length inner)
      (compileRange none base setup' var stop step pushStep' length inner') := by
  subst front push
  have test := rangeTest_unplaced line (base + setup.length) var stop step
  simp only [compileRange, List.length_map]
  rw [test, List.length_map]
  exact (body _ _).andThen fun is => .pure (by simp [Unlined])

mutual

theorem compileStmt_unplaced : ∀ (s : Stmt) (loop : Option LoopTargets) (base : Nat),
    CompileAlike Unlined (compileStmt scope loop base s) (compileStmt scope loop base s.unplaced)
  | .expr _ value, _, _ | .assign _ _ value, _, _ => by
    simp only [Stmt.unplaced, compileStmt]
    exact (plainExpr_unplaced value _ _).andThen fun is => .pure (by simp [Unlined])
  | .update _ target op value, _, _ => by
    rcases target with (_ | _ | _ | name) | _
    case scalar.text =>
      cases known : updateOpcode? op with
      | none =>
        simp only [Stmt.unplaced, compileStmt, known]
        refine (compileAlike_self _).bind fun sign _ same => ?_
        subst same
        exact compileAlike_refuse
      | some opcode =>
        simp only [Stmt.unplaced, compileStmt, known]
        exact (plainExpr_unplaced value _ _).andThen fun is => .pure (by simp [Unlined])
    all_goals
      simp only [Stmt.unplaced, compileStmt]
      exact compileAlike_refuse
  | .setIndex _ object position value, _, _ => by
    simp only [Stmt.unplaced, compileStmt]
    refine (plainExpr_unplaced object _ _).andThen fun is => ?_
    rw [List.length_map]
    refine (plainExpr_unplaced position _ _).andThen fun js => ?_
    rw [List.length_map]
    exact (plainExpr_unplaced value _ _).andThen fun ks => .pure (by simp [Unlined])
  | .setMember _ object property value, _, _ => by
    simp only [Stmt.unplaced, compileStmt]
    refine (plainExpr_unplaced object _ _).andThen fun is => ?_
    rw [List.length_map]
    exact (plainExpr_unplaced value _ _).andThen fun js => .pure (by simp [Unlined])
  | .branch _ test body elifs otherwise, _, _ => by
    simp only [Stmt.unplaced, compileStmt, exprLength_unplaced, stmtsLength_unplaced,
      isEmpty_unplacedElifs, isNone_unplacedOption, elifsLength_unplaced, otherwiseLength_unplaced]
    refine (plainExpr_unplaced test _ _).andThen fun arm => ?_
    rw [List.length_map]
    refine (compileStmts_unplaced body _ _).andThen fun inner => ?_
    refine (compileElifs_unplaced elifs _ _ _ _).andThen fun elifCode => ?_
    refine (compileOtherwise_unplaced otherwise _ _).andThen fun elseCode => .pure ?_
    split <;> simp [Unlined]
  | .loopTimes _ count body, _, base => by
    simp only [Stmt.unplaced, compileStmt, count?_unplaced, stmtsLength_unplaced]
    cases count.count? with
    | some n =>
      simp only [pure_bind]
      exact (compileStmts_unplaced body _ _).andThen fun is => .pure (by simp [Unlined])
    | none =>
      refine (compileAlike_self _).bind fun number _ same => ?_
      subst same
      refine (plainExpr_unplaced count _ _).andThen fun is => ?_
      simp only [pure_bind, List.length_append, List.length_map]
      exact (compileStmts_unplaced body _ _).andThen fun is => .pure (by simp [Unlined])
  | .loopWhile _ test body, _, _ => by
    simp only [Stmt.unplaced, compileStmt, stmtsLength_unplaced]
    refine (plainExpr_unplaced test _ _).andThen fun is => ?_
    rw [List.length_map]
    exact (compileStmts_unplaced body _ _).andThen fun js => .pure (by simp [Unlined])
  | .loopRange _ var start stop step body, _, _ => by
    simp only [Stmt.unplaced, compileStmt, rangeStep_unplaced, stmtsLength_unplaced]
    cases RangeStep.of step with
    | unfit => exact compileAlike_throw _
    | known v =>
      dsimp only
      split
      · exact compileAlike_refuse
      · refine (compileAlike_self _).bind fun number _ same => ?_
        subst same
        refine (plainExpr_unplaced start _ _).andThen fun is => ?_
        rw [List.length_map]
        refine (plainExpr_unplaced stop _ _).andThen fun js => ?_
        cases v.weight? with
        | none => exact compileAlike_throw _
        | some n =>
          exact compileRange_unplaced (by simp [Unlined]) rfl fun targets start =>
            compileStmts_unplaced body (some targets) start
    | computed =>
      refine (compileAlike_self _).bind fun number _ same => ?_
      subst same
      refine (plainExpr_unplaced start _ _).andThen fun is => ?_
      rw [List.length_map]
      refine (plainExpr_unplaced stop _ _).andThen fun js => ?_
      rw [List.length_map]
      refine (compileBound_unplaced step _ _).lift.andThen fun ks => ?_
      exact compileRange_unplaced (by simp [Unlined]) rfl fun targets start =>
        compileStmts_unplaced body (some targets) start
  | .loopEach _ var items body, _, _ => by
    simp only [Stmt.unplaced, compileStmt, stmtsLength_unplaced]
    refine (compileAlike_self _).bind fun number _ same => ?_
    subst same
    refine (plainExpr_unplaced items _ _).andThen fun is => ?_
    rw [List.length_map]
    exact (compileStmts_unplaced body _ _).andThen fun js => .pure (by simp [Unlined])
  | .leave _, loop, _ | .again _, loop, _ => by
    simp only [Stmt.unplaced, compileStmt]
    cases loop with
    | none => exact compileAlike_refuse
    | some targets => exact .pure rfl
  | .pass _, _, _ => by
    simp only [Stmt.unplaced, compileStmt]
    exact .pure rfl
  | .define (.mk _ name params body), _, _ => by
    simp only [Stmt.unplaced, Stmt.unplacedFunc, compileStmt]
    exact compileAlike_refuse
  | .defineClass _ name methods, _, _ => by
    simp only [Stmt.unplaced, compileStmt]
    exact compileAlike_refuse
  | .give _ value, _, _ => by
    simp only [Stmt.unplaced, compileStmt]
    exact (compileBound_unplaced value _ _).lift.andThen fun is => .pure (by simp [Unlined])
  | .alien (.mk label pos text fields), _, _ => by
    simp only [Stmt.unplaced, Outline.unplaced, compileStmt]
    exact compileAlike_refuse

theorem compileStmts_unplaced : ∀ (ss : List Stmt) (loop : Option LoopTargets) (base : Nat),
    CompileAlike Unlined (compileStmts scope loop base ss)
      (compileStmts scope loop base (Stmt.unplacedAll ss))
  | [], _, _ => by
    simp only [Stmt.unplacedAll, compileStmts]
    exact .pure rfl
  | s :: ss, _, _ => by
    simp only [Stmt.unplacedAll, compileStmts]
    refine (compileStmt_unplaced s _ _).andThen fun is => ?_
    rw [List.length_map]
    exact (compileStmts_unplaced ss _ _).andThen fun js => .pure (by simp [Unlined])

theorem compileElifs_unplaced : ∀ (es : List Elif) (loop : Option LoopTargets) (finish : Nat)
    (lastArm : Bool) (base : Nat), CompileAlike Unlined (compileElifs scope loop finish lastArm base es)
      (compileElifs scope loop finish lastArm base (Stmt.unplacedElifs es))
  | [], _, _, _, _ => by
    simp only [Stmt.unplacedElifs, compileElifs]
    exact .pure rfl
  | e :: es, _, _, _, _ => by
    simp only [Stmt.unplacedElifs, compileElifs, isEmpty_unplacedElifs]
    refine (compileElif_unplaced e _ _ _ _).andThen fun is => ?_
    rw [List.length_map]
    exact (compileElifs_unplaced es _ _ _ _).andThen fun js => .pure (by simp [Unlined])

theorem compileElif_unplaced : ∀ (e : Elif) (loop : Option LoopTargets) (finish : Nat) (last : Bool)
    (base : Nat), CompileAlike Unlined (compileElif scope loop finish last base e)
      (compileElif scope loop finish last base (Stmt.unplacedElif e))
  | .mk _ test body, _, _, last, _ => by
    simp only [Stmt.unplacedElif, compileElif]
    refine (plainExpr_unplaced test _ _).andThen fun arm => ?_
    rw [List.length_map]
    refine (compileStmts_unplaced body _ _).andThen fun inner => .pure ?_
    cases last <;> simp [Unlined]

theorem compileOtherwise_unplaced : ∀ (otherwise : Option (List Stmt)) (loop : Option LoopTargets)
    (base : Nat), CompileAlike Unlined (compileOtherwise scope loop base otherwise)
      (compileOtherwise scope loop base (Stmt.unplacedOption otherwise))
  | none, _, _ => by
    simp only [Stmt.unplacedOption, compileOtherwise]
    exact .pure rfl
  | some body, _, _ => by
    simp only [Stmt.unplacedOption, compileOtherwise]
    exact compileStmts_unplaced body _ _

end

theorem compileFunction_unplaced (f : Func) (base : Nat) :
    CompileAlike Unlined (compileFunction scope base f)
      (compileFunction scope base (Stmt.unplacedFunc f)) := by
  obtain ⟨pos, name, params, body⟩ := f
  simp only [Stmt.unplacedFunc, compileFunction, Func.pos, Func.params, Func.body, List.length_map]
  exact (compileStmts_unplaced body _ _).andThen fun is => .pure (by simp [Unlined])

end Code

end Stepwise
