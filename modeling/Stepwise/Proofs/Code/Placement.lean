import Stepwise.Proofs.Code.Layout

/-!
Compiling puts the code of a tree where its layout says. The lengths that are computed in advance
are those of the code that is produced.
-/
namespace Stepwise

theorem bind_eq_ok {ε α β : Type} {x : Except ε α} {f : α → Except ε β} {b : β} :
    (x >>= f) = .ok b ↔ ∃ a, x = .ok a ∧ f a = .ok b := by
  cases x with
  | error e => simp [bind, Except.bind]
  | ok a => simp [bind, Except.bind]

@[simp] theorem pure_eq_ok {ε α : Type} {a b : α} :
    (pure a : Except ε α) = .ok b ↔ a = b := by
  simp [pure, Except.pure]

namespace Code

variable {scope : Scope}

@[simp] theorem refuse_ne_ok {α : Type} {pos : Pos} {line : Option Int} {message : String}
    {suggestion : Option String} {a : α} :
    (scope.refuse pos line message suggestion : Except Failure α) ≠ .ok a := by
  simp [Scope.refuse, throw, throwThe, MonadExceptOf.throw]

mutual

theorem compileExpr_length : ∀ (e : Expr) {line : Option Int} {base : Nat}
    {is : List Instruction}, compileExpr scope line base e = .ok is → is.length = exprLength e
  | .literal _ _ _, _, _, _, h => by
    simp only [compileExpr, pure_eq_ok] at h
    simp [← h, exprLength]
  | .var _ _, _, _, _, h => by
    simp only [compileExpr, pure_eq_ok] at h
    simp [← h, exprLength]
  | .binary _ op left right, _, _, _, h => by
    cases op
    case and | or =>
      simp only [compileExpr, bind_eq_ok, pure_eq_ok] at h
      obtain ⟨first, h1, second, h2, rfl⟩ := h
      simp only [List.length_append, List.length_cons, exprLength, compileExpr_length left h1,
        compileExpr_length right h2]
      omega
    case unknown sign =>
      simp only [compileExpr, binaryOpcode?, bind_eq_ok, refuse_ne_ok, and_false, exists_false] at h
    all_goals
      simp only [compileExpr, binaryOpcode?, bind_eq_ok, pure_eq_ok] at h
      obtain ⟨first, h1, second, h2, rfl⟩ := h
      simp only [List.length_append, List.length_singleton, exprLength, compileExpr_length left h1,
        compileExpr_length right h2]
  | .unary _ op operand, _, _, _, h => by
    simp only [compileExpr, bind_eq_ok] at h
    obtain ⟨code, h1, h⟩ := h
    have length := compileExpr_length operand h1
    cases op with
    | neg =>
      simp only [pure_eq_ok] at h
      simp [← h, exprLength, length]
    | not =>
      simp only [pure_eq_ok] at h
      simp [← h, exprLength, length]
    | unknown sign => exact absurd h refuse_ne_ok
  | .call _ _ args, _, _, _, h => by
    simp only [compileExpr, bind_eq_ok, pure_eq_ok] at h
    obtain ⟨code, h1, name, -, rfl⟩ := h
    simp [exprLength, compileExprs_length args h1]
  | .new _ _ args, _, _, _, h => by
    simp only [compileExpr, bind_eq_ok, pure_eq_ok] at h
    obtain ⟨code, h1, rfl⟩ := h
    simp [exprLength, compileExprs_length args h1]
  | .invoke _ object _ args, _, _, _, h => by
    simp only [compileExpr, bind_eq_ok, pure_eq_ok] at h
    obtain ⟨receiver, h1, code, h2, rfl⟩ := h
    simp [exprLength, compileExpr_length object h1, compileExprs_length args h2, Nat.add_assoc]
  | .list _ elements, _, _, _, h => by
    simp only [compileExpr, bind_eq_ok, pure_eq_ok] at h
    obtain ⟨code, h1, rfl⟩ := h
    simp [exprLength, compileExprs_length elements h1]
  | .record _ entries, _, _, _, h => by
    simp only [compileExpr, bind_eq_ok, pure_eq_ok] at h
    obtain ⟨code, h1, rfl⟩ := h
    simp [exprLength, compileEntries_length entries h1]
  | .index _ object position, _, _, _, h => by
    simp only [compileExpr, bind_eq_ok, pure_eq_ok] at h
    obtain ⟨first, h1, second, h2, rfl⟩ := h
    simp [exprLength, compileExpr_length object h1, compileExpr_length position h2, Nat.add_assoc]
  | .slice _ object start stop, _, _, _, h => by
    simp only [compileExpr, bind_eq_ok, pure_eq_ok] at h
    obtain ⟨first, h1, second, h2, third, h3, rfl⟩ := h
    simp [exprLength, compileExpr_length object h1, compileBound_length start h2,
      compileBound_length stop h3, Nat.add_assoc]
  | .member _ object _, _, _, _, h => by
    simp only [compileExpr, bind_eq_ok, pure_eq_ok] at h
    obtain ⟨code, h1, rfl⟩ := h
    simp [exprLength, compileExpr_length object h1]
  | .alien _, _, _, _, h => by
    simp only [compileExpr] at h
    exact absurd h refuse_ne_ok

theorem compileExprs_length : ∀ (es : List Expr) {line : Option Int} {base : Nat}
    {is : List Instruction}, compileExprs scope line base es = .ok is → is.length = exprsLength es
  | [], _, _, _, h => by
    simp only [compileExprs, pure_eq_ok] at h
    simp [← h, exprsLength]
  | e :: es, _, _, _, h => by
    simp only [compileExprs, bind_eq_ok, pure_eq_ok] at h
    obtain ⟨first, h1, rest, h2, rfl⟩ := h
    simp [exprsLength, compileExpr_length e h1, compileExprs_length es h2]

theorem compileBound_length : ∀ (bound : Option Expr) {line : Option Int} {base : Nat}
    {is : List Instruction}, compileBound scope line base bound = .ok is →
    is.length = boundLength bound
  | none, _, _, _, h => by
    simp only [compileBound, pure_eq_ok] at h
    simp [← h, boundLength]
  | some e, _, _, _, h => by
    simp only [compileBound] at h
    simp [boundLength, compileExpr_length e h]

theorem compileEntries_length : ∀ (entries : List (Constant × Expr)) {line : Option Int}
    {base : Nat} {is : List Instruction}, compileEntries scope line base entries = .ok is →
    is.length = entriesLength entries
  | [], _, _, _, h => by
    simp only [compileEntries, pure_eq_ok] at h
    simp [← h, entriesLength]
  | (key, e) :: entries, _, _, _, h => by
    simp only [compileEntries, bind_eq_ok, pure_eq_ok] at h
    obtain ⟨first, h1, rest, h2, rfl⟩ := h
    simp only [List.cons_append, List.length_cons, List.length_append, entriesLength,
      compileExpr_length e h1, compileEntries_length entries h2]
    omega

end

variable {code : Code}

/-- The code of an expression is laid out wherever it stands. -/
def LaidOut (code : Code) (scope : Scope) (e : Expr) : Prop :=
  ∀ ⦃line : Option Int⦄ ⦃base next : Nat⦄ ⦃is : List Instruction⦄,
    compileExpr scope line base e = .ok is → code.Holds base is → next = base + is.length →
    ExprAt code scope line base e next

section Operators

variable {pos : Pos} {left right operand : Expr}

/-- The right operand of `and` stands behind the jump past it. -/
theorem laidOut_and (first : LaidOut code scope left) (second : LaidOut code scope right) :
    LaidOut code scope (.binary pos .and left right) := by
  intro line base next is h held ends
  simp only [compileExpr, bind_eq_ok, pure_eq_ok] at h
  obtain ⟨before, h1, behind, h2, rfl⟩ := h
  obtain ⟨held1, _, rfl, dup, skip, pop, held2, rfl⟩ := held.between ends
  exact .and (first h1 held1 rfl) dup skip pop (second h2 held2 rfl)

theorem laidOut_or (first : LaidOut code scope left) (second : LaidOut code scope right) :
    LaidOut code scope (.binary pos .or left right) := by
  intro line base next is h held ends
  simp only [compileExpr, bind_eq_ok, pure_eq_ok] at h
  obtain ⟨before, h1, behind, h2, rfl⟩ := h
  obtain ⟨held1, _, rfl, dup, skip, pop, held2, rfl⟩ := held.between ends
  exact .or (first h1 held1 rfl) dup skip pop (second h2 held2 rfl)

/-- The operators without a jump have an opcode of their own. -/
theorem compileExpr_binary {op : BinaryOp} {opcode : Opcode} {line : Option Int} {base : Nat}
    (known : binaryOpcode? op = some opcode) :
    compileExpr scope line base (.binary pos op left right) = (do
      let first ← compileExpr scope (pos.line.or line) base left
      let second ← compileExpr scope (pos.line.or line) (base + first.length) right
      return first ++ second ++ [⟨opcode, .null, pos.line.or line⟩]) := by
  cases op
  case and | or | unknown => cases known
  all_goals
    cases known
    simp only [compileExpr, binaryOpcode?]

theorem laidOut_binary (op : BinaryOp) (first : LaidOut code scope left)
    (second : LaidOut code scope right) : LaidOut code scope (.binary pos op left right) := by
  cases known : binaryOpcode? op with
  | some opcode =>
    intro line base next is h held ends
    simp only [compileExpr_binary known, bind_eq_ok, pure_eq_ok] at h
    obtain ⟨before, h1, behind, h2, rfl⟩ := h
    obtain ⟨held, _, mid, has, rfl⟩ := held.concat ends
    obtain ⟨held1, held2, mid⟩ := held.append mid
    exact .binary known (first h1 held1 rfl) (second h2 held2 mid) has
  | none =>
    cases op with
    | and => exact laidOut_and first second
    | or => exact laidOut_or first second
    | unknown sign =>
      intro line base next is h
      simp only [compileExpr, binaryOpcode?, bind_eq_ok, refuse_ne_ok, and_false, exists_false] at h
    | _ => cases known

theorem laidOut_unary (op : UnaryOp) (inner : LaidOut code scope operand) :
    LaidOut code scope (.unary pos op operand) := by
  intro line base next is h held ends
  simp only [compileExpr, bind_eq_ok] at h
  obtain ⟨before, h1, h⟩ := h
  cases op with
  | unknown sign => exact absurd h refuse_ne_ok
  | neg =>
    cases pure_eq_ok.mp h
    obtain ⟨held, _, rfl, has, rfl⟩ := held.concat ends
    exact .neg (inner h1 held rfl) has
  | not =>
    cases pure_eq_ok.mp h
    obtain ⟨held, _, rfl, has, rfl⟩ := held.concat ends
    exact .not (inner h1 held rfl) has

end Operators

mutual

theorem exprAt_of_compile : ∀ (e : Expr) {line : Option Int} {base next : Nat}
    {is : List Instruction}, compileExpr scope line base e = .ok is → code.Holds base is →
    next = base + is.length → ExprAt code scope line base e next
  | .literal _ _ _, _, _, _, _, h, held, same => by
    simp only [compileExpr, pure_eq_ok] at h
    subst h same
    exact .literal (holds_cons.mp held).1
  | .var _ _, _, _, _, _, h, held, same => by
    simp only [compileExpr, pure_eq_ok] at h
    subst h same
    exact .var (holds_cons.mp held).1
  | .binary _ op left right, _, _, _, _, h, held, same =>
    laidOut_binary op (fun _ _ _ _ => exprAt_of_compile left)
      (fun _ _ _ _ => exprAt_of_compile right) h held same
  | .unary _ op operand, _, _, _, _, h, held, same =>
    laidOut_unary op (fun _ _ _ _ => exprAt_of_compile operand) h held same
  | .call _ _ args, _, _, _, _, h, held, same => by
    simp only [compileExpr, bind_eq_ok, pure_eq_ok] at h
    obtain ⟨inner, h1, name, named, rfl⟩ := h
    obtain ⟨held, _, rfl, has, rfl⟩ := held.concat same
    exact .call named (exprsAt_of_compile args h1 held rfl) has
  | .new _ _ args, _, _, _, _, h, held, same => by
    simp only [compileExpr, bind_eq_ok, pure_eq_ok] at h
    obtain ⟨inner, h1, rfl⟩ := h
    obtain ⟨held, _, rfl, has, rfl⟩ := held.concat same
    exact .new (exprsAt_of_compile args h1 held rfl) has
  | .invoke _ object _ args, _, _, _, _, h, held, same => by
    simp only [compileExpr, bind_eq_ok, pure_eq_ok] at h
    obtain ⟨receiver, h1, inner, h2, rfl⟩ := h
    obtain ⟨held, _, mid, has, rfl⟩ := held.concat same
    obtain ⟨held1, held2, mid⟩ := held.append mid
    exact .invoke (exprAt_of_compile object h1 held1 rfl) (exprsAt_of_compile args h2 held2 mid) has
  | .list _ elements, _, _, _, _, h, held, same => by
    simp only [compileExpr, bind_eq_ok, pure_eq_ok] at h
    obtain ⟨inner, h1, rfl⟩ := h
    obtain ⟨held, _, rfl, has, rfl⟩ := held.concat same
    exact .list (exprsAt_of_compile elements h1 held rfl) has
  | .record _ entries, _, _, _, _, h, held, same => by
    simp only [compileExpr, bind_eq_ok, pure_eq_ok] at h
    obtain ⟨inner, h1, rfl⟩ := h
    obtain ⟨held, _, rfl, has, rfl⟩ := held.concat same
    exact .record (entriesAt_of_compile entries h1 held rfl) has
  | .index _ object position, _, _, _, _, h, held, same => by
    simp only [compileExpr, bind_eq_ok, pure_eq_ok] at h
    obtain ⟨first, h1, second, h2, rfl⟩ := h
    obtain ⟨held, _, mid, has, rfl⟩ := held.concat same
    obtain ⟨held1, held2, mid⟩ := held.append mid
    exact .index (exprAt_of_compile object h1 held1 rfl) (exprAt_of_compile position h2 held2 mid) has
  | .slice _ object start stop, _, _, _, _, h, held, same => by
    simp only [compileExpr, bind_eq_ok, pure_eq_ok] at h
    obtain ⟨first, h1, second, h2, third, h3, rfl⟩ := h
    obtain ⟨held, _, last, has, rfl⟩ := held.concat same
    obtain ⟨held, held3, last⟩ := held.append last
    obtain ⟨held1, held2, mid⟩ := held.append rfl
    rw [mid] at held3 last
    exact .slice (exprAt_of_compile object h1 held1 rfl) (boundAt_of_compile start h2 held2 rfl)
      (boundAt_of_compile stop h3 held3 last) has
  | .member _ object _, _, _, _, _, h, held, same => by
    simp only [compileExpr, bind_eq_ok, pure_eq_ok] at h
    obtain ⟨inner, h1, rfl⟩ := h
    obtain ⟨held, names, rfl⟩ := held.append same
    simp only [holds_cons] at names
    obtain ⟨push, get, -⟩ := names
    exact .member (exprAt_of_compile object h1 held rfl) push get
  | .alien _, _, _, _, _, h, _, _ => by
    simp only [compileExpr] at h
    exact absurd h refuse_ne_ok

theorem exprsAt_of_compile : ∀ (es : List Expr) {line : Option Int} {base next : Nat}
    {is : List Instruction}, compileExprs scope line base es = .ok is → code.Holds base is →
    next = base + is.length → ExprsAt code scope line base es next
  | [], _, _, _, _, h, held, same => by
    simp only [compileExprs, pure_eq_ok] at h
    subst h same
    exact .nil
  | e :: es, _, _, _, _, h, held, same => by
    simp only [compileExprs, bind_eq_ok, pure_eq_ok] at h
    obtain ⟨first, h1, rest, h2, rfl⟩ := h
    obtain ⟨held1, held2, same⟩ := held.append same
    exact .cons (exprAt_of_compile e h1 held1 rfl) (exprsAt_of_compile es h2 held2 same)

theorem boundAt_of_compile : ∀ (bound : Option Expr) {line : Option Int} {base next : Nat}
    {is : List Instruction}, compileBound scope line base bound = .ok is → code.Holds base is →
    next = base + is.length → BoundAt code scope line base bound next
  | none, _, _, _, _, h, held, same => by
    simp only [compileBound, pure_eq_ok] at h
    subst h same
    exact .absent (holds_cons.mp held).1
  | some e, _, _, _, _, h, held, same => by
    simp only [compileBound] at h
    exact .present (exprAt_of_compile e h held same)

theorem entriesAt_of_compile : ∀ (entries : List (Constant × Expr)) {line : Option Int}
    {base next : Nat} {is : List Instruction}, compileEntries scope line base entries = .ok is →
    code.Holds base is → next = base + is.length → EntriesAt code scope line base entries next
  | [], _, _, _, _, h, held, same => by
    simp only [compileEntries, pure_eq_ok] at h
    subst h same
    exact .nil
  | (key, e) :: entries, _, base, next, _, h, held, same => by
    simp only [compileEntries, bind_eq_ok, pure_eq_ok] at h
    obtain ⟨first, h1, rest, h2, rfl⟩ := h
    simp only [List.cons_append, holds_cons, holds_append] at held
    simp only [List.cons_append, List.length_cons, List.length_append] at same
    exact .cons held.1 (exprAt_of_compile e h1 held.2.1 rfl)
      (entriesAt_of_compile entries h2 held.2.2 (by omega))

end

@[simp] theorem compile_bind {α β : Type} {x : Compile α} {f : α → Compile β} {n n' : Nat} {b : β} :
    (x >>= f) n = .ok (b, n') ↔ ∃ a m, x n = .ok (a, m) ∧ f a m = .ok (b, n') := by
  have run : (x >>= f) n = (x n >>= fun p => f p.1 p.2) := rfl
  rw [run, bind_eq_ok]
  exact Prod.exists

@[simp] theorem compile_pure {α : Type} {a b : α} {n n' : Nat} :
    (pure a : Compile α) n = .ok (b, n') ↔ a = b ∧ n = n' := by
  have run : (pure a : Compile α) n = .ok (a, n) := rfl
  rw [run, Except.ok.injEq, Prod.mk.injEq]

@[simp] theorem compile_lift {α : Type} {x : Except Failure α} {n n' : Nat} {a : α} :
    (liftM x : Compile α) n = .ok (a, n') ↔ x = .ok a ∧ n = n' := by
  have run : (liftM x : Compile α) n = (x >>= fun a => pure (a, n)) := rfl
  rw [run, bind_eq_ok]
  constructor
  · rintro ⟨a', rfl, same⟩
    cases same
    exact ⟨rfl, rfl⟩
  · rintro ⟨rfl, rfl⟩
    exact ⟨a, rfl, rfl⟩

@[simp] theorem compile_plainExpr {line : Option Int} {base n n' : Nat} {e : Expr}
    {is : List Instruction} :
    plainExpr scope line base e n = .ok (is, n') ↔
      compileExpr scope line base e = .ok is ∧ n = n' := compile_lift

@[simp] theorem compile_freshNumber {k n n' : Nat} :
    freshNumber n = .ok (k, n') ↔ n = k ∧ n + 1 = n' := by
  have run : freshNumber n = .ok (n, n + 1) := rfl
  rw [run, Except.ok.injEq, Prod.mk.injEq]

@[simp] theorem compile_throw {α : Type} {failure : Failure} {n : Nat} {r : α × Nat} :
    (throw failure : Compile α) n ≠ .ok r := by
  intro same
  cases same

@[simp] theorem compile_refuse {α : Type} {pos : Pos} {line : Option Int} {message : String}
    {suggestion : Option String} {n : Nat} {r : α × Nat} :
    (scope.refuse pos line message suggestion : Compile α) n ≠ .ok r := compile_throw

/-- What holds of the code of a body: its length, and that it is laid out where it stands. -/
structure Placed (code : Code) (scope : Scope) (loop : Option LoopTargets) (n base : Nat)
    (body : List Stmt) (n' : Nat) (is : List Instruction) : Prop where
  length : is.length = stmtsLength body
  layout : code.Holds base is → StmtsAt code scope loop n base body n' (base + is.length)

/-- The same of one statement. -/
structure StmtPlaced (code : Code) (scope : Scope) (loop : Option LoopTargets) (n base : Nat)
    (s : Stmt) (n' : Nat) (is : List Instruction) : Prop where
  length : is.length = stmtLength s
  layout : code.Holds base is → ∀ next, next = base + is.length →
    StmtAt code scope loop n base s n' next

/-- The same of the arms of a branch behind its first one. -/
structure ElifsPlaced (code : Code) (scope : Scope) (loop : Option LoopTargets) (finish : Nat)
    (lastArm : Bool) (n base : Nat) (es : List Elif) (n' : Nat) (is : List Instruction) : Prop where
  length : is.length = elifsLength lastArm es
  layout : code.Holds base is → (lastArm = true → finish = base + is.length) →
    ElifsAt code scope loop finish lastArm n base es n' (base + is.length)

/-- The same of the last resort of a branch. -/
structure OtherwisePlaced (code : Code) (scope : Scope) (loop : Option LoopTargets) (n base : Nat)
    (otherwise : Option (List Stmt)) (n' : Nat) (is : List Instruction) : Prop where
  length : is.length = otherwiseLength otherwise
  layout : code.Holds base is →
    OtherwiseAt code scope loop n base otherwise n' (base + is.length)

section Arms

variable {line : Option Int} {loop : Option LoopTargets} {base finish target n n' : Nat}
  {only : Bool} {test : Expr} {body : List Stmt} {arm inner : List Instruction}

/-- The code of an arm of a branch: its test, its body, and the jump over the other arms. -/
def armCode (line : Option Int) (target finish : Nat) (only : Bool) (arm inner : List Instruction) :
    List Instruction :=
  arm ++ ⟨.jumpIfNot, .int (target : Nat), line⟩ :: inner ++
    if only = true then [] else [⟨.jump, .int (finish : Nat), line⟩]

theorem armCode_length (compiled : compileExpr scope line base test = .ok arm)
    (inside : inner.length = stmtsLength body) :
    (armCode line target finish only arm inner).length =
      exprLength test + 1 + stmtsLength body + if only = true then 0 else 1 := by
  cases only <;>
  · simp only [armCode, List.length_append, List.length_cons, compileExpr_length test compiled, inside]
    simp
    omega

theorem arm_placed (compiled : compileExpr scope line base test = .ok arm)
    (inside : Placed code scope loop n (base + arm.length + 1) body n' inner)
    (held : code.Holds base (armCode line target finish only arm inner))
    (skips : target = base + (armCode line target finish only arm inner).length)
    (through : only = true → finish = target) :
    ∃ mid last, ExprAt code scope line base test mid ∧
      code.Has mid ⟨.jumpIfNot, .int (target : Nat), line⟩ ∧
      StmtsAt code scope loop n (mid + 1) body n' last ∧
      ExitAt code line last finish target only := by
  simp only [armCode, List.append_assoc, List.cons_append] at held skips
  rw [holds_append, holds_cons, holds_append] at held
  obtain ⟨heldTest, skip, heldBody, heldJump⟩ := held
  refine ⟨_, _, exprAt_of_compile test compiled heldTest rfl, skip, inside.layout heldBody, ?_⟩
  simp only [List.length_append, List.length_cons] at skips
  cases only with
  | true =>
    rw [if_pos rfl, List.length_nil] at skips
    exact ⟨by omega, (through rfl).symm⟩
  | false =>
    rw [if_neg Bool.false_ne_true, List.length_singleton] at skips
    exact ⟨by omega, (holds_cons.mp heldJump).1⟩

end Arms

-- The forms below are independent of each other; the equations of the compiler are made once, here.
attribute [local simp] compileStmt compileElifs compileElif stmtLength elifsLength elifLength

section Branch

variable {loop : Option LoopTargets} {base finish n n' : Nat} {lastArm : Bool} {pos : Pos}
  {test : Expr} {body : List Stmt} {is : List Instruction}
  (placed : ∀ {base n n' : Nat} {is : List Instruction},
    compileStmts scope loop base body n = .ok (is, n') → Placed code scope loop n base body n' is)

include placed

theorem elif_placed {es : List Elif} (others : ∀ {base n n' : Nat} {is : List Instruction},
      compileElifs scope loop finish lastArm base es n = .ok (is, n') →
        ElifsPlaced code scope loop finish lastArm n base es n' is)
    (h : compileElifs scope loop finish lastArm base (.mk pos test body :: es) n = .ok (is, n')) :
    ElifsPlaced code scope loop finish lastArm n base (.mk pos test body :: es) n' is := by
  simp only [compileElifs, compileElif, compile_bind, compile_plainExpr, compile_pure] at h
  obtain ⟨_, _, ⟨arm, _, ⟨h1, rfl⟩, inner, _, h2, rfl, rfl⟩, rest, _, h3, rfl, rfl⟩ := h
  have inside := placed h2
  have others := others h3
  generalize single : (lastArm && es.isEmpty) = only at *
  generalize skips : base + arm.length + 1 + inner.length + List.length _ = target at *
  have armLength : (armCode pos.line target finish only arm inner).length =
      exprLength test + 1 + stmtsLength body + if only = true then 0 else 1 :=
    armCode_length h1 inside.length
  have whole : target = base + (armCode pos.line target finish only arm inner).length := by
    rw [armLength, ← skips, compileExpr_length test h1, inside.length]
    cases only <;>
    · simp
      omega
  change ElifsPlaced _ _ _ _ _ _ (base + (armCode pos.line target finish only arm inner).length) _ _ _
    at others
  change ElifsPlaced _ _ _ _ _ _ _ _ _ (armCode pos.line target finish only arm inner ++ rest)
  refine ⟨?_, fun held through => ?_⟩
  · rw [List.length_append, armLength, others.length, elifsLength, single, elifLength]
  · obtain ⟨heldArm, heldRest⟩ := holds_append.mp held
    rw [List.length_append, ← Nat.add_assoc, ← whole] at through ⊢
    rw [← whole] at others heldRest
    have alone : only = true → finish = target := by
      intro yes
      rw [← single, Bool.and_eq_true, List.isEmpty_iff] at yes
      obtain ⟨last, rfl⟩ := yes
      rw [through last, others.length]
      rfl
    obtain ⟨mid, last, tested, skip, inside, exit⟩ := arm_placed h1 inside heldArm whole alone
    exact .cons tested skip inside (single ▸ exit) (others.layout heldRest through)

theorem branch_placed {elifs : List Elif} {otherwise : Option (List Stmt)}
    (others : ∀ {finish base n n' : Nat} {is : List Instruction},
      compileElifs scope loop finish otherwise.isNone base elifs n = .ok (is, n') →
        ElifsPlaced code scope loop finish otherwise.isNone n base elifs n' is)
    (last : ∀ {base n n' : Nat} {is : List Instruction},
      compileOtherwise scope loop base otherwise n = .ok (is, n') →
        OtherwisePlaced code scope loop n base otherwise n' is)
    (h : compileStmt scope loop base (.branch pos test body elifs otherwise) n = .ok (is, n')) :
    StmtPlaced code scope loop n base (.branch pos test body elifs otherwise) n' is := by
  simp only [compileStmt, compile_bind, compile_plainExpr, compile_pure] at h
  obtain ⟨arm, _, ⟨h1, rfl⟩, inner, _, h2, elifCode, _, h3, elseCode, _, h4, rfl, rfl⟩ := h
  have inside := placed h2
  have others := others h3
  have last := last h4
  generalize single : (elifs.isEmpty && otherwise.isNone) = only at *
  have armLength (target finish : Nat) : (armCode pos.line target finish only arm inner).length =
      exprLength test + 1 + stmtsLength body + if only = true then 0 else 1 :=
    armCode_length h1 inside.length
  generalize skips : base + (exprLength test + 1 + stmtsLength body + if only = true then 0 else 1) =
    target at *
  generalize ends : target + elifsLength otherwise.isNone elifs + otherwiseLength otherwise = finish at *
  have whole : target = base + (armCode pos.line target finish only arm inner).length := by
    rw [armLength, skips]
  change StmtPlaced _ _ _ _ _ _ _ (armCode pos.line target finish only arm inner ++ elifCode ++ elseCode)
  refine ⟨?_, fun held next same => ?_⟩
  · rw [List.length_append, List.length_append, armLength, others.length, last.length, stmtLength, single]
  · rw [holds_append, holds_append, List.length_append, ← Nat.add_assoc, ← whole] at held
    obtain ⟨⟨heldArm, heldElifs⟩, heldElse⟩ := held
    rw [List.length_append, List.length_append, ← Nat.add_assoc, ← Nat.add_assoc, ← whole,
      others.length, last.length, ends] at same
    subst same
    have alone : only = true → next = target := by
      intro yes
      rw [← single, Bool.and_eq_true, List.isEmpty_iff, Option.isNone_iff_eq_none] at yes
      obtain ⟨rfl, rfl⟩ := yes
      exact ends.symm
    have noElse : otherwise.isNone = true → next = target + elifCode.length := by
      intro none
      rw [others.length, ← ends, Option.isNone_iff_eq_none.mp none]
      rfl
    obtain ⟨mid, inside, tested, skip, body, exit⟩ := arm_placed h1 inside heldArm whole alone
    have elifsAt := others.layout heldElifs noElse
    rw [others.length] at elifsAt heldElse
    have elseAt := last.layout heldElse
    rw [last.length, ends] at elseAt
    exact .branch tested skip body (single ▸ exit) elifsAt elseAt

end Branch

theorem rangeTest_length {line : Option Int} {base : Nat} {var : Constant} {stop : String}
    {step : Number ⊕ String} :
    (rangeTest line base var stop step).length = match step with
      | .inl _ => 3
      | .inr _ => 11 := by
  cases step <;> rfl

/-- The rounds of a range loop behind a setup that has been placed. -/
theorem compileRange_placed {line : Option Int} {base n n' : Nat} {setup is : List Instruction}
    {var : Constant} {stop : String} {step : Number ⊕ String} {pushStep : Instruction}
    {body : List Stmt} (h : compileRange line base setup var stop step pushStep (stmtsLength body)
      (fun targets start => compileStmts scope (some targets) start body) n = .ok (is, n'))
    (placed : ∀ {loop base inner}, compileStmts scope loop base body n = .ok (inner, n') →
      Placed code scope loop n base body n' inner) :
    is.length = setup.length + (rangeTest line (base + setup.length) var stop step).length + 1 +
        stmtsLength body + 5 ∧
      (code.Holds base is → code.Holds base setup ∧ ∃ again,
        base + is.length = again + 5 ∧
        code.Holds (base + setup.length) (rangeTest line (base + setup.length) var stop step ++
          [⟨.jumpIfNot, .int (again + 5 : Nat), line⟩]) ∧
        StmtsAt code scope (some ⟨again + 5, again⟩) n
          (base + setup.length + (rangeTest line (base + setup.length) var stop step).length + 1)
          body n' again ∧
        code.Holds again [⟨.load, var.value, line⟩, pushStep, ⟨.add, .null, line⟩,
          ⟨.store, var.value, line⟩, ⟨.jump, .int (base + setup.length : Nat), line⟩]) := by
  simp only [compileRange, compile_bind, compile_pure] at h
  obtain ⟨inner, _, h1, rfl, rfl⟩ := h
  have inside := placed h1
  refine ⟨by simp [inside.length]; omega, fun held => ?_⟩
  have parts := held
  simp only [List.append_assoc, List.cons_append] at parts
  rw [holds_append, holds_append, holds_cons, holds_append] at parts
  obtain ⟨heldSetup, heldTest, skip, heldBody, heldAgain⟩ := parts
  have layout := inside.layout heldBody
  rw [inside.length] at layout heldAgain
  refine ⟨heldSetup, base + setup.length + (rangeTest line (base + setup.length) var stop
    step).length + 1 + stmtsLength body, ?_, ?_, ?_, heldAgain⟩
  · simp [inside.length]
    omega
  · rw [holds_append, holds_cons]
    exact ⟨heldTest, skip, holds_nil _ _⟩
  · exact layout

section Loops

variable {loop : Option LoopTargets} {base n n' : Nat} {pos : Pos} {body : List Stmt}
  {is : List Instruction}

/-- The parts of the code of a counted loop: a setup that gives its limit, then the rounds. -/
theorem times_parts {count : Expr}
    (h : compileStmt scope loop base (.loopTimes pos count body) n = .ok (is, n')) :
    ∃ setup limit first inner,
      setup.length = (if count.count?.isSome then 0 else exprLength count + 2) ∧
      (∀ {code : Code}, code.Holds base setup →
        LimitAt code scope pos.line n base count first (base + setup.length) limit) ∧
      compileStmts scope (some ⟨base + setup.length + 1 + 4 + stmtsLength body + 3,
        base + setup.length + 1 + 4 + stmtsLength body⟩) (base + setup.length + 1 + 4) body first =
          .ok (inner, n') ∧
      is = setup ++ [⟨.push, .int 0, pos.line⟩, ⟨.dup, .null, pos.line⟩, limit,
          ⟨.gte, .null, pos.line⟩,
          ⟨.jumpIf, .int (base + setup.length + 1 + 4 + stmtsLength body + 3 : Nat), pos.line⟩] ++
        inner ++ [⟨.push, .int 1, pos.line⟩, ⟨.add, .null, pos.line⟩,
          ⟨.jump, .int (base + setup.length + 1 : Nat), pos.line⟩, ⟨.pop, .null, pos.line⟩] := by
  simp only [compileStmt] at h
  cases known : count.count? with
  | some k =>
    simp only [known, compile_bind, compile_pure] at h
    obtain ⟨_, _, ⟨rfl, rfl⟩, inner, _, h1, rfl, rfl⟩ := h
    exact ⟨[], _, _, inner, rfl, fun _ => .literal known, h1, rfl⟩
  | none =>
    simp only [known, compile_bind, compile_pure, compile_freshNumber, compile_plainExpr] at h
    obtain ⟨_, _, ⟨rfl, rfl⟩, counted, _, ⟨h1, rfl⟩, _, _, ⟨rfl, rfl⟩, inner, _, h2, rfl, rfl⟩ := h
    refine ⟨_, ⟨.load, .text s!"{rangeMark}count_{n}", pos.line⟩, _, inner, ?_, fun held => ?_, h2,
      ?_⟩
    · simp [compileExpr_length count h1]
    · obtain ⟨heldCount, kept⟩ := holds_append.mp held
      simp only [holds_cons] at kept
      simp only [List.length_append, List.length_cons, List.length_nil, ← Nat.add_assoc]
      exact .computed known (exprAt_of_compile count h1 heldCount rfl) kept.1 kept.2.1
    · simp only [List.append_assoc, List.cons_append, List.nil_append]

variable (placed : ∀ {loop : Option LoopTargets} {base n n' : Nat} {is : List Instruction},
    compileStmts scope loop base body n = .ok (is, n') → Placed code scope loop n base body n' is)

include placed

theorem times_placed {count : Expr}
    (h : compileStmt scope loop base (.loopTimes pos count body) n = .ok (is, n')) :
    StmtPlaced code scope loop n base (.loopTimes pos count body) n' is := by
  obtain ⟨setup, limit, first, inner, length, limits, compiled, rfl⟩ := times_parts h
  have inside := placed compiled
  refine ⟨?_, fun held next same => ?_⟩
  · simp only [List.length_append, List.length_cons, List.length_nil, stmtLength, length,
      inside.length]
    omega
  · simp only [holds_append, List.length_append, List.length_cons, List.length_nil,
      inside.length, ← Nat.add_assoc] at held
    obtain ⟨⟨⟨heldSetup, heldTest⟩, heldBody⟩, heldAgain⟩ := held
    have layout := inside.layout heldBody
    rw [inside.length] at layout
    simp only [List.length_append, List.length_cons, List.length_nil, inside.length] at same
    obtain rfl : next = base + setup.length + 1 + 4 + stmtsLength body + 4 := by omega
    exact .loopTimes (limits heldSetup) heldTest layout heldAgain

theorem while_placed {test : Expr}
    (h : compileStmt scope loop base (.loopWhile pos test body) n = .ok (is, n')) :
    StmtPlaced code scope loop n base (.loopWhile pos test body) n' is := by
  simp only [compileStmt, compile_bind, compile_plainExpr, compile_pure] at h
  obtain ⟨first, _, ⟨h1, rfl⟩, inner, _, h2, rfl, rfl⟩ := h
  have inside := placed h2
  refine ⟨?_, fun held next same => ?_⟩
  · simp only [List.length_append, List.length_cons, List.length_nil, stmtLength, inside.length,
      compileExpr_length test h1]
    omega
  · simp only [List.append_assoc, List.cons_append, holds_cons, holds_append] at held
    simp only [List.length_append, List.length_cons, List.length_nil, inside.length] at same
    obtain ⟨heldTest, skip, heldBody, back, -⟩ := held
    have layout := inside.layout heldBody
    rw [inside.length] at layout back
    obtain rfl : next = base + first.length + 1 + stmtsLength body + 1 := by omega
    exact .loopWhile (exprAt_of_compile test h1 heldTest rfl) skip layout back

omit placed in
/-- The parts of the code of a range: a setup that gives its end and its step, then the rounds. -/
theorem range_parts {var : Constant} {start stop : Expr} {step : Option Expr}
    (h : compileStmt scope loop base (.loopRange pos var start stop step body) n = .ok (is, n')) :
    ∃ setup stopName known pushStep,
      setup.length + (rangeTest pos.line (base + setup.length) var stopName known).length + 1 +
        stmtsLength body + 5 = stmtLength (.loopRange pos var start stop step body) ∧
      (∀ {code : Code}, code.Holds base setup → RangeAt code scope pos.line n base var start stop step
        (base + setup.length) stopName known pushStep) ∧
      compileRange pos.line base setup var stopName known pushStep (stmtsLength body)
        (fun targets start => compileStmts scope (some targets) start body) (n + 1) = .ok (is, n') := by
  simp only [compileStmt] at h
  cases kind : RangeStep.of step with
  | unfit => simp only [kind, compile_throw] at h
  | known v =>
    simp only [kind] at h
    split at h
    · simp only [compile_refuse] at h
    next positive =>
    simp only [compile_bind, compile_freshNumber, compile_plainExpr] at h
    obtain ⟨_, _, ⟨rfl, rfl⟩, first, _, ⟨h1, rfl⟩, second, _, ⟨h2, rfl⟩, h⟩ := h
    cases weight : v.weight? with
    | none => simp only [weight, compile_throw] at h
    | some number =>
      simp only [weight] at h
      simp only [weight, Option.any_some, Bool.not_eq_true] at positive
      refine ⟨_, _, _, _, ?_, fun held => ?_, h⟩
      · cases step <;>
        simp only [stmtLength, kind, RangeStep.isKnown, rangeTest_length,
          List.length_append, List.length_cons, List.length_nil, if_true,
          compileExpr_length start h1, compileExpr_length stop h2]
      · rw [List.append_assoc, holds_append, holds_append] at held
        simp only [List.length_append, List.length_cons, List.length_nil, ← Nat.add_assoc]
        exact .known kind weight positive (exprAt_of_compile start h1 held.1 rfl)
          (exprAt_of_compile stop h2 held.2.1 rfl) held.2.2
  | computed =>
    simp only [kind, compile_bind, compile_freshNumber, compile_plainExpr, compile_lift] at h
    obtain ⟨_, _, ⟨rfl, rfl⟩, first, _, ⟨h1, rfl⟩, second, _, ⟨h2, rfl⟩, third, _, ⟨h3, rfl⟩, h⟩ :=
      h
    refine ⟨_, _, _, _, ?_, fun held => ?_, h⟩
    · cases step with
      | none => simp [RangeStep.of] at kind
      | some e =>
        have stepLength := compileBound_length (some e) h3
        simp only [boundLength] at stepLength
        simp only [stmtLength, kind, RangeStep.isKnown, rangeTest_length,
          List.length_append, List.length_cons, List.length_nil, Bool.false_eq_true, if_false,
          compileExpr_length start h1, compileExpr_length stop h2, stepLength]
    · rw [List.append_assoc, List.append_assoc, holds_append, holds_append, holds_append] at held
      simp only [List.length_append, List.length_cons, List.length_nil, ← Nat.add_assoc]
      exact .computed kind (exprAt_of_compile start h1 held.1 rfl)
        (exprAt_of_compile stop h2 held.2.1 rfl) (boundAt_of_compile step h3 held.2.2.1 rfl)
        held.2.2.2

theorem range_placed {var : Constant} {start stop : Expr} {step : Option Expr}
    (h : compileStmt scope loop base (.loopRange pos var start stop step body) n = .ok (is, n')) :
    StmtPlaced code scope loop n base (.loopRange pos var start stop step body) n' is := by
  obtain ⟨setup, stopName, known, pushStep, length, range, h⟩ := range_parts h
  obtain ⟨whole, layout⟩ := compileRange_placed h placed
  refine ⟨whole.trans length, fun held next same => ?_⟩
  obtain ⟨heldSetup, again, finish, heldTest, inside, heldAgain⟩ := layout held
  obtain rfl : next = again + 5 := by rw [same, finish]
  exact .loopRange (range heldSetup) heldTest inside heldAgain

theorem each_placed {var : Constant} {items : Expr}
    (h : compileStmt scope loop base (.loopEach pos var items body) n = .ok (is, n')) :
    StmtPlaced code scope loop n base (.loopEach pos var items body) n' is := by
  simp only [compileStmt, compile_bind, compile_freshNumber, compile_plainExpr,
    compile_pure] at h
  obtain ⟨_, _, ⟨rfl, rfl⟩, first, _, ⟨h1, rfl⟩, inner, _, h2, rfl, rfl⟩ := h
  have inside := placed h2
  refine ⟨?_, fun held next same => ?_⟩
  · simp only [List.length_append, List.length_cons, List.length_nil, stmtLength, inside.length,
      compileExpr_length items h1]
  · rw [List.append_assoc, List.append_assoc, holds_append, holds_append, holds_append] at held
    simp only [List.length_append, List.length_cons, List.length_nil, inside.length] at same
    obtain ⟨heldItems, heldSetup, heldBody, heldAgain⟩ := held
    have layout := inside.layout heldBody
    rw [inside.length] at layout heldAgain
    obtain rfl : next = base + first.length + 6 + 8 + stmtsLength body + 5 := by omega
    exact .loopEach (exprAt_of_compile items h1 heldItems rfl) heldSetup layout heldAgain

end Loops

mutual

theorem stmt_placed : ∀ (s : Stmt) {loop : Option LoopTargets} {base n n' : Nat}
    {is : List Instruction}, compileStmt scope loop base s n = .ok (is, n') →
    StmtPlaced code scope loop n base s n' is
  | .expr _ value, _, _, _, _, _, h => by
    simp only [compileStmt, compile_bind, compile_plainExpr, compile_pure] at h
    obtain ⟨inner, _, ⟨h1, rfl⟩, rfl, rfl⟩ := h
    refine ⟨by simp [stmtLength, compileExpr_length value h1], fun held next same => ?_⟩
    obtain ⟨held, _, rfl, has, rfl⟩ := held.concat same
    exact .expr (exprAt_of_compile value h1 held rfl) has
  | .assign _ _ value, _, _, _, _, _, h => by
    simp only [compileStmt, compile_bind, compile_plainExpr, compile_pure] at h
    obtain ⟨inner, _, ⟨h1, rfl⟩, rfl, rfl⟩ := h
    refine ⟨by simp [stmtLength, compileExpr_length value h1], fun held next same => ?_⟩
    obtain ⟨held, _, rfl, has, rfl⟩ := held.concat same
    exact .assign (exprAt_of_compile value h1 held rfl) has
  | .update _ target op value, _, base, _, _, _, h => by
    rcases target with (_ | _ | _ | name) | _
    case scalar.text =>
      cases known : updateOpcode? op with
      | none =>
        simp only [compileStmt, known, compile_bind, compile_refuse, and_false, exists_false] at h
      | some opcode =>
        simp only [compileStmt, known, compile_bind, compile_plainExpr, compile_pure] at h
        obtain ⟨inner, _, ⟨h1, rfl⟩, rfl, rfl⟩ := h
        refine ⟨by simp [stmtLength, compileExpr_length value h1], fun held next same => ?_⟩
        simp only [List.cons_append, holds_append, holds_cons] at held
        simp only [List.cons_append, List.length_append, List.length_cons, List.length_nil] at same
        obtain rfl : next = base + 1 + inner.length + 2 := by omega
        exact .update known held.1 (exprAt_of_compile value h1 held.2.1 rfl) held.2.2.1
          held.2.2.2.1
    all_goals simp only [compileStmt, compile_refuse] at h
  | .setIndex _ object position value, _, _, _, _, _, h => by
    simp only [compileStmt, compile_bind, compile_plainExpr, compile_pure] at h
    obtain ⟨first, _, ⟨h1, rfl⟩, second, _, ⟨h2, rfl⟩, third, _, ⟨h3, rfl⟩, rfl, rfl⟩ := h
    refine ⟨by simp [stmtLength, compileExpr_length object h1, compileExpr_length position h2,
      compileExpr_length value h3, Nat.add_assoc], fun held next same => ?_⟩
    obtain ⟨held, _, last, has, rfl⟩ := held.concat same
    obtain ⟨held, held3, last⟩ := held.append last
    obtain ⟨held1, held2, mid⟩ := held.append rfl
    rw [mid] at held3 last
    exact .setIndex (exprAt_of_compile object h1 held1 rfl) (exprAt_of_compile position h2 held2 rfl)
      (exprAt_of_compile value h3 held3 last) has
  | .setMember _ object _ value, _, base, _, _, _, h => by
    simp only [compileStmt, compile_bind, compile_plainExpr, compile_pure] at h
    obtain ⟨first, _, ⟨h1, rfl⟩, second, _, ⟨h2, rfl⟩, rfl, rfl⟩ := h
    refine ⟨by simp [stmtLength, compileExpr_length object h1, compileExpr_length value h2]; omega,
      fun held next same => ?_⟩
    simp only [List.append_assoc, List.cons_append] at held
    rw [holds_append, holds_cons, holds_append, holds_cons] at held
    obtain ⟨held1, named, held2, last, -⟩ := held
    simp only [List.length_append, List.length_cons, List.length_nil] at same
    obtain rfl : next = base + first.length + 1 + second.length + 1 := by omega
    exact .setMember (exprAt_of_compile object h1 held1 rfl) named
      (exprAt_of_compile value h2 held2 rfl) last
  | .branch _ _ body elifs otherwise, _, _, _, _, _, h =>
    branch_placed (stmts_placed body) (elifs_placed elifs) (otherwise_placed otherwise) h
  | .loopTimes _ _ body, _, _, _, _, _, h => times_placed (stmts_placed body) h
  | .loopWhile _ _ body, _, _, _, _, _, h => while_placed (stmts_placed body) h
  | .loopRange _ _ _ _ _ body, _, _, _, _, _, h => range_placed (stmts_placed body) h
  | .loopEach _ _ _ body, _, _, _, _, _, h => each_placed (stmts_placed body) h
  | .leave _, loop, _, _, _, _, h => by
    cases loop with
    | none => simp only [compileStmt, compile_refuse] at h
    | some targets =>
      simp only [compileStmt, compile_pure] at h
      obtain ⟨rfl, rfl⟩ := h
      refine ⟨rfl, ?_⟩
      rintro held _ rfl
      exact .leave (holds_cons.mp held).1
  | .again _, loop, _, _, _, _, h => by
    cases loop with
    | none => simp only [compileStmt, compile_refuse] at h
    | some targets =>
      simp only [compileStmt, compile_pure] at h
      obtain ⟨rfl, rfl⟩ := h
      refine ⟨rfl, ?_⟩
      rintro held _ rfl
      exact .again (holds_cons.mp held).1
  | .pass _, _, _, _, _, _, h => by
    simp only [compileStmt, compile_pure] at h
    obtain ⟨rfl, rfl⟩ := h
    refine ⟨rfl, ?_⟩
    rintro held _ rfl
    exact .pass (holds_cons.mp held).1
  | .define _, _, _, _, _, _, h => by simp only [compileStmt, compile_refuse] at h
  | .defineClass _ _ _, _, _, _, _, _, h => by simp only [compileStmt, compile_refuse] at h
  | .give _ value, _, _, _, _, _, h => by
    simp only [compileStmt, compile_bind, compile_lift, compile_pure] at h
    obtain ⟨inner, _, ⟨h1, rfl⟩, rfl, rfl⟩ := h
    refine ⟨by simp [stmtLength, compileBound_length value h1], fun held next same => ?_⟩
    obtain ⟨held, _, rfl, has, rfl⟩ := held.concat same
    exact .give (boundAt_of_compile value h1 held rfl) has
  | .alien _, _, _, _, _, _, h => by simp only [compileStmt, compile_refuse] at h

theorem stmts_placed : ∀ (ss : List Stmt) {loop : Option LoopTargets} {base n n' : Nat}
    {is : List Instruction}, compileStmts scope loop base ss n = .ok (is, n') →
    Placed code scope loop n base ss n' is
  | [], _, _, _, _, _, h => by
    simp only [compileStmts, compile_pure] at h
    obtain ⟨rfl, rfl⟩ := h
    exact ⟨rfl, fun _ => .nil⟩
  | s :: ss, _, _, _, _, _, h => by
    simp only [compileStmts, compile_bind, compile_pure] at h
    obtain ⟨first, _, h1, rest, _, h2, rfl, rfl⟩ := h
    have here := stmt_placed s h1
    have others := stmts_placed ss h2
    refine ⟨by simp [stmtsLength, here.length, others.length], fun held => ?_⟩
    obtain ⟨held1, held2⟩ := holds_append.mp held
    simp only [List.length_append, ← Nat.add_assoc]
    exact .cons (here.layout held1 _ rfl) (others.layout held2)

theorem elifs_placed : ∀ (es : List Elif) {loop : Option LoopTargets} {finish base n n' : Nat}
    {lastArm : Bool} {is : List Instruction},
    compileElifs scope loop finish lastArm base es n = .ok (is, n') →
    ElifsPlaced code scope loop finish lastArm n base es n' is
  | [], _, _, _, _, _, _, _, h => by
    simp only [compileElifs, compile_pure] at h
    obtain ⟨rfl, rfl⟩ := h
    exact ⟨rfl, fun _ _ => .nil⟩
  | .mk _ _ body :: es, _, _, _, _, _, _, _, h => elif_placed (stmts_placed body) (elifs_placed es) h

theorem otherwise_placed : ∀ (otherwise : Option (List Stmt)) {loop : Option LoopTargets}
    {base n n' : Nat} {is : List Instruction},
    compileOtherwise scope loop base otherwise n = .ok (is, n') →
    OtherwisePlaced code scope loop n base otherwise n' is
  | none, _, _, _, _, _, h => by
    simp only [compileOtherwise, compile_pure] at h
    obtain ⟨rfl, rfl⟩ := h
    exact ⟨rfl, fun _ => .absent⟩
  | some body, _, _, _, _, _, h => by
    simp only [compileOtherwise] at h
    have placed := stmts_placed body h
    exact ⟨placed.length, fun held => .present (placed.layout held)⟩

end

end Code

end Stepwise
