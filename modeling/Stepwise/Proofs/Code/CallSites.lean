import Stepwise.Proofs.Stack.Whole

/-!
Where the calls of compiled code come from. Each instruction that makes a call stands behind the code
of its operands, and it belongs to a call in the tree, or to a loop that asks for the length of its
items: `callAt_of_laidOut`.
-/
namespace Stepwise

/-- Instructions that make a call. -/
def Opcode.isCall : Opcode → Bool
  | .call | .callUser | .new | .methodCall => true
  | _ => false

/-- What a call names, and the expressions whose values it hands over. The receiver of a method is the
first of them. -/
structure CallSite where
  callee : String
  operands : List Expr

/-- A tree, by the conditions that hold of all its expressions and of all its statements. -/
def Nodes := (Expr → Prop) → (Stmt → Prop) → Prop

namespace Nodes

/-- What holds everywhere in a tree holds everywhere in a part of it. -/
def Includes (nodes part : Nodes) : Prop := ∀ p q, nodes p q → part p q

def HasExpr (nodes : Nodes) (e : Expr) : Prop := nodes.Includes fun p _ => e.Every p

def HasStmt (nodes : Nodes) (s : Stmt) : Prop := nodes.Includes fun p q => s.Every p q

variable {nodes part inner : Nodes}

theorem Includes.trans (first : nodes.Includes part) (second : part.Includes inner) :
    nodes.Includes inner :=
  fun p q all => second p q (first p q all)

/-- The calls that a tree makes, by the instructions that make them. A loop over items keeps them in a
hidden variable and asks for their length. -/
inductive Calls (nodes : Nodes) (scope : Scope) : Opcode → CallSite → Prop where
  | call {pos callee args name} : nodes.HasExpr (.call pos callee args) → callee.name = .ok name →
      nodes.Calls scope (scope.callOpcode name) ⟨callee.plain, args⟩
  | new {pos className args} : nodes.HasExpr (.new pos className args) →
      nodes.Calls scope .new ⟨className.plain, args⟩
  | invoke {pos object method args} : nodes.HasExpr (.invoke pos object method args) →
      nodes.Calls scope .methodCall ⟨method.plain, object :: args⟩
  | length {pos var items body} {number : Nat} : nodes.HasStmt (.loopEach pos var items body) →
      nodes.Calls scope .call
        ⟨"len", [.var {} (.scalar (.text s!"{Code.eachMark}arr_{number}"))]⟩

end Nodes

namespace Code

/-- The instruction at an address makes a call of the tree, with the code of its operands from `start`
on in front of it. -/
structure CallAt (code : Code) (scope : Scope) (nodes : Nodes) (a : Nat) (i : Instruction)
    (site : CallSite) (start : Nat) : Prop where
  calls : nodes.Calls scope i.op site
  operands : ∃ line, ExprsAt code scope line start site.operands a
  operand : i.operand = .text (callOperand site.callee site.operands.length)

/-- If the instruction at an address makes a call, the call has its place in the tree. -/
def Sited (code : Code) (scope : Scope) (nodes : Nodes) (a : Nat) : Prop :=
  ∀ i, code.Has a i → i.op.isCall = true → ∃ site start, code.CallAt scope nodes a i site start

variable {code : Code} {scope : Scope} {nodes : Nodes}

theorem Sited.of_calls {a start : Nat} {i : Instruction} {site : CallSite} {line : Option Int}
    (has : code.Has a i) (calls : nodes.Calls scope i.op site)
    (operands : ExprsAt code scope line start site.operands a)
    (operand : i.operand = .text (callOperand site.callee site.operands.length)) :
    code.Sited scope nodes a := by
  intro i' has' _
  obtain rfl := Option.some.inj (has.symm.trans has')
  exact ⟨site, start, calls, ⟨line, operands⟩, operand⟩

theorem Sited.of_plain {a : Nat} {i : Instruction} (has : code.Has a i) (plain : i.op.isCall = false) :
    code.Sited scope nodes a := by
  intro i' has' calls
  obtain rfl := Option.some.inj (has.symm.trans has')
  rw [plain] at calls
  cases calls

theorem sited_holds {base : Nat} {is : List Instruction} (holds : code.Holds base is)
    (plain : ∀ i ∈ is, i.op.isCall = false) :
    Along (code.Sited scope nodes) base (base + is.length) := by
  induction is generalizing base with
  | nil => exact .nil _
  | cons i is ih =>
    rw [holds_cons] at holds
    have rest := ih holds.2 fun j member => plain j (List.mem_cons_of_mem _ member)
    rw [List.length_cons, Nat.add_comm is.length, ← Nat.add_assoc]
    exact (Along.one (.of_plain holds.1 (plain i List.mem_cons_self))).append rest

theorem isCall_binary {op : BinaryOp} {opcode : Opcode} (known : binaryOpcode? op = some opcode) :
    opcode.isCall = false := by
  cases op <;> cases known <;> rfl

theorem isCall_update {op : UpdateOp} {opcode : Opcode} (known : updateOpcode? op = some opcode) :
    opcode.isCall = false := by
  cases op <;> cases known <;> rfl

mutual

theorem expr_sited : ∀ (e : Expr) {line : Option Int} {base next : Nat},
    ExprAt code scope line base e next → nodes.HasExpr e →
    Along (code.Sited scope nodes) base next
  | .literal _ _ _, _, _, _, placed, _ => by
    cases placed with | literal has => exact .one (.of_plain has rfl)
  | .var _ _, _, _, _, placed, _ => by
    cases placed with | var has => exact .one (.of_plain has rfl)
  | .binary _ _ left right, _, _, _, placed, within => by
    have inLeft : nodes.HasExpr left := within.trans fun p q all => all.2.1
    have inRight : nodes.HasExpr right := within.trans fun p q all => all.2.2
    cases placed with
    | and first dup skip pop second | or first dup skip pop second =>
      have tests := (((expr_sited left first inLeft).snoc (.of_plain dup rfl)).snoc
        (.of_plain skip rfl)).snoc (.of_plain pop rfl)
      exact tests.append (expr_sited right second inRight)
    | binary known first second has =>
      have left := expr_sited left first inLeft
      have right := expr_sited right second inRight
      exact (left.append right).snoc (.of_plain has (isCall_binary known))
  | .unary _ _ operand, _, _, _, placed, within => by
    have inOperand : nodes.HasExpr operand := within.trans fun p q all => all.2
    cases placed with
    | neg inner has | not inner has =>
      exact (expr_sited operand inner inOperand).snoc (.of_plain has rfl)
  | .call _ _ args, _, _, _, placed, within => by
    cases placed with | call named inner has =>
    exact (exprs_sited args inner (within.trans fun p q all => all.2)).snoc
      (.of_calls has (.call within named) inner rfl)
  | .new _ _ args, _, _, _, placed, within => by
    cases placed with | new inner has =>
    exact (exprs_sited args inner (within.trans fun p q all => all.2)).snoc
      (.of_calls has (.new within) inner rfl)
  | .invoke _ object _ args, _, _, _, placed, within => by
    cases placed with | invoke first second has =>
    have object := expr_sited object first (within.trans fun p q all => all.2.1)
    have args := exprs_sited args second (within.trans fun p q all => all.2.2)
    exact (object.append args).snoc (.of_calls has (.invoke within) (.cons first second) rfl)
  | .list _ elements, _, _, _, placed, within => by
    cases placed with | list inner has =>
    exact (exprs_sited elements inner (within.trans fun p q all => all.2)).snoc (.of_plain has rfl)
  | .record _ entries, _, _, _, placed, within => by
    cases placed with | record inner has =>
    exact (entries_sited entries inner (within.trans fun p q all => all.2)).snoc (.of_plain has rfl)
  | .index _ object position, _, _, _, placed, within => by
    cases placed with | index first second has =>
    have object := expr_sited object first (within.trans fun p q all => all.2.1)
    have position := expr_sited position second (within.trans fun p q all => all.2.2)
    exact (object.append position).snoc (.of_plain has rfl)
  | .slice _ object start stop, _, _, _, placed, within => by
    cases placed with | slice first second third has =>
    have object := expr_sited object first (within.trans fun p q all => all.2.1)
    have start := bound_sited start second (within.trans fun p q all => all.2.2.1)
    have stop := bound_sited stop third (within.trans fun p q all => all.2.2.2)
    exact ((object.append start).append stop).snoc (.of_plain has rfl)
  | .member _ object _, _, _, _, placed, within => by
    cases placed with | member inner push has =>
    have object := expr_sited object inner (within.trans fun p q all => all.2)
    exact (object.snoc (.of_plain push rfl)).snoc (.of_plain has rfl)
  | .alien _, _, _, _, placed, _ => nomatch placed

theorem exprs_sited : ∀ (es : List Expr) {line : Option Int} {base next : Nat},
    ExprsAt code scope line base es next → nodes.Includes (fun p _ => Expr.EveryIn p es) →
    Along (code.Sited scope nodes) base next
  | [], _, _, _, placed, _ => by
    cases placed
    exact .nil _
  | e :: es, _, _, _, placed, within => by
    cases placed with | cons first rest =>
    exact (expr_sited e first (within.trans fun p q all => all.1)).append
      (exprs_sited es rest (within.trans fun p q all => all.2))

theorem bound_sited : ∀ (bound : Option Expr) {line : Option Int} {base next : Nat},
    BoundAt code scope line base bound next → nodes.Includes (fun p _ => Expr.EveryBound p bound) →
    Along (code.Sited scope nodes) base next
  | none, _, _, _, placed, _ => by
    cases placed with | absent has => exact .one (.of_plain has rfl)
  | some e, _, _, _, placed, within => by
    cases placed with | present inner => exact expr_sited e inner within

theorem entries_sited : ∀ (entries : List (Constant × Expr)) {line : Option Int} {base next : Nat},
    EntriesAt code scope line base entries next →
    nodes.Includes (fun p _ => Expr.EveryEntry p entries) →
    Along (code.Sited scope nodes) base next
  | [], _, _, _, placed, _ => by
    cases placed
    exact .nil _
  | (_, e) :: entries, _, _, _, placed, within => by
    cases placed with | cons key first rest =>
    have first := expr_sited e first (within.trans fun p q all => all.1)
    have rest := entries_sited entries rest (within.trans fun p q all => all.2)
    exact ((Along.one (.of_plain key rfl)).append first).append rest

end

theorem exit_sited {line : Option Int} {base finish next : Nat} {last : Bool}
    (exit : ExitAt code line base finish next last) : Along (code.Sited scope nodes) base next := by
  cases last with
  | true =>
    obtain ⟨rfl, -⟩ := exit
    exact .nil _
  | false =>
    obtain ⟨rfl, has⟩ := exit
    exact .one (.of_plain has rfl)

theorem limit_sited {line : Option Int} {number base number' start : Nat} {count : Expr}
    {limit : Instruction} (placed : LimitAt code scope line number base count number' start limit)
    (within : nodes.HasExpr count) :
    limit.op.isCall = false ∧ Along (code.Sited scope nodes) base start := by
  cases placed with
  | literal => exact ⟨rfl, .nil _⟩
  | computed _ inner convert store =>
    exact ⟨rfl, ((expr_sited count inner within).snoc (.of_plain convert rfl)).snoc
      (.of_plain store rfl)⟩

theorem rangeTest_plain (line : Option Int) (base : Nat) (var : Constant) (stop : String)
    (step : Number ⊕ String) : ∀ i ∈ rangeTest line base var stop step, i.op.isCall = false := by
  cases step with
  | inl step =>
    have compares : (if Number.lt (.int 0) step then Opcode.lt else .gt).isCall = false := by
      split <;> rfl
    simpa [rangeTest, Opcode.isCall] using compares
  | inr step => simp [rangeTest, Opcode.isCall]

theorem range_sited {line : Option Int} {number base start : Nat} {var : Constant}
    {first last : Expr} {step : Option Expr} {stopName : String} {known : Number ⊕ String}
    {pushStep : Instruction}
    (placed : RangeAt code scope line number base var first last step start stopName known pushStep)
    (inFirst : nodes.HasExpr first) (inLast : nodes.HasExpr last)
    (inStep : nodes.Includes fun p _ => Expr.EveryBound p step) :
    pushStep.op.isCall = false ∧ Along (code.Sited scope nodes) base start := by
  cases placed with
  | known _ _ _ placedFirst placedLast setup =>
    have bounds := (expr_sited first placedFirst inFirst).append (expr_sited last placedLast inLast)
    exact ⟨rfl, bounds.append (sited_holds setup (by simp [Opcode.isCall]))⟩
  | computed _ placedFirst placedLast placedStep setup =>
    have bounds := (expr_sited first placedFirst inFirst).append (expr_sited last placedLast inLast)
    have steps := bounds.append (bound_sited step placedStep inStep)
    exact ⟨rfl, steps.append (sited_holds setup (by simp [Opcode.isCall]))⟩

/-- The call in front of the rounds of a loop over items asks for the length of what is kept. -/
theorem eachSetup_sited {pos : Pos} {var : Constant} {items : Expr} {body : List Stmt}
    {number leave base : Nat} (setup : code.Holds base (eachSetup pos.line number leave var))
    (within : nodes.HasStmt (.loopEach pos var items body)) :
    Along (code.Sited scope nodes) base (base + 14) := by
  rw [eachSetup, holds_cons, holds_cons, holds_cons] at setup
  obtain ⟨store, load, call, rest⟩ := setup
  have kept : ExprsAt code scope pos.line (base + 1)
      [.var {} (.scalar (.text s!"{Code.eachMark}arr_{number}"))] (base + 2) :=
    .cons (.var load) .nil
  have asks := ((Along.one (.of_plain store rfl)).snoc (.of_plain load rfl)).snoc
    (Sited.of_calls call (.length within) kept rfl)
  exact asks.append (sited_holds rest (by simp [Opcode.isCall]))

mutual

theorem stmt_sited : ∀ (s : Stmt) {loop : Option LoopTargets} {number base number' next : Nat},
    StmtAt code scope loop number base s number' next → nodes.HasStmt s →
    Along (code.Sited scope nodes) base next
  | .expr _ value, _, _, _, _, _, placed, within => by
    cases placed with | expr inner has =>
    exact (expr_sited value inner (within.trans fun p q all => all.2)).snoc (.of_plain has rfl)
  | .assign _ _ value, _, _, _, _, _, placed, within => by
    cases placed with | assign inner has =>
    exact (expr_sited value inner (within.trans fun p q all => all.2)).snoc (.of_plain has rfl)
  | .update _ _ _ value, _, _, _, _, _, placed, within => by
    cases placed with | update known load inner has store =>
    have value := expr_sited value inner (within.trans fun p q all => all.2)
    exact (((Along.one (.of_plain load rfl)).append value).snoc
      (.of_plain has (isCall_update known))).snoc (.of_plain store rfl)
  | .setIndex _ object position value, _, _, _, _, _, placed, within => by
    cases placed with | setIndex first second third has =>
    have object := expr_sited object first (within.trans fun p q all => all.2.1)
    have position := expr_sited position second (within.trans fun p q all => all.2.2.1)
    have value := expr_sited value third (within.trans fun p q all => all.2.2.2)
    exact ((object.append position).append value).snoc (.of_plain has rfl)
  | .setMember _ object _ value, _, _, _, _, _, placed, within => by
    cases placed with | setMember first push second has =>
    have object := expr_sited object first (within.trans fun p q all => all.2.1)
    have value := expr_sited value second (within.trans fun p q all => all.2.2)
    exact ((object.snoc (.of_plain push rfl)).append value).snoc (.of_plain has rfl)
  | .branch _ test body elifs otherwise, _, _, _, _, _, placed, within => by
    cases placed with | branch first skip placedBody exit placedElifs placedElse =>
    have test := expr_sited test first (within.trans fun p q all => all.2.1)
    have body := stmts_sited body placedBody (within.trans fun p q all => all.2.2.1)
    have elifs := elifs_sited elifs placedElifs (within.trans fun p q all => all.2.2.2.1)
    have last := otherwise_sited otherwise placedElse (within.trans fun p q all => all.2.2.2.2)
    exact ((((test.snoc (.of_plain skip rfl)).append body).append (exit_sited exit)).append
      elifs).append last
  | .loopTimes _ count body, _, _, _, _, _, placed, within => by
    cases placed with | loopTimes limit setup placedBody again =>
    have body := stmts_sited body placedBody (within.trans fun p q all => all.2.2)
    obtain ⟨plain, limit⟩ := limit_sited limit (within.trans fun p q all => all.2.1)
    exact ((limit.append (sited_holds setup (by simpa [Opcode.isCall] using plain))).append
      body).append (sited_holds again (by simp [Opcode.isCall]))
  | .loopWhile _ test body, _, _, _, _, _, placed, within => by
    cases placed with | loopWhile first skip placedBody back =>
    have test := expr_sited test first (within.trans fun p q all => all.2.1)
    have body := stmts_sited body placedBody (within.trans fun p q all => all.2.2)
    exact ((test.snoc (.of_plain skip rfl)).append body).snoc (.of_plain back rfl)
  | .loopRange _ _ start stop step body, _, _, _, _, _, placed, within => by
    cases placed with | loopRange range test placedBody again =>
    have body := stmts_sited body placedBody (within.trans fun p q all => all.2.2.2.2)
    obtain ⟨plain, range⟩ := range_sited range (within.trans fun p q all => all.2.1)
      (within.trans fun p q all => all.2.2.1) (within.trans fun p q all => all.2.2.2.1)
    rw [holds_append, holds_cons] at test
    have tested := range.append (sited_holds test.1 (rangeTest_plain _ _ _ _ _))
    exact ((tested.snoc (.of_plain test.2.1 rfl)).append body).append
      (sited_holds again (by simpa [Opcode.isCall] using plain))
  | .loopEach _ _ items body, _, _, _, _, _, placed, within => by
    cases placed with | loopEach first setup placedBody again =>
    have items := expr_sited items first (within.trans fun p q all => all.2.1)
    have body := stmts_sited body placedBody (within.trans fun p q all => all.2.2)
    exact ((items.append (eachSetup_sited setup within)).append body).append
      (sited_holds again (by simp [eachAgain, Opcode.isCall]))
  | .leave _, _, _, _, _, _, placed, _ => by
    cases placed with | leave has => exact .one (.of_plain has rfl)
  | .again _, _, _, _, _, _, placed, _ => by
    cases placed with | again has => exact .one (.of_plain has rfl)
  | .pass _, _, _, _, _, _, placed, _ => by
    cases placed with | pass has => exact .one (.of_plain has rfl)
  | .give _ value, _, _, _, _, _, placed, within => by
    cases placed with | give inner has =>
    exact (bound_sited value inner (within.trans fun p q all => all.2)).snoc (.of_plain has rfl)
  | .define _, _, _, _, _, _, placed, _ => nomatch placed
  | .defineClass _ _ _, _, _, _, _, _, placed, _ => nomatch placed
  | .alien _, _, _, _, _, _, placed, _ => nomatch placed

theorem stmts_sited : ∀ (ss : List Stmt) {loop : Option LoopTargets}
    {number base number' next : Nat}, StmtsAt code scope loop number base ss number' next →
    nodes.Includes (fun p q => Stmt.EveryIn p q ss) → Along (code.Sited scope nodes) base next
  | [], _, _, _, _, _, placed, _ => by
    cases placed
    exact .nil _
  | s :: ss, _, _, _, _, _, placed, within => by
    cases placed with | cons first rest =>
    exact (stmt_sited s first (within.trans fun p q all => all.1)).append
      (stmts_sited ss rest (within.trans fun p q all => all.2))

theorem elifs_sited : ∀ (es : List Elif) {loop : Option LoopTargets} {lastArm : Bool}
    {finish number base number' next : Nat},
    ElifsAt code scope loop finish lastArm number base es number' next →
    nodes.Includes (fun p q => Stmt.EveryElif p q es) → Along (code.Sited scope nodes) base next
  | [], _, _, _, _, _, _, _, placed, _ => by
    cases placed
    exact .nil _
  | .mk _ test body :: es, _, _, _, _, _, _, _, placed, within => by
    cases placed with | cons first skip placedBody exit rest =>
    have test := expr_sited test first (within.trans fun p q all => all.1.1)
    have body := stmts_sited body placedBody (within.trans fun p q all => all.1.2)
    have rest := elifs_sited es rest (within.trans fun p q all => all.2)
    exact (((test.snoc (.of_plain skip rfl)).append body).append (exit_sited exit)).append rest

theorem otherwise_sited : ∀ (otherwise : Option (List Stmt)) {loop : Option LoopTargets}
    {number base number' next : Nat}, OtherwiseAt code scope loop number base otherwise number' next →
    nodes.Includes (fun p q => Stmt.EveryOtherwise p q otherwise) →
    Along (code.Sited scope nodes) base next
  | none, _, _, _, _, _, placed, _ => by
    cases placed
    exact .nil _
  | some body, _, _, _, _, _, placed, within => by
    cases placed with | present inner => exact stmts_sited body inner within

end

theorem func_sited {base : Nat} {f : Func} (placed : FuncAt code scope base f)
    (within : nodes.Includes fun p q => Stmt.EveryIn p q f.body) {a : Nat} (here : InFunc base f a) :
    code.Sited scope nodes a := by
  obtain ⟨stores, body, behind, push, ret⟩ := placed
  have stores : Along (code.Sited scope nodes) base _ :=
    sited_holds stores (List.forall_mem_map.mpr fun _ _ => rfl)
  rw [List.length_map, List.length_reverse] at stores
  have whole := ((stores.append (stmts_sited f.body body within)).snoc (.of_plain push rfl)).snoc
    (.of_plain ret rfl)
  exact whole a here.1 (by have := here.2; rw [funcLength] at this; omega)

theorem main_sited {keepResult : Bool} {base finish : Nat} {body : List Stmt}
    (placed : MainAt code scope keepResult base body finish)
    (within : nodes.Includes fun p q => Stmt.EveryIn p q body) :
    Along (code.Sited scope nodes) base (finish + 1) := by
  cases placed with
  | plain _ inner halt => exact (stmts_sited body inner within).snoc (.of_plain halt rfl)
  | @kept init pos value _ _ _ whole inner last halt =>
    subst whole
    have parts : nodes.Includes fun p q => ∀ s ∈ init ++ [.expr pos value], s.Every p q :=
      within.trans fun p q all => (Stmt.everyIn_iff ..).mp all
    have init := stmts_sited init inner (parts.trans fun p q all =>
      (Stmt.everyIn_iff ..).mpr fun s member => all s (List.mem_append_left _ member))
    have value := expr_sited value last (parts.trans fun p q all => (all (.expr pos value) (by simp)).2)
    exact (init.append value).snoc (.of_plain halt rfl)

/-- An address among functions that follow each other is that of one of them. -/
theorem exists_inFunc {base a : Nat} {fs : List Func} (above : base ≤ a)
    (before : a < base + (fs.map funcLength).sum) :
    ∃ entry ∈ entriesFrom base fs, InFunc entry.1 entry.2 a := by
  induction fs generalizing base with
  | nil => exact absurd before (Nat.not_lt.mpr above)
  | cons f fs ih =>
    rw [List.map_cons, List.sum_cons] at before
    rcases Nat.lt_or_ge a (base + funcLength f) with here | behind
    · exact ⟨(base, f), List.mem_cons_self, above, here⟩
    · obtain ⟨entry, member, inside⟩ := ih behind (by omega)
      exact ⟨entry, List.mem_cons_of_mem _ member, inside⟩

end Code

namespace Program

/-- The tree of a whole program. -/
def nodes (program : Program) : Nodes := fun p q => program.Every p q

/-- Every call of compiled code has its place in the program. -/
theorem callAt_of_laidOut {program : Program} {scope : Scope} {keepResult : Bool} {code : Code}
    {finish : Nat} (laid : LaidOut program scope keepResult code finish) {a : Nat} {i : Instruction}
    (has : code.Has a i) (calls : i.op.isCall = true) :
    ∃ site start, code.CallAt scope program.nodes a i site start := by
  have registrations : Along (code.Sited scope program.nodes) 0 _ :=
    Code.sited_holds laid.registrations (List.forall_mem_map.mpr fun _ _ => rfl)
  rw [List.length_map, Nat.zero_add] at registrations
  have main : Along (code.Sited scope program.nodes) _ _ :=
    Code.main_sited laid.main fun p q all => Every.main all
  rcases Nat.lt_or_ge a (finish + 1) with inMain | behind
  · exact (registrations.append main) a (Nat.zero_le a) inMain i has calls
  · have before : a < code.size := (Array.getElem?_eq_some_iff.mp has).1
    rw [laid.size] at before
    obtain ⟨entry, member, inside⟩ := Code.exists_inFunc behind before
    refine Code.func_sited (laid.placed entry member) (fun p q all => ?_) inside i has calls
    exact Every.body all (Code.mem_of_mem_entriesFrom member)

end Program

end Stepwise
