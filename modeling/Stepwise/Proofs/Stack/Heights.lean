import Stepwise.Proofs.Code.Layout

/-!
The height of the operand stack at each instruction of a tree, counted from the base of the call it
belongs to. The heights are listed in the order of the instructions; the code of a tree has as many
instructions as there are heights.
-/
namespace Stepwise

mutual

/-- Heights along the code of an expression that starts at height `h` and ends one higher. -/
def exprHeights (h : Nat) : Expr → List Nat
  | .literal _ _ _ | .var _ _ => [h]
  | .binary _ op left right =>
    match op with
    | .and | .or => exprHeights h left ++ [h + 1, h + 2, h + 1] ++ exprHeights h right
    | _ => exprHeights h left ++ exprHeights (h + 1) right ++ [h + 2]
  | .unary _ _ operand => exprHeights h operand ++ [h + 1]
  | .call _ _ args | .new _ _ args => exprsHeights h args ++ [h + args.length]
  | .invoke _ object _ args =>
    exprHeights h object ++ exprsHeights (h + 1) args ++ [h + 1 + args.length]
  | .list _ elements => exprsHeights h elements ++ [h + elements.length]
  | .record _ entries => entriesHeights h entries ++ [h + 2 * entries.length]
  | .index _ object position => exprHeights h object ++ exprHeights (h + 1) position ++ [h + 2]
  | .slice _ object start stop =>
    exprHeights h object ++ boundHeights (h + 1) start ++ boundHeights (h + 2) stop ++ [h + 3]
  | .member _ object _ => exprHeights h object ++ [h + 1, h + 2]
  | .alien _ => []

def exprsHeights (h : Nat) : List Expr → List Nat
  | [] => []
  | e :: es => exprHeights h e ++ exprsHeights (h + 1) es

def boundHeights (h : Nat) : Option Expr → List Nat
  | none => [h]
  | some e => exprHeights h e

def entriesHeights (h : Nat) : List (Constant × Expr) → List Nat
  | [] => []
  | (_, e) :: entries => [h] ++ exprHeights (h + 1) e ++ entriesHeights (h + 2) entries

end

/-- Heights along the setup of a counted loop. -/
def limitHeights (h : Nat) (count : Expr) : List Nat :=
  if count.count?.isSome then [] else exprHeights h count ++ [h + 1, h + 1]

/-- Heights along the setup and the test of a range loop. -/
def rangeHeights (h : Nat) (start stop : Expr) (step : Option Expr) : List Nat :=
  exprHeights h start ++ exprHeights (h + 1) stop ++
    if (RangeStep.of step).isKnown then
      [h + 2, h + 3, h + 3, h + 2, h + 1, h, h + 1, h + 2, h + 1]
    else
      boundHeights (h + 2) step ++
        [h + 3, h + 3, h + 2, h + 1, h, h + 1, h + 2, h + 1, h, h + 1, h + 2, h + 1, h, h + 1,
         h + 2, h + 1]

mutual

/-- Heights along the code of a statement that starts and ends at height `h`. The counter of a
counted loop stays on the stack below its body. -/
def stmtHeights (h : Nat) : Stmt → List Nat
  | .expr _ value | .assign _ _ value => exprHeights h value ++ [h + 1]
  | .update _ _ _ value => [h] ++ exprHeights (h + 1) value ++ [h + 2, h + 1]
  | .setIndex _ object position value =>
    exprHeights h object ++ exprHeights (h + 1) position ++ exprHeights (h + 2) value ++ [h + 3]
  | .setMember _ object _ value =>
    exprHeights h object ++ [h + 1] ++ exprHeights (h + 2) value ++ [h + 3]
  | .branch _ test body elifs otherwise =>
    exprHeights h test ++ [h + 1] ++ stmtsHeights h body ++
      (if elifs.isEmpty && otherwise.isNone then [] else [h]) ++
      elifsHeights h otherwise.isNone elifs ++ otherwiseHeights h otherwise
  | .loopTimes _ count body =>
    limitHeights h count ++ [h, h + 1, h + 2, h + 3, h + 2] ++ stmtsHeights (h + 1) body ++
      [h + 1, h + 2, h + 1, h + 1]
  | .loopWhile _ test body => exprHeights h test ++ [h + 1] ++ stmtsHeights h body ++ [h]
  | .loopRange _ _ start stop step body =>
    rangeHeights h start stop step ++ stmtsHeights h body ++ [h, h + 1, h + 2, h + 1, h]
  | .loopEach _ _ items body =>
    exprHeights h items ++
      [h + 1, h, h + 1, h + 1, h, h + 1, h, h + 1, h + 2, h + 1, h, h + 1, h + 2, h + 1] ++
      stmtsHeights h body ++ [h, h + 1, h + 2, h + 1, h]
  | .leave _ | .again _ | .pass _ => [h]
  | .define _ | .defineClass _ _ _ | .alien _ => []
  | .give _ value => boundHeights h value ++ [h + 1]

def stmtsHeights (h : Nat) : List Stmt → List Nat
  | [] => []
  | s :: ss => stmtHeights h s ++ stmtsHeights h ss

def elifsHeights (h : Nat) (lastArm : Bool) : List Elif → List Nat
  | [] => []
  | e :: es => elifHeights h (lastArm && es.isEmpty) e ++ elifsHeights h lastArm es

def elifHeights (h : Nat) (last : Bool) : Elif → List Nat
  | .mk _ test body =>
    exprHeights h test ++ [h + 1] ++ stmtsHeights h body ++ (if last then [] else [h])

def otherwiseHeights (h : Nat) : Option (List Stmt) → List Nat
  | none => []
  | some body => stmtsHeights h body

end

/-- Heights along the code of a function: it starts above its arguments. -/
def funcHeights (f : Func) : List Nat :=
  (List.range f.params.length).map (f.params.length - ·) ++ stmtsHeights 0 f.body ++ [0, 1]

variable {code : Code} {scope : Scope}

mutual

theorem exprAt_next : ∀ (e : Expr) (h : Nat) {line : Option Int} {base next : Nat},
    ExprAt code scope line base e next → next = base + (exprHeights h e).length
  | .literal _ _ _, _, _, _, _, placed => by
    cases placed
    rfl
  | .var _ _, _, _, _, _, placed => by
    cases placed
    rfl
  | .binary _ op left right, h, _, _, _, placed => by
    cases placed with
    | and first _ _ _ second | or first _ _ _ second =>
      rw [exprAt_next right h second, exprAt_next left h first]
      simp only [exprHeights, List.length_append, List.length_cons, List.length_nil]
      omega
    | binary known first second =>
      rw [exprAt_next right (h + 1) second, exprAt_next left h first]
      cases op <;> cases known
      all_goals simp only [exprHeights, List.length_append, List.length_singleton]; omega
  | .unary _ _ operand, h, _, _, _, placed => by
    cases placed with
    | neg inner | not inner =>
      rw [exprAt_next operand h inner]
      simp only [exprHeights, List.length_append, List.length_singleton]
      omega
  | .call _ _ args, h, _, _, _, placed => by
    cases placed with | call _ inner _ =>
    rw [exprsAt_next args h inner]
    simp only [exprHeights, List.length_append, List.length_singleton]
    omega
  | .new _ _ args, h, _, _, _, placed => by
    cases placed with | new inner _ =>
    rw [exprsAt_next args h inner]
    simp only [exprHeights, List.length_append, List.length_singleton]
    omega
  | .invoke _ object _ args, h, _, _, _, placed => by
    cases placed with | invoke first inner _ =>
    rw [exprsAt_next args (h + 1) inner, exprAt_next object h first]
    simp only [exprHeights, List.length_append, List.length_singleton]
    omega
  | .list _ elements, h, _, _, _, placed => by
    cases placed with | list inner _ =>
    rw [exprsAt_next elements h inner]
    simp only [exprHeights, List.length_append, List.length_singleton]
    omega
  | .record _ entries, h, _, _, _, placed => by
    cases placed with | record inner _ =>
    rw [entriesAt_next entries h inner]
    simp only [exprHeights, List.length_append, List.length_singleton]
    omega
  | .index _ object position, h, _, _, _, placed => by
    cases placed with | index first second _ =>
    rw [exprAt_next position (h + 1) second, exprAt_next object h first]
    simp only [exprHeights, List.length_append, List.length_singleton]
    omega
  | .slice _ object start stop, h, _, _, _, placed => by
    cases placed with | slice first second third _ =>
    rw [boundAt_next stop (h + 2) third, boundAt_next start (h + 1) second,
      exprAt_next object h first]
    simp only [exprHeights, List.length_append, List.length_singleton]
    omega
  | .member _ object _, h, _, _, _, placed => by
    cases placed with | member inner _ _ =>
    rw [exprAt_next object h inner]
    simp only [exprHeights, List.length_append, List.length_cons, List.length_nil]
    omega
  | .alien _, _, _, _, _, placed => nomatch placed

theorem exprsAt_next : ∀ (es : List Expr) (h : Nat) {line : Option Int} {base next : Nat},
    ExprsAt code scope line base es next → next = base + (exprsHeights h es).length
  | [], _, _, _, _, placed => by
    cases placed
    rfl
  | e :: es, h, _, _, _, placed => by
    cases placed with | cons first rest =>
    rw [exprsAt_next es (h + 1) rest, exprAt_next e h first]
    simp only [exprsHeights, List.length_append]
    omega

theorem boundAt_next : ∀ (bound : Option Expr) (h : Nat) {line : Option Int} {base next : Nat},
    BoundAt code scope line base bound next → next = base + (boundHeights h bound).length
  | none, _, _, _, _, placed => by
    cases placed
    rfl
  | some e, h, _, _, _, placed => by
    cases placed with | present inner =>
    exact exprAt_next e h inner

theorem entriesAt_next : ∀ (entries : List (Constant × Expr)) (h : Nat) {line : Option Int}
    {base next : Nat}, EntriesAt code scope line base entries next →
    next = base + (entriesHeights h entries).length
  | [], _, _, _, _, placed => by
    cases placed
    rfl
  | (_, e) :: entries, h, _, _, _, placed => by
    cases placed with | cons _ first rest =>
    rw [entriesAt_next entries (h + 2) rest, exprAt_next e (h + 1) first]
    simp only [entriesHeights, List.length_append, List.length_singleton]
    omega

end

end Stepwise
