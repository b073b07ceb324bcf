import Stepwise.Proofs.Code.Scalars
import Stepwise.Proofs.Reading.Sources
import Stepwise.Proofs.Reading.Trees

/-!
The programs that the compiler refuses. It compiles the main body and the bodies of the functions and
methods that count, and refuses a program exactly if one of them is misused (`compile_refused_iff`):
with a `break` or a `continue` outside of its loops, with a definition inside it, or with a range that
never moves.
-/
namespace Stepwise

/-- Whether a statement stands in a body, at any depth, and whether a loop of that body is around it. -/
inductive Stmt.StandsIn (s : Stmt) : Bool → List Stmt → Prop where
  | here {body : List Stmt} : s ∈ body → StandsIn s false body
  | arm {looped : Bool} {t : Stmt} {arm body : List Stmt} : t ∈ body → arm ∈ t.arms →
      StandsIn s looped arm → StandsIn s looped body
  | round {looped : Bool} {t : Stmt} {round body : List Stmt} : t ∈ body → t.round? = some round →
      StandsIn s looped round → StandsIn s true body

/-- A number, or a minus sign in front of a number, that is zero. -/
def Expr.IsZeroLiteral : Expr → Prop
  | .literal _ .number (.scalar (.number n)) => n.isZero
  | .unary _ .neg (.literal _ .number (.scalar (.number n))) => n.neg.isZero
  | _ => False

/-- What a body cannot be compiled with. -/
inductive Stmt.Misuse (body : List Stmt) : Prop where
  | leave {pos : Pos} : (Stmt.leave pos).StandsIn false body → Misuse body
  | again {pos : Pos} : (Stmt.again pos).StandsIn false body → Misuse body
  | define {looped : Bool} {f : Func} : (Stmt.define f).StandsIn looped body → Misuse body
  | defineClass {looped : Bool} {pos : Pos} {name : Constant} {methods : List Func} :
      (Stmt.defineClass pos name methods).StandsIn looped body → Misuse body
  | still {looped : Bool} {pos : Pos} {var : Constant} {start stop step : Expr}
      {round : List Stmt} : (Stmt.loopRange pos var start stop (some step) round).StandsIn looped body →
      step.IsZeroLiteral → Misuse body

/-- The function that a statement defines, with its name. -/
def Stmt.func? : Stmt → Option (Constant × Func)
  | .define f => some (f.name, f)
  | _ => none

/-- The class that a statement defines: its name, and its position and methods. -/
def Stmt.class? : Stmt → Option (Constant × Pos × List Func)
  | .defineClass pos name methods => some (name, pos, methods)
  | _ => none

/-- The bodies that are compiled: the statements that define nothing, and those of the functions and
of the methods of the classes that no later definition replaces. -/
inductive Program.Compiles (program : Program) : List Stmt → Prop where
  | main : Compiles program program.main
  | function {before after : List Stmt} {f : Func} : program.body = before ++ .define f :: after →
      (∀ g : Func, .define g ∈ after → g.name ≠ f.name) → Compiles program f.body
  | method {before after : List Stmt} {pos : Pos} {name : Constant} {methods : List Func} {f : Func} :
      program.body = before ++ .defineClass pos name methods :: after →
      (∀ pos' name' methods', .defineClass pos' name' methods' ∈ after → name' ≠ name) →
      f ∈ methods → Compiles program f.body

namespace Stmt

/-- What cannot stand where it does, whatever is inside it; `looped` says whether a loop is around it. -/
def Misplaced (looped : Bool) : Stmt → Prop
  | .leave _ | .again _ => looped = false
  | .define _ | .defineClass _ _ _ => True
  | .loopRange _ _ _ _ (some step) _ => step.IsZeroLiteral
  | _ => False

/-- A body with something misplaced in it; `around` says whether a loop is around the body. -/
def MisusedIn (around : Bool) (body : List Stmt) : Prop :=
  ∃ looped s, StandsIn s looped body ∧ s.Misplaced (around || looped)

variable {s t : Stmt} {body rest : List Stmt} {looped around : Bool}

theorem not_standsIn_nil : ¬ s.StandsIn looped [] := by
  rintro ⟨⟩ <;> contradiction

theorem standsIn_cons (t : Stmt) (rest : List Stmt) :
    s.StandsIn looped (t :: rest) ↔ s.StandsIn looped [t] ∨ s.StandsIn looped rest := by
  constructor
  · intro stands
    cases stands with
    | here member =>
      rcases List.mem_cons.mp member with rfl | member
      · exact .inl (.here (by simp))
      · exact .inr (.here member)
    | arm member arm inside =>
      rcases List.mem_cons.mp member with rfl | member
      · exact .inl (.arm (by simp) arm inside)
      · exact .inr (.arm member arm inside)
    | round member round inside =>
      rcases List.mem_cons.mp member with rfl | member
      · exact .inl (.round (by simp) round inside)
      · exact .inr (.round member round inside)
  · have first {t' : Stmt} (member : t' ∈ [t]) : t' ∈ t :: rest := by
      rw [List.mem_singleton.mp member]
      exact List.mem_cons_self
    rintro (stands | stands)
    · cases stands with
      | here member => exact .here (first member)
      | arm member arm inside => exact .arm (first member) arm inside
      | round member round inside => exact .round (first member) round inside
    · cases stands with
      | here member => exact .here (List.mem_cons_of_mem t member)
      | arm member arm inside => exact .arm (List.mem_cons_of_mem t member) arm inside
      | round member round inside => exact .round (List.mem_cons_of_mem t member) round inside

theorem standsIn_singleton : s.StandsIn looped [t] ↔ (s = t ∧ looped = false) ∨
    (∃ arm ∈ t.arms, s.StandsIn looped arm) ∨
    ∃ round inner, t.round? = some round ∧ s.StandsIn inner round ∧ looped = true := by
  constructor
  · intro stands
    cases stands with
    | here member => exact .inl ⟨List.mem_singleton.mp member, rfl⟩
    | arm member arm inside =>
      obtain rfl := List.mem_singleton.mp member
      exact .inr (.inl ⟨_, arm, inside⟩)
    | round member round inside =>
      obtain rfl := List.mem_singleton.mp member
      exact .inr (.inr ⟨_, _, round, inside, rfl⟩)
  · rintro (⟨rfl, rfl⟩ | ⟨arm, member, inside⟩ | ⟨round, inner, found, inside, rfl⟩)
    · exact .here List.mem_cons_self
    · exact .arm List.mem_cons_self member inside
    · exact .round List.mem_cons_self found inside

theorem not_misusedIn_nil : ¬ MisusedIn around [] := by
  rintro ⟨_, _, stands, -⟩
  exact not_standsIn_nil stands

theorem misusedIn_cons (t : Stmt) (rest : List Stmt) :
    MisusedIn around (t :: rest) ↔ MisusedIn around [t] ∨ MisusedIn around rest := by
  simp only [MisusedIn, standsIn_cons t rest, or_and_right, exists_or]

theorem misusedIn_append (front : List Stmt) :
    MisusedIn around (front ++ rest) ↔ MisusedIn around front ∨ MisusedIn around rest := by
  induction front with
  | nil => simp [not_misusedIn_nil]
  | cons t front ih => rw [List.cons_append, misusedIn_cons t, ih, misusedIn_cons t front, or_assoc]

/-- What a statement is misused for: itself, something in one of its arms, or in its round. -/
theorem misusedIn_singleton : MisusedIn around [t] ↔ t.Misplaced around ∨
    (∃ arm ∈ t.arms, MisusedIn around arm) ∨ ∃ round, t.round? = some round ∧ MisusedIn true round := by
  simp only [MisusedIn, standsIn_singleton]
  constructor
  · rintro ⟨looped, s, ⟨rfl, rfl⟩ | ⟨arm, member, inside⟩ | ⟨round, inner, found, inside, rfl⟩, bad⟩
    · exact .inl (by simpa using bad)
    · exact .inr (.inl ⟨arm, member, looped, s, inside, bad⟩)
    · exact .inr (.inr ⟨round, found, inner, s, inside, by simpa using bad⟩)
  · rintro (bad | ⟨arm, member, looped, s, inside, bad⟩ | ⟨round, found, inner, s, inside, bad⟩)
    · exact ⟨false, t, .inl ⟨rfl, rfl⟩, by simpa using bad⟩
    · exact ⟨looped, s, .inr (.inl ⟨arm, member, inside⟩), bad⟩
    · exact ⟨true, s, .inr (.inr ⟨round, inner, found, inside, rfl⟩), by simpa using bad⟩

/-- Statements without blocks. -/
theorem misusedIn_leaf (arms : t.arms = []) (round : t.round? = none) :
    MisusedIn around [t] ↔ t.Misplaced around := by
  simp [misusedIn_singleton, arms, round]

theorem misusedIn_loop {round : List Stmt} (arms : t.arms = []) (found : t.round? = some round) :
    MisusedIn around [t] ↔ t.Misplaced around ∨ MisusedIn true round := by
  simp [misusedIn_singleton, arms, found]

theorem misusedIn_branch {pos : Pos} {test : Expr} {elifs : List Elif} {otherwise : Option (List Stmt)} :
    MisusedIn around [.branch pos test body elifs otherwise] ↔ MisusedIn around body ∨
      (∃ e ∈ elifs, MisusedIn around e.body) ∨ ∃ last, otherwise = some last ∧ MisusedIn around last := by
  simp [misusedIn_singleton, arms, round?, Misplaced, or_and_right, exists_or]

/-- The misuses are what is misplaced in a body with no loop around it. -/
theorem misuse_iff : Misuse body ↔ MisusedIn false body := by
  constructor
  · intro misuse
    cases misuse with
    | leave stands => exact ⟨_, _, stands, rfl⟩
    | again stands => exact ⟨_, _, stands, rfl⟩
    | define stands => exact ⟨_, _, stands, trivial⟩
    | defineClass stands => exact ⟨_, _, stands, trivial⟩
    | still stands zero => exact ⟨_, _, stands, zero⟩
  · rintro ⟨looped, s, stands, bad⟩
    cases s with
    | leave =>
      obtain rfl : looped = false := bad
      exact .leave stands
    | again =>
      obtain rfl : looped = false := bad
      exact .again stands
    | define => exact .define stands
    | defineClass => exact .defineClass stands
    | loopRange pos var start stop step round =>
      cases step with
      | none => exact bad.elim
      | some step => exact .still stands bad
    | _ => exact bad.elim

end Stmt

namespace Code

open Stmt (MisusedIn)

/-- A compilation that is refused exactly on a misuse, and otherwise gives code. -/
def RefusedOn {α : Type} (misuse : Prop) (x : Compile α) : Prop := ∀ n,
  (misuse ∧ ∃ fault : Fault, fault.phase = .compiling ∧ x n = .error (.fault fault)) ∨
    (¬ misuse ∧ ∃ r, x n = .ok r)

/-- A compilation that always gives code. -/
abbrev Accepted {α : Type} (x : Compile α) : Prop := RefusedOn False x

section RefusedOn

variable {α β : Type} {p q : Prop} {x : Compile α} {f : α → Compile β}

theorem RefusedOn.of_iff (refused : RefusedOn p x) (same : p ↔ q) : RefusedOn q x := by
  rwa [← propext same]

theorem accepted_pure (a : α) : Accepted (pure a : Compile α) := fun n => .inr ⟨id, (a, n), rfl⟩

theorem refusedOn_refuse (scope : Scope) (pos : Pos) (line : Option Int) (message : String)
    (suggestion : Option String) :
    RefusedOn True (scope.refuse pos line message suggestion : Compile α) := fun _ =>
  .inl ⟨trivial, scope.fault pos line message suggestion, rfl, rfl⟩

theorem accepted_freshNumber : Accepted freshNumber := fun n => .inr ⟨id, (n, n + 1), rfl⟩

theorem accepted_lift {x : Except Failure α} {a : α} (gives : x = .ok a) :
    Accepted (liftM x : Compile α) := by
  subst gives
  exact fun n => .inr ⟨id, (a, n), rfl⟩

/-- What is refused in one part or in the other. -/
theorem RefusedOn.bind (first : RefusedOn p x) (rest : ∀ a, RefusedOn q (f a)) :
    RefusedOn (p ∨ q) (x >>= f) := by
  intro n
  have run : (x >>= f) n = (x n >>= fun r => f r.1 r.2) := rfl
  rw [run]
  rcases first n with ⟨bad, fault, phase, same⟩ | ⟨fine, ⟨a, m⟩, same⟩
  · rw [same]
    exact .inl ⟨.inl bad, fault, phase, rfl⟩
  · rw [same]
    rcases rest a m with ⟨bad, fault, phase, same⟩ | ⟨fine', r, same⟩
    · exact .inl ⟨.inr bad, fault, phase, same⟩
    · exact .inr ⟨not_or.mpr ⟨fine, fine'⟩, r, same⟩

/-- Goes on behind a part that gives code. -/
theorem RefusedOn.after (first : Accepted x) (rest : ∀ a, RefusedOn q (f a)) :
    RefusedOn q (x >>= f) :=
  (first.bind rest).of_iff (Iff.of_eq (false_or q))

/-- Goes on with a part that gives code. -/
theorem RefusedOn.next (first : RefusedOn p x) (rest : ∀ a, Accepted (f a)) :
    RefusedOn p (x >>= f) :=
  (first.bind rest).of_iff (Iff.of_eq (or_false p))

end RefusedOn

section Expressions

/-- A computation that gives something. -/
def Succeeds {α : Type} (x : Except Failure α) : Prop := ∃ a, x = .ok a

section Succeeds

variable {α β : Type} {x : Except Failure α} {f : α → Except Failure β}

theorem Succeeds.pure (a : α) : Succeeds (Pure.pure a) := ⟨a, rfl⟩

theorem Succeeds.bind (first : Succeeds x) (rest : ∀ a, Succeeds (f a)) : Succeeds (x >>= f) := by
  obtain ⟨a, rfl⟩ := first
  exact rest a

end Succeeds

variable (scope : Scope)

mutual

/-- Every expression that was read from text has code. -/
theorem compileExpr_ok : ∀ (e : Expr), e.Every Expr.Shaped → ∀ (line : Option Int) (base : Nat),
    Succeeds (compileExpr scope line base e)
  | .literal _ _ _, _, _, _ => .pure _
  | .var _ _, _, _, _ => .pure _
  | .binary _ op left right, ⟨known, left', right'⟩, _, _ => by
    have known : op.IsKnown := known
    cases op
    case unknown => exact known.elim
    all_goals
      refine .bind (compileExpr_ok left left' _ _) fun _ => ?_
      exact .bind (compileExpr_ok right right' _ _) fun _ => .pure _
  | .unary _ op operand, ⟨known, operand'⟩, _, _ => by
    have known : op.IsKnown := known
    refine .bind (compileExpr_ok operand operand' _ _) fun _ => ?_
    cases op with
    | neg | not => exact .pure _
    | unknown => exact known.elim
  | .call _ _ args, ⟨named, args'⟩, _, _ => by
    obtain ⟨name, rfl, -⟩ := show Constant.IsName _ from named
    exact .bind (compileExprs_ok args args' _ _) fun _ => .pure _
  | .new _ _ _, ⟨never, _⟩, _, _ => False.elim never
  | .invoke _ object _ args, ⟨_, object', args'⟩, _, _ => by
    refine .bind (compileExpr_ok object object' _ _) fun _ => ?_
    exact .bind (compileExprs_ok args args' _ _) fun _ => .pure _
  | .list _ elements, ⟨_, elements'⟩, _, _ =>
    .bind (compileExprs_ok elements elements' _ _) fun _ => .pure _
  | .record _ entries, ⟨_, entries'⟩, _, _ =>
    .bind (compileEntries_ok entries entries' _ _) fun _ => .pure _
  | .index _ object position, ⟨_, object', position'⟩, _, _ => by
    refine .bind (compileExpr_ok object object' _ _) fun _ => ?_
    exact .bind (compileExpr_ok position position' _ _) fun _ => .pure _
  | .slice _ object start stop, ⟨_, object', start', stop'⟩, _, _ => by
    refine .bind (compileExpr_ok object object' _ _) fun _ => ?_
    refine .bind (compileBound_ok start start' _ _) fun _ => ?_
    exact .bind (compileBound_ok stop stop' _ _) fun _ => .pure _
  | .member _ object _, ⟨_, object'⟩, _, _ =>
    .bind (compileExpr_ok object object' _ _) fun _ => .pure _
  | .alien _, never, _, _ => False.elim never

theorem compileExprs_ok : ∀ (es : List Expr), Expr.EveryIn Expr.Shaped es →
    ∀ (line : Option Int) (base : Nat), Succeeds (compileExprs scope line base es)
  | [], _, _, _ => .pure _
  | e :: es, ⟨first, rest⟩, _, _ => by
    refine .bind (compileExpr_ok e first _ _) fun _ => ?_
    exact .bind (compileExprs_ok es rest _ _) fun _ => .pure _

theorem compileBound_ok : ∀ (bound : Option Expr), Expr.EveryBound Expr.Shaped bound →
    ∀ (line : Option Int) (base : Nat), Succeeds (compileBound scope line base bound)
  | none, _, _, _ => .pure _
  | some e, shaped, _, _ => compileExpr_ok e shaped _ _

theorem compileEntries_ok : ∀ (entries : List (Constant × Expr)), Expr.EveryEntry Expr.Shaped entries →
    ∀ (line : Option Int) (base : Nat), Succeeds (compileEntries scope line base entries)
  | [], _, _, _ => .pure _
  | (_, e) :: entries, ⟨first, rest⟩, _, _ => by
    refine .bind (compileExpr_ok e first _ _) fun _ => ?_
    exact .bind (compileEntries_ok entries rest _ _) fun _ => .pure _

end

theorem accepted_plainExpr {e : Expr} (shaped : e.Every Expr.Shaped) (line : Option Int) (base : Nat) :
    Accepted (plainExpr scope line base e) := by
  obtain ⟨is, gives⟩ := compileExpr_ok scope e shaped line base
  exact accepted_lift gives

theorem accepted_bound {e : Option Expr} (shaped : Expr.EveryBound Expr.Shaped e) (line : Option Int)
    (base : Nat) : Accepted (liftM (compileBound scope line base e) : Compile (List Instruction)) := by
  obtain ⟨is, gives⟩ := compileBound_ok scope e shaped line base
  exact accepted_lift gives

end Expressions

/-- What a literal step is known to be, and whether it is zero. -/
theorem rangeStep_of {step : Option Expr} (shaped : Expr.EveryBound Expr.Shaped step) :
    (∃ n : Number, RangeStep.of step = .known (.number n) ∧
      ((∃ e, step = some e ∧ e.IsZeroLiteral) ↔ n.isZero = true)) ∨
    (RangeStep.of step = .computed ∧ ¬ ∃ e, step = some e ∧ e.IsZeroLiteral) := by
  unfold RangeStep.of
  split
  next =>
    have moves : Number.isZero (.int 1) = false := by decide
    exact .inl ⟨.int 1, rfl, by simp [moves]⟩
  next pos c =>
    obtain ⟨n, rfl⟩ := show LiteralForm.Fits .number c from shaped
    exact .inl ⟨n, rfl, by simp [Expr.IsZeroLiteral]⟩
  next pos pos' c =>
    obtain ⟨n, rfl⟩ := show LiteralForm.Fits .number c from shaped.2
    exact .inl ⟨n.neg, rfl, by simp [Expr.IsZeroLiteral]⟩
  next e literal negated =>
    refine .inr ⟨rfl, ?_⟩
    rintro ⟨_, ⟨⟩, zero⟩
    unfold Expr.IsZeroLiteral at zero
    split at zero
    · exact literal _ _ rfl
    · exact negated _ _ _ rfl
    · exact zero

section Statements

variable (scope : Scope)

theorem refused_range {p : Prop} (line : Option Int) (base : Nat) (setup : List Instruction)
    (var : Constant) (stop : String) (step : Number ⊕ String) (pushStep : Instruction) (length : Nat)
    {inner : LoopTargets → Nat → Compile (List Instruction)}
    (refused : ∀ targets start, RefusedOn p (inner targets start)) :
    RefusedOn p (compileRange line base setup var stop step pushStep length inner) :=
  .next (refused _ _) fun _ => accepted_pure _

mutual

/-- A statement is refused exactly if it is misused or has something misused inside it. -/
theorem refused_stmt : ∀ (s : Stmt), s.Every Expr.Shaped Stmt.Shaped →
    ∀ (loop : Option LoopTargets) (base : Nat),
      RefusedOn (MisusedIn loop.isSome [s]) (compileStmt scope loop base s)
  | .expr _ value, shaped, _, _ => by
    rw [Stmt.misusedIn_leaf rfl rfl]
    exact .after (accepted_plainExpr scope shaped.2 _ _) fun _ => accepted_pure _
  | .assign _ _ value, shaped, _, _ => by
    rw [Stmt.misusedIn_leaf rfl rfl]
    exact .after (accepted_plainExpr scope shaped.2 _ _) fun _ => accepted_pure _
  | .update _ _ op value, ⟨⟨named, known⟩, value'⟩, _, _ => by
    obtain ⟨name, rfl⟩ := named.isText
    rw [Stmt.misusedIn_leaf rfl rfl]
    have known : op.IsKnown := known
    cases op
    case unknown => exact known.elim
    all_goals exact .after (accepted_plainExpr scope value' _ _) fun _ => accepted_pure _
  | .setIndex _ _ _ _, ⟨_, object', position', value'⟩, _, _ => by
    rw [Stmt.misusedIn_leaf rfl rfl]
    refine .after (accepted_plainExpr scope object' _ _) fun _ => ?_
    refine .after (accepted_plainExpr scope position' _ _) fun _ => ?_
    exact .after (accepted_plainExpr scope value' _ _) fun _ => accepted_pure _
  | .setMember _ _ _ _, ⟨_, object', value'⟩, _, _ => by
    rw [Stmt.misusedIn_leaf rfl rfl]
    refine .after (accepted_plainExpr scope object' _ _) fun _ => ?_
    exact .after (accepted_plainExpr scope value' _ _) fun _ => accepted_pure _
  | .branch _ _ body elifs otherwise, ⟨_, test', body', elifs', otherwise'⟩, loop, _ => by
    rw [Stmt.misusedIn_branch]
    refine .after (accepted_plainExpr scope test' _ _) fun _ => ?_
    refine .bind (refused_stmts body body' loop _) fun _ => ?_
    refine .bind (refused_elifs elifs elifs' loop _ _ _) fun _ => ?_
    exact .next (refused_otherwise otherwise otherwise' loop _) fun _ => accepted_pure _
  | .loopTimes _ count body, ⟨_, count', body'⟩, _, _ => by
    rw [Stmt.misusedIn_loop rfl rfl]
    refine .of_iff ?_ (Iff.of_eq (false_or _)).symm
    unfold compileStmt
    dsimp only
    split
    · refine .after (accepted_pure _) fun setup => ?_
      exact .next (refused_stmts body body' (some _) _) fun _ => accepted_pure _
    · refine .after accepted_freshNumber fun _ => ?_
      refine .after (accepted_plainExpr scope count' _ _) fun _ => ?_
      refine .after (accepted_pure _) fun _ => ?_
      exact .next (refused_stmts body body' (some _) _) fun _ => accepted_pure _
  | .loopWhile _ _ body, ⟨_, test', body'⟩, _, _ => by
    rw [Stmt.misusedIn_loop rfl rfl]
    refine .of_iff ?_ (Iff.of_eq (false_or _)).symm
    refine .after (accepted_plainExpr scope test' _ _) fun _ => ?_
    exact .next (refused_stmts body body' (some _) _) fun _ => accepted_pure _
  | .loopRange pos var start stop step body, ⟨_, start', stop', step', body'⟩, loop, _ => by
    rw [Stmt.misusedIn_loop rfl rfl]
    have zero : (Stmt.loopRange pos var start stop step body).Misplaced loop.isSome ↔
        ∃ e, step = some e ∧ e.IsZeroLiteral := by
      cases step <;> simp [Stmt.Misplaced]
    rw [zero]
    unfold compileStmt
    dsimp only
    rcases rangeStep_of step' with ⟨n, known, zero⟩ | ⟨computed, notZero⟩
    · rw [known, zero]
      dsimp only
      have weight : (Value.number n).weight? = some n := rfl
      rw [weight, Option.any_some]
      split
      next isZero =>
        exact (refusedOn_refuse scope _ _ _ _).of_iff (by simp [isZero])
      next notZero =>
        refine .of_iff ?_ (or_iff_right notZero).symm
        refine .after accepted_freshNumber fun _ => ?_
        refine .after (accepted_plainExpr scope start' _ _) fun _ => ?_
        refine .after (accepted_plainExpr scope stop' _ _) fun _ => ?_
        exact refused_range _ _ _ _ _ _ _ _ fun _ _ => refused_stmts body body' (some _) _
    · rw [computed]
      refine .of_iff ?_ (or_iff_right notZero).symm
      refine .after accepted_freshNumber fun _ => ?_
      refine .after (accepted_plainExpr scope start' _ _) fun _ => ?_
      refine .after (accepted_plainExpr scope stop' _ _) fun _ => ?_
      refine .after (accepted_bound scope step' _ _) fun _ => ?_
      exact refused_range _ _ _ _ _ _ _ _ fun _ _ => refused_stmts body body' (some _) _
  | .loopEach _ _ _ body, ⟨_, items', body'⟩, _, _ => by
    rw [Stmt.misusedIn_loop rfl rfl]
    refine .of_iff ?_ (Iff.of_eq (false_or _)).symm
    refine .after accepted_freshNumber fun _ => ?_
    refine .after (accepted_plainExpr scope items' _ _) fun _ => ?_
    exact .next (refused_stmts body body' (some _) _) fun _ => accepted_pure _
  | .leave _, _, loop, _ => by
    rw [Stmt.misusedIn_leaf rfl rfl]
    cases loop with
    | none => exact (refusedOn_refuse scope _ _ _ _).of_iff (by simp [Stmt.Misplaced])
    | some targets => exact (accepted_pure _).of_iff (by simp [Stmt.Misplaced])
  | .again _, _, loop, _ => by
    rw [Stmt.misusedIn_leaf rfl rfl]
    cases loop with
    | none => exact (refusedOn_refuse scope _ _ _ _).of_iff (by simp [Stmt.Misplaced])
    | some targets => exact (accepted_pure _).of_iff (by simp [Stmt.Misplaced])
  | .pass _, _, _, _ => by
    rw [Stmt.misusedIn_leaf rfl rfl]
    exact accepted_pure _
  | .define _, _, _, _ => by
    rw [Stmt.misusedIn_leaf rfl rfl]
    exact refusedOn_refuse scope _ _ _ _
  | .defineClass _ _ _, _, _, _ => by
    rw [Stmt.misusedIn_leaf rfl rfl]
    exact refusedOn_refuse scope _ _ _ _
  | .give _ _, ⟨_, value'⟩, _, _ => by
    rw [Stmt.misusedIn_leaf rfl rfl]
    exact .after (accepted_bound scope value' _ _) fun _ => accepted_pure _
  | .alien _, never, _, _ => False.elim never

theorem refused_stmts : ∀ (ss : List Stmt), Stmt.EveryIn Expr.Shaped Stmt.Shaped ss →
    ∀ (loop : Option LoopTargets) (base : Nat),
      RefusedOn (MisusedIn loop.isSome ss) (compileStmts scope loop base ss)
  | [], _, _, _ => (accepted_pure _).of_iff (by simp [Stmt.not_misusedIn_nil])
  | s :: ss, ⟨first, rest⟩, loop, _ => by
    rw [Stmt.misusedIn_cons]
    refine .bind (refused_stmt s first loop _) fun _ => ?_
    exact .next (refused_stmts ss rest loop _) fun _ => accepted_pure _

theorem refused_elifs : ∀ (es : List Elif), Stmt.EveryElif Expr.Shaped Stmt.Shaped es →
    ∀ (loop : Option LoopTargets) (finish : Nat) (lastArm : Bool) (base : Nat),
      RefusedOn (∃ e ∈ es, MisusedIn loop.isSome e.body)
        (compileElifs scope loop finish lastArm base es)
  | [], _, _, _, _, _ => (accepted_pure _).of_iff (by simp)
  | e :: es, ⟨first, rest⟩, loop, _, _, _ => by
    rw [List.exists_mem_cons_iff]
    refine .bind (refused_elif e first loop _ _ _) fun _ => ?_
    exact .next (refused_elifs es rest loop _ _ _) fun _ => accepted_pure _

theorem refused_elif : ∀ (e : Elif), Elif.Every Expr.Shaped Stmt.Shaped e →
    ∀ (loop : Option LoopTargets) (finish : Nat) (last : Bool) (base : Nat),
      RefusedOn (MisusedIn loop.isSome e.body) (compileElif scope loop finish last base e)
  | .mk _ _ body, ⟨test', body'⟩, loop, _, _, _ => by
    refine .after (accepted_plainExpr scope test' _ _) fun _ => ?_
    exact .next (refused_stmts body body' loop _) fun _ => accepted_pure _

theorem refused_otherwise : ∀ (otherwise : Option (List Stmt)),
    Stmt.EveryOtherwise Expr.Shaped Stmt.Shaped otherwise →
    ∀ (loop : Option LoopTargets) (base : Nat),
      RefusedOn (∃ last, otherwise = some last ∧ MisusedIn loop.isSome last)
        (compileOtherwise scope loop base otherwise)
  | none, _, _, _ => (accepted_pure _).of_iff (by simp)
  | some body, shaped, loop, _ => (refused_stmts body shaped loop _).of_iff (by simp)

end

theorem refused_function {f : Func} (readable : Readable f) (base : Nat) :
    RefusedOn (MisusedIn false f.body) (compileFunction scope base f) :=
  .next (refused_stmts scope f.body ((Func.every_iff ..).mp readable.2) none _) fun _ =>
    accepted_pure _

/-- Keeping the last value changes nothing about what is refused. -/
theorem refused_main (keepResult : Bool) (base : Nat) {body : List Stmt}
    (shaped : Stmt.EveryIn Expr.Shaped Stmt.Shaped body) :
    RefusedOn (MisusedIn false body) (compileMain scope keepResult base body) := by
  unfold compileMain
  split
  next pos value last =>
    have whole : body = body.dropLast ++ [.expr pos value] :=
      (List.dropLast_append_getLast? _ last).symm
    have each := (Stmt.everyIn_iff ..).mp shaped
    have front : Stmt.EveryIn Expr.Shaped Stmt.Shaped body.dropLast :=
      (Stmt.everyIn_iff ..).mpr fun s member => each s (List.dropLast_subset _ member)
    have final : (Stmt.expr pos value).Every Expr.Shaped Stmt.Shaped :=
      each _ (List.mem_of_getLast? last)
    have same : MisusedIn false body ↔ MisusedIn false body.dropLast := by
      rw [whole, Stmt.misusedIn_append, List.dropLast_concat,
        or_iff_left (Stmt.misusedIn_leaf rfl rfl).mp]
    rw [same]
    refine .next (refused_stmts scope _ front none _) fun _ => ?_
    exact .after (accepted_plainExpr scope final.2 _ _) fun _ => accepted_pure _
  next => exact .next (refused_stmts scope body shaped none _) fun _ => accepted_pure _

theorem refused_functions {fs : List (Name × Func)} (readable : ∀ entry ∈ fs, Readable entry.2)
    (code : Code) :
    RefusedOn (∃ entry ∈ fs, MisusedIn false entry.2.body) (addFunctions scope fs code) := by
  induction fs generalizing code with
  | nil => exact (accepted_pure _).of_iff (by simp)
  | cons entry fs ih =>
    obtain ⟨first, readable⟩ := List.forall_mem_cons.mp readable
    rw [List.exists_mem_cons_iff]
    exact .bind (refused_function scope first _) fun _ => ih readable _

theorem refused_methods (className : Name) {fs : List Func} (readable : ∀ f ∈ fs, Readable f)
    (found : Bindings Int) (code : Code) :
    RefusedOn (∃ f ∈ fs, MisusedIn false f.body) (addMethods scope className fs found code) := by
  induction fs generalizing found code with
  | nil => exact (accepted_pure _).of_iff (by simp)
  | cons f fs ih =>
    obtain ⟨first, readable⟩ := List.forall_mem_cons.mp readable
    obtain ⟨name, named⟩ := first.1.1.isText
    rw [List.exists_mem_cons_iff]
    refine .bind ?_ fun code => ?_
    · exact (refused_functions scope (by simpa using first) code).of_iff (by simp)
    · exact .after (accepted_lift (by rw [named]; rfl)) fun _ => ih readable _ _

theorem refused_classes {classes : List (Name × List Func)}
    (readable : ∀ entry ∈ classes, ∀ f ∈ entry.2, Readable f) (code : Code) :
    RefusedOn (∃ entry ∈ classes, ∃ f ∈ entry.2, MisusedIn false f.body)
      (addClasses scope classes code) := by
  induction classes generalizing code with
  | nil => exact (accepted_pure _).of_iff (by simp)
  | cons entry classes ih =>
    obtain ⟨first, readable⟩ := List.forall_mem_cons.mp readable
    rw [List.exists_mem_cons_iff]
    exact .bind (refused_methods scope entry.1 first [] code) fun _ => ih readable _

end Statements

end Code

theorem Constant.IsText.scalar? {c : Constant} (isText : c.IsText) : ∃ name, c.scalar? = some name := by
  obtain ⟨s, rfl⟩ := isText
  exact ⟨.text s, rfl⟩

/-- Texts are found under the same key only if they are equal. -/
theorem Constant.IsText.key_eq_iff {c d : Constant} (first : c.IsText) (second : d.IsText)
    {name other : Name} (known : c.scalar? = some name) (known' : d.scalar? = some other) :
    name.key = other.key ↔ c = d := by
  obtain ⟨s, rfl⟩ := first
  obtain ⟨t, rfl⟩ := second
  cases known
  cases known'
  constructor
  · intro same
    rw [text_of_key_eq same]
  · rintro ⟨⟩
    rfl

namespace Program

variable {program : Program}

/-- Of the statements that bind a text to something, those count behind which it is not bound again. -/
theorem exists_mem_bound_iff {α : Type} {bound? : Stmt → Option (Constant × α)} {body : List Stmt}
    (texts : ∀ s ∈ body, ∀ bound, bound? s = some bound → bound.1.IsText) {value : α} :
    (∃ name, (name, value) ∈ Bindings.ofList (body.filterMap fun s =>
        (bound? s).bind fun bound => bound.1.scalar?.map fun name => (name, bound.2))) ↔
      ∃ before s after name, body = before ++ s :: after ∧ bound? s = some (name, value) ∧
        ∀ t ∈ after, ∀ later, bound? t = some later → later.1 ≠ name := by
  simp only [Bindings.exists_mem_filterMap_iff, Option.bind_eq_some_iff, Option.map_eq_some_iff]
  constructor
  · rintro ⟨before, s, after, _, rfl, ⟨⟨c, _⟩, binds, name, known, ⟨⟩⟩, others⟩
    refine ⟨before, s, after, c, rfl, binds, fun t among later binds' same => ?_⟩
    have isText := texts t (by simp [among]) _ binds'
    obtain ⟨other, known'⟩ := isText.scalar?
    refine others t among (other, later.2) ⟨later, binds', other, known', rfl⟩ ?_
    exact (isText.key_eq_iff (texts s (by simp) _ binds) known' known).mpr same
  · rintro ⟨before, s, after, c, rfl, binds, others⟩
    have isText := texts s (by simp) _ binds
    obtain ⟨name, known⟩ := isText.scalar?
    refine ⟨before, s, after, name, rfl, ⟨_, binds, name, known, rfl⟩, ?_⟩
    rintro t among _ ⟨later, binds', other, known', rfl⟩ same
    refine others t among later binds' ?_
    exact ((texts t (by simp [among]) _ binds').key_eq_iff isText known' known).mp same

theorem mem_functions_iff (shaped : program.Shaped) {f : Func} :
    (∃ name, (name, f) ∈ program.functions) ↔
      ∃ before after, program.body = before ++ .define f :: after ∧
        ∀ g : Func, .define g ∈ after → g.name ≠ f.name := by
  have texts : ∀ s ∈ program.body, ∀ bound, s.func? = some bound → bound.1.IsText := by
    rintro s member _ binds
    cases s <;> cases binds
    exact (shaped_of_mem shaped member).1.1.isText
  have unfolded : program.functions = Bindings.ofList (program.body.filterMap fun s =>
      (s.func?).bind fun bound => bound.1.scalar?.map fun name => (name, bound.2)) := by
    unfold functions
    congr
    funext s
    cases s <;> rfl
  rw [unfolded, exists_mem_bound_iff texts]
  constructor
  · rintro ⟨before, s, after, name, split, binds, others⟩
    cases s <;> cases binds
    exact ⟨before, after, split, fun g among => others _ among _ rfl⟩
  · rintro ⟨before, after, split, others⟩
    refine ⟨before, _, after, _, split, rfl, fun t among _ binds => ?_⟩
    cases t <;> cases binds
    exact others _ among

theorem mem_classes_iff (shaped : program.Shaped) {pos : Pos} {methods : List Func} :
    (∃ name, (name, pos, methods) ∈ program.classes) ↔
      ∃ before after name, program.body = before ++ .defineClass pos name methods :: after ∧
        ∀ pos' name' methods', .defineClass pos' name' methods' ∈ after → name' ≠ name := by
  have texts : ∀ s ∈ program.body, ∀ bound, s.class? = some bound → bound.1.IsText := by
    rintro s member _ binds
    cases s <;> cases binds
    exact (shaped_of_mem shaped member).1.1.isText
  have unfolded : program.classes = Bindings.ofList (program.body.filterMap fun s =>
      (s.class?).bind fun bound => bound.1.scalar?.map fun name => (name, bound.2)) := by
    unfold classes
    congr
    funext s
    cases s <;> rfl
  rw [unfolded, exists_mem_bound_iff texts]
  constructor
  · rintro ⟨before, s, after, name, split, binds, others⟩
    cases s <;> cases binds
    exact ⟨before, after, name, split, fun _ _ _ among => others _ among _ rfl⟩
  · rintro ⟨before, after, name, split, others⟩
    refine ⟨before, _, after, name, split, rfl, fun t among _ binds => ?_⟩
    cases t <;> cases binds
    exact others _ _ _ among

/-- What is misused in the bodies that are compiled. -/
theorem exists_misuse_iff (shaped : program.Shaped) :
    (∃ body, program.Compiles body ∧ Stmt.Misuse body) ↔
      Stmt.MisusedIn false program.main ∨
      (∃ entry ∈ program.functions, Stmt.MisusedIn false entry.2.body) ∨
      ∃ entry ∈ program.methodLists, ∃ f ∈ entry.2, Stmt.MisusedIn false f.body := by
  simp only [Stmt.misuse_iff]
  constructor
  · rintro ⟨_, compiled, misused⟩
    cases compiled with
    | main => exact .inl misused
    | function split others =>
      obtain ⟨name, member⟩ := (mem_functions_iff shaped).mpr ⟨_, _, split, others⟩
      exact .inr (.inl ⟨_, member, misused⟩)
    | method split others among =>
      obtain ⟨name, member⟩ := (mem_classes_iff shaped).mpr ⟨_, _, _, split, others⟩
      exact .inr (.inr ⟨_, List.mem_map_of_mem member, _, among, misused⟩)
  · rintro (misused | ⟨⟨name, f⟩, member, misused⟩ | ⟨_, member, f, among, misused⟩)
    · exact ⟨_, .main, misused⟩
    · obtain ⟨before, after, split, others⟩ := (mem_functions_iff shaped).mp ⟨name, member⟩
      exact ⟨_, .function split others, misused⟩
    · obtain ⟨⟨name, pos, methods⟩, inside, rfl⟩ := List.mem_map.mp member
      obtain ⟨before, after, _, split, others⟩ := (mem_classes_iff shaped).mp ⟨name, inside⟩
      exact ⟨_, .method split others among, misused⟩

theorem forM_ok {α : Type} {check : α → Except Failure Unit} {xs : List α}
    (each : ∀ x ∈ xs, check x = .ok ⟨⟩) : xs.forM check = .ok ⟨⟩ := by
  induction xs with
  | nil => rfl
  | cons x xs ih =>
    obtain ⟨first, each⟩ := List.forall_mem_cons.mp each
    rw [← ih each, List.forM_eq_forM, List.forM_cons, first]
    rfl

theorem checkDefinitions_ok (shaped : program.Shaped) : program.checkDefinitions = .ok ⟨⟩ := by
  refine forM_ok fun s member => ?_
  have shape := (shaped_of_mem shaped member)
  cases s
  case define f =>
    obtain ⟨name, spelled⟩ := shape.1.1.isText
    simp only [spelled]
    rfl
  case defineClass =>
    obtain ⟨name, rfl⟩ := shape.1.1.isText
    rfl
  all_goals rfl

theorem areOrdered_of_texts {names : List Name} (texts : ∀ name ∈ names, name.isText) :
    areOrdered names = true := by
  have all : names.all Scalar.isText = true := List.all_eq_true.mpr texts
  simp [areOrdered, all]

/-- Names of a program that was read from text have an order. -/
theorem areOrdered_names (shaped : program.Shaped) :
    (areOrdered program.functions.names && areOrdered program.classes.names) = true := by
  rw [Bool.and_eq_true]
  constructor <;> refine areOrdered_of_texts fun name among => ?_
  · obtain ⟨⟨name, f⟩, member, rfl⟩ := List.mem_map.mp among
    obtain ⟨inside, known, scalar, same⟩ := mem_functions member
    obtain ⟨s, spelled⟩ := (shaped_of_mem shaped inside).1.1.isText
    rw [spelled] at scalar
    cases scalar
    rw [text_of_key_eq same]
    rfl
  · obtain ⟨⟨name, pos, methods⟩, member, rfl⟩ := List.mem_map.mp among
    obtain ⟨className, inside, known, scalar, same⟩ := mem_classes member
    obtain ⟨s, rfl⟩ := (shaped_of_mem shaped inside).1.1.isText
    cases scalar
    rw [text_of_key_eq same]
    rfl

/-- Compiling either refuses a misuse, or there is none and it gives code. -/
theorem refused_compile (shaped : program.Shaped) (filename : String) (keepResult : Bool) :
    ((∃ body, program.Compiles body ∧ Stmt.Misuse body) ∧
      ∃ fault : Fault, fault.phase = .compiling ∧
        program.compile filename keepResult = .error (.fault fault)) ∨
    ((¬ ∃ body, program.Compiles body ∧ Stmt.Misuse body) ∧
      ∃ code, program.compile filename keepResult = .ok code) := by
  have body : Stmt.EveryIn Expr.Shaped Stmt.Shaped program.main := Every.main shaped
  let scope := program.scope filename
  let registrations : List Instruction :=
    program.classes.map fun entry => ⟨.classDef, entry.1.toValue, entry.2.1.line⟩
  have whole : Code.RefusedOn (∃ body, program.Compiles body ∧ Stmt.Misuse body) (do
      program.checkDefinitions
      let main ← Code.compileMain scope keepResult registrations.length program.main
      let code ← Code.addFunctions scope program.functions
        { instructions := (registrations ++ main).toArray }
      let code ← Code.addClasses scope program.methodLists code
      if areOrdered program.functions.names && areOrdered program.classes.names then return code
      else throw (.host .mistyped) : Code.Compile Code) := by
    rw [exists_misuse_iff shaped]
    refine .after (Code.accepted_lift (checkDefinitions_ok shaped)) fun _ => ?_
    refine .bind (Code.refused_main scope keepResult _ body) fun _ => ?_
    refine .bind (Code.refused_functions scope (readable_functions shaped) _) fun _ => ?_
    refine .next (Code.refused_classes scope (readable_methods shaped) _) fun _ => ?_
    rw [if_pos (areOrdered_names shaped)]
    exact Code.accepted_pure _
  rcases whole 0 with ⟨misused, fault, phase, refused⟩ | ⟨fine, ⟨code, n⟩, compiled⟩
  · refine .inl ⟨misused, fault, phase, ?_⟩
    exact congrArg (Except.map Prod.fst) refused
  · refine .inr ⟨fine, code, ?_⟩
    exact congrArg (Except.map Prod.fst) compiled

/-- A program that was read from text is refused exactly if a body of it that is compiled is misused,
and it is compiled otherwise. -/
theorem compile_refused_iff {source parsedAs : String} (parsed : Program.parse source parsedAs = .ok program)
    (filename : String) (keepResult : Bool) :
    ((∃ fault : Fault, fault.phase = .compiling ∧
        program.compile filename keepResult = .error (.fault fault)) ↔
      ∃ body, program.Compiles body ∧ Stmt.Misuse body) ∧
    ((∃ code, program.compile filename keepResult = .ok code) ↔
      ¬ ∃ body, program.Compiles body ∧ Stmt.Misuse body) := by
  have shaped := Program.parse_shaped parsed
  rcases refused_compile shaped filename keepResult with
    ⟨misused, fault, phase, refused⟩ | ⟨fine, code, compiled⟩
  · refine ⟨iff_of_true ⟨fault, phase, refused⟩ misused, iff_of_false ?_ (not_not_intro misused)⟩
    rintro ⟨code, compiled⟩
    rw [refused] at compiled
    cases compiled
  · refine ⟨iff_of_false ?_ fine, iff_of_true ⟨code, compiled⟩ fine⟩
    rintro ⟨fault, -, refused⟩
    rw [compiled] at refused
    cases refused

/-- A `break` in a function that is replaced does no harm; a step of minus zero does. -/
theorem compile_refused_replaced : ∃ p q,
    Program.parse "def f():\n  break\ndef f():\n  return 1\n" "<stdin>" = .ok p ∧
      Program.parse "while 1:\n  break\nfor i in range(0, 3, -0):\n  continue\n" "<stdin>" = .ok q ∧
      (¬ ∃ body, p.Compiles body ∧ Stmt.Misuse body) ∧ ∃ body, q.Compiles body ∧ Stmt.Misuse body := by
  have compiles : (Program.parse "def f():\n  break\ndef f():\n  return 1\n" "<stdin>").toOption.any
      (fun p => (p.compile "<stdin>").toOption.isSome) = true := by
    rw [@Program.parse_eq_ofChars "def f():\n  break\ndef f():\n  return 1\n" _ rfl]
    decide +kernel
  have refuses : (Program.parse "while 1:\n  break\nfor i in range(0, 3, -0):\n  continue\n"
      "<stdin>").toOption.any (fun q => (q.compile "<stdin>").toOption.isNone) = true := by
    rw [@Program.parse_eq_ofChars "while 1:\n  break\nfor i in range(0, 3, -0):\n  continue\n" _ rfl]
    decide +kernel
  obtain ⟨p, first, compiles⟩ := exists_ok compiles
  obtain ⟨q, second, refuses⟩ := exists_ok refuses
  refine ⟨p, q, first, second, (compile_refused_iff first "<stdin>" false).2.mp ?_,
    not_not.mp ((compile_refused_iff second "<stdin>" false).2.not.mp ?_)⟩
  · unfold Except.toOption at compiles
    split at compiles
    next code compiled => exact ⟨code, compiled⟩
    next => cases compiles
  · rintro ⟨code, compiled⟩
    rw [compiled] at refuses
    cases refuses

end Program

end Stepwise
