import Stepwise.Proofs.Outcome
import Stepwise.Tree.Unplaced
import Stepwise.Walker.Step

/-!
How statements end. Where every `break` and `continue` is inside a loop of the statement, another
loop around it makes no difference (`exec_enclosed`), and outside of loops nothing leaves or continues
one (`keepsLoop_exec`).
-/
namespace Stepwise

mutual

/-- Every `break` and `continue` of a statement is inside a loop of it. -/
def Stmt.Enclosed : Stmt → Prop
  | .branch _ _ body elifs otherwise =>
    Stmt.EnclosedIn body ∧ Stmt.EnclosedElif elifs ∧ Stmt.EnclosedOtherwise otherwise
  | .leave _ | .again _ => False
  | .expr _ _ | .assign _ _ _ | .update _ _ _ _ | .setIndex _ _ _ _ | .setMember _ _ _ _
  | .loopTimes _ _ _ | .loopWhile _ _ _ | .loopRange _ _ _ _ _ _ | .loopEach _ _ _ _ | .pass _
  | .define _ | .defineClass _ _ _ | .give _ _ | .alien _ => True

def Stmt.EnclosedIn : List Stmt → Prop
  | [] => True
  | s :: ss => s.Enclosed ∧ Stmt.EnclosedIn ss

def Stmt.EnclosedElif : List Elif → Prop
  | [] => True
  | .mk _ _ body :: es => Stmt.EnclosedIn body ∧ Stmt.EnclosedElif es

def Stmt.EnclosedOtherwise : Option (List Stmt) → Prop
  | none => True
  | some body => Stmt.EnclosedIn body

end

/-- A statement that has no block and does not return. -/
def Stmt.Straight : Stmt → Prop
  | .branch _ _ _ _ _ | .loopTimes _ _ _ | .loopWhile _ _ _ | .loopRange _ _ _ _ _ _
  | .loopEach _ _ _ _ | .give _ _ => False
  | .expr _ _ | .assign _ _ _ | .update _ _ _ _ | .setIndex _ _ _ _ | .setMember _ _ _ _ | .leave _
  | .again _ | .pass _ | .define _ | .defineClass _ _ _ | .alien _ => True

namespace Stmt

mutual

theorem enclosed_unplaced : ∀ s : Stmt, s.unplaced.Enclosed ↔ s.Enclosed
  | .branch _ _ body elifs otherwise => by
    simp only [unplaced, Enclosed, enclosedIn_unplacedAll body, enclosedElif_unplaced elifs,
      enclosedOtherwise_unplaced otherwise]
  | .expr _ _ | .assign _ _ _ | .update _ _ _ _ | .setIndex _ _ _ _ | .setMember _ _ _ _
  | .loopTimes _ _ _ | .loopWhile _ _ _ | .loopRange _ _ _ _ _ _ | .loopEach _ _ _ _ | .pass _
  | .define _ | .defineClass _ _ _ | .give _ _ | .alien _ | .leave _ | .again _ => by
    simp only [unplaced, Enclosed]

/-- Where statements stand makes no difference to the loops around them. -/
theorem enclosedIn_unplacedAll : ∀ ss : List Stmt, EnclosedIn (unplacedAll ss) ↔ EnclosedIn ss
  | [] => by simp only [unplacedAll, EnclosedIn]
  | s :: ss => by
    simp only [unplacedAll, EnclosedIn, enclosed_unplaced s, enclosedIn_unplacedAll ss]

theorem enclosedElif_unplaced : ∀ es : List Elif, EnclosedElif (unplacedElifs es) ↔ EnclosedElif es
  | [] => by simp only [unplacedElifs, EnclosedElif]
  | .mk _ _ body :: es => by
    simp only [unplacedElifs, unplacedElif, EnclosedElif, enclosedIn_unplacedAll body,
      enclosedElif_unplaced es]

theorem enclosedOtherwise_unplaced : ∀ otherwise : Option (List Stmt),
    EnclosedOtherwise (unplacedOption otherwise) ↔ EnclosedOtherwise otherwise
  | none => by simp only [unplacedOption, EnclosedOtherwise]
  | some body => by simp only [unplacedOption, EnclosedOtherwise, enclosedIn_unplacedAll body]

end

end Stmt

namespace Walker

section Around

variable (invoke : Invoke)

mutual

/-- A loop around a statement makes no difference if its own loops enclose all that leaves or
continues one. -/
theorem exec_enclosed : ∀ s : Stmt, s.Enclosed → exec invoke true s = exec invoke false s
  | .branch _ _ body elifs otherwise, ⟨first, others, last⟩ => by
    simp only [exec, block_enclosed body first, elifs_enclosed elifs others,
      otherwise_enclosed otherwise last]
  | .leave _, enclosed | .again _, enclosed => enclosed.elim
  | .expr _ _, _ | .assign _ _ _, _ | .update _ _ _ _, _ | .setIndex _ _ _ _, _
  | .setMember _ _ _ _, _ | .loopTimes _ _ _, _ | .loopWhile _ _ _, _
  | .loopRange _ _ _ _ _ _, _ | .loopEach _ _ _ _, _ | .pass _, _ | .define _, _
  | .defineClass _ _ _, _ | .give _ _, _ | .alien _, _ => by
    simp only [exec]

theorem block_enclosed : ∀ ss : List Stmt, Stmt.EnclosedIn ss →
    execBlock invoke true ss = execBlock invoke false ss
  | [], _ => by simp only [execBlock]
  | s :: ss, ⟨first, others⟩ => by
    simp only [execBlock, exec_enclosed s first, block_enclosed ss others]

theorem elifs_enclosed : ∀ es : List Elif, Stmt.EnclosedElif es → ∀ lastResort,
    execElifs invoke true lastResort es = execElifs invoke false lastResort es
  | [], _, _ => by simp only [execElifs]
  | .mk _ _ body :: es, ⟨first, others⟩, lastResort => by
    simp only [execElifs, execElif, block_enclosed body first, elifs_enclosed es others]

theorem otherwise_enclosed : ∀ otherwise : Option (List Stmt), Stmt.EnclosedOtherwise otherwise →
    execOtherwise invoke true otherwise = execOtherwise invoke false otherwise
  | none, _ => by simp only [execOtherwise]
  | some body, enclosed => by simp only [execOtherwise, block_enclosed body enclosed]

end

end Around

section Flows

variable {α : Type}

/-- Whenever a computation does not fail, its flow is one of those that are allowed. -/
def Yields (allowed : Flow → Prop) (x : Walk Flow) : Prop :=
  ∀ w flow w', x w = (.ok flow, w') → allowed flow

variable {allowed : Flow → Prop}

theorem yields_pure {flow : Flow} (isAllowed : allowed flow) : Yields allowed (pure flow) := by
  rintro w _ w' ⟨⟩
  exact isAllowed

theorem yields_throw (failure : Failure) : Yields allowed (throw failure) := by
  rintro w _ w' ⟨⟩

theorem Yields.bind {x : Walk α} {f : α → Walk Flow} (yields : ∀ a, Yields allowed (f a)) :
    Yields allowed (x >>= f) := by
  intro w flow w' done
  obtain ⟨a, k, -, done⟩ := Act.ok_of_bind done
  exact yields a k flow w' done

theorem Yields.ite {c : Prop} [Decidable c] {x y : Walk Flow} (yes : Yields allowed x)
    (no : Yields allowed y) : Yields allowed (if c then x else y) := by
  split
  · exact yes
  · exact no

/-- A flow that neither leaves a loop nor continues one. -/
def Flow.KeepsLoop (flow : Flow) : Prop := flow = .next ∨ ∃ v, flow = .give v

theorem keepsLoop_next : Yields Flow.KeepsLoop (pure .next) := yields_pure (.inl rfl)

theorem keepsLoop_give (v : Value) : Yields Flow.KeepsLoop (pure (.give v)) :=
  yields_pure (.inr ⟨v, rfl⟩)

theorem keepsLoop_runTimes (body : Walk Flow) (count : Nat) :
    Yields Flow.KeepsLoop (runTimes body count) := by
  induction count with
  | zero => exact keepsLoop_next
  | succ count ih =>
    refine .bind fun flow => ?_
    cases flow with
    | next | again => exact ih
    | leave => exact keepsLoop_next
    | give v => exact keepsLoop_give v

theorem keepsLoop_runWhile (line : Option Int) (test : Walk Bool) (body : Walk Flow)
    (advance : Walk Unit) (rounds : Nat) :
    Yields Flow.KeepsLoop (runWhile line test body advance rounds) := by
  induction rounds with
  | zero => exact .bind fun _ => yields_throw _
  | succ rounds ih =>
    refine .bind fun holds => .ite (.bind fun flow => ?_) keepsLoop_next
    cases flow with
    | next | again => exact .bind fun _ => ih
    | leave => exact keepsLoop_next
    | give v => exact keepsLoop_give v

theorem keepsLoop_runEach (var : Constant) (body : Walk Flow) (items : List Value) :
    Yields Flow.KeepsLoop (runEach var body items) := by
  induction items with
  | nil => exact keepsLoop_next
  | cons item rest ih =>
    refine .bind fun _ => .bind fun _ => .bind fun flow => ?_
    cases flow with
    | next | again => exact ih
    | leave => exact keepsLoop_next
    | give v => exact keepsLoop_give v

variable (invoke : Invoke)

/-- Outside of loops, such a statement goes on. -/
theorem yields_straight {allowed : Flow → Prop} (next : allowed .next) {s : Stmt} (straight : s.Straight) :
    Yields allowed (exec invoke false s) := by
  cases s with
  | branch | loopTimes | loopWhile | loopRange | loopEach | give => exact straight.elim
  | leave | again | define | defineClass | alien =>
    simp only [exec]
    exact .bind fun _ => yields_throw _
  | pass =>
    simp only [exec]
    exact .bind fun _ => yields_pure next
  | expr =>
    simp only [exec]
    exact .bind fun _ => .bind fun _ => yields_pure next
  | assign =>
    simp only [exec]
    exact .bind fun _ => .bind fun _ => .bind fun _ => .bind fun _ => yields_pure next
  | update =>
    simp only [exec]
    refine .bind fun _ => .bind fun _ => .bind fun _ => .bind fun _ => ?_
    split
    · exact yields_throw _
    · exact .bind fun _ => .bind fun _ => .bind fun _ => yields_pure next
  | setIndex | setMember =>
    simp only [exec]
    exact .bind fun _ => .bind fun _ => .bind fun _ => .bind fun _ => .bind fun _ =>
      .bind fun _ => .bind fun _ => yields_pure next

mutual

/-- Outside of loops, nothing leaves or continues one. -/
theorem keepsLoop_exec : ∀ s : Stmt, Yields Flow.KeepsLoop (exec invoke false s)
  | .branch _ _ body elifs otherwise => by
    simp only [exec]
    exact .bind fun _ => .bind fun _ => .ite (keepsLoop_block body)
      (keepsLoop_elifs elifs (keepsLoop_otherwise otherwise))
  | .loopTimes _ _ _ => by
    simp only [exec]
    exact .bind fun _ => .bind fun _ => keepsLoop_runTimes _ _
  | .loopWhile _ _ _ => by
    simp only [exec]
    exact .bind fun _ => .bind fun _ => keepsLoop_runWhile _ _ _ _ _
  | .loopRange _ _ _ _ _ _ => by
    simp only [exec]
    exact .bind fun _ => .bind fun _ => .bind fun _ => .bind fun _ => .bind fun _ =>
      keepsLoop_runWhile _ _ _ _ _
  | .loopEach _ _ _ _ => by
    simp only [exec]
    exact .bind fun _ => .bind fun _ => keepsLoop_runEach _ _ _
  | .give _ _ => by
    simp only [exec]
    exact .bind fun _ => .bind fun v => keepsLoop_give v
  | .expr _ _ | .assign _ _ _ | .update _ _ _ _ | .setIndex _ _ _ _ | .setMember _ _ _ _ | .leave _
  | .again _ | .pass _ | .define _ | .defineClass _ _ _ | .alien _ =>
    yields_straight invoke (.inl rfl) trivial

theorem keepsLoop_block : ∀ ss : List Stmt, Yields Flow.KeepsLoop (execBlock invoke false ss)
  | [] => by
    simp only [execBlock]
    exact keepsLoop_next
  | s :: ss => by
    simp only [execBlock]
    intro w flow w' done
    obtain ⟨first, k, began, done⟩ := Act.ok_of_bind done
    rcases keepsLoop_exec s w first k began with rfl | ⟨v, rfl⟩
    · exact keepsLoop_block ss k flow w' done
    · exact keepsLoop_give v k flow w' done

theorem keepsLoop_elifs : ∀ (es : List Elif) {lastResort : Walk Flow},
    Yields Flow.KeepsLoop lastResort →
    Yields Flow.KeepsLoop (execElifs invoke false lastResort es)
  | [], _, last => by
    simp only [execElifs]
    exact last
  | .mk _ _ body :: es, _, last => by
    simp only [execElifs, execElif]
    exact .bind fun _ => .ite (keepsLoop_block body) (keepsLoop_elifs es last)

theorem keepsLoop_otherwise : ∀ otherwise : Option (List Stmt),
    Yields Flow.KeepsLoop (execOtherwise invoke false otherwise)
  | none => by
    simp only [execOtherwise]
    exact keepsLoop_next
  | some body => by
    simp only [execOtherwise]
    exact keepsLoop_block body

end

end Flows

end Walker

end Stepwise
