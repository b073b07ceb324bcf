import Stepwise.Proofs.Evaluation.Likewise

/-!
Running statements on two walkers side by side. A relation that is kept where walks are composed, and that
holds of what statements ask of a walker, holds of every statement and of the same one elsewhere in its
source: `related_exec`. The main instance are walks that end likewise, of walkers with the same limit
(`running_likewise`).
-/
namespace Stepwise.Walker

variable {α : Type} {place : Pos → Pos} {invoke : Invoke}

/-- A relation between walks that is kept by evaluation, by the beginning of a statement and where the
rounds of a loop are limited. -/
structure Running (Rel : ∀ {α : Type}, Walk α → Walk α → Prop) (place : Pos → Pos) (invoke : Invoke) :
    Prop extends Facilities.Binding Rel place (facilities invoke) (facilities invoke) where
  begins (pos : Pos) : Rel (begin pos.line) (begin (place pos).line)
  exhausted (pos : Pos) (test test' : Walk Bool) (body body' : Walk Flow) (advance advance' : Walk Unit) :
    Rel (runWhile pos.line test body advance 0) (runWhile (place pos).line test' body' advance' 0)
  bounded {x y : Nat → Walk Flow} {statements statements' : List Stmt} :
    statements'.isEmpty = statements.isEmpty → (∀ rounds, Rel (x rounds) (y rounds)) →
      Rel (do x ((← get).roundLimit statements)) (do y ((← get).roundLimit statements'))

section Likewise

variable {excused : Failure → Prop} {R : Walker → Walker → Prop}

/-- A computation that ends likewise on walkers that are related. -/
abbrev Paired (excused : Failure → Prop) (R : Walker → Walker → Prop) (x : Walk α) : Prop :=
  Act.Likewise excused R x x

/-- Walkers with the same limit run statements likewise. -/
theorem running_likewise
    (binding : (facilities invoke).Binding (Act.Likewise excused R) id (facilities invoke))
    (begins : ∀ line, Paired excused R (begin line))
    (limit : ∀ w w', R w w' → w.maxSteps = w'.maxSteps) : Running (Act.Likewise excused R) id invoke where
  toBinding := binding
  begins pos := begins pos.line
  exhausted pos _ _ _ _ _ _ := by
    intro w w' related
    simp only [runWhile, Act.bind_apply, Act.get_apply, Engine.tooManySteps, limit w w' related]
    exact .same related
  bounded empty likewise := by
    intro w w' related
    simp only [Act.bind_apply, Act.get_apply, roundLimit, limit w w' related, empty]
    exact likewise _ w w' related

end Likewise

variable {Rel : ∀ {α : Type}, Walk α → Walk α → Prop} {edit : Edit}

section Expressions

variable (running : Running Rel place invoke) (uniform : edit.Uniform place)

include running

theorem related_inRange (v stop step : Value) : Rel (inRange v stop step) (inRange v stop step) :=
  running.inRange v stop step

theorem related_advanceRange (var : Name) (step : Value) :
    Rel (advanceRange var step) (advanceRange var step) :=
  running.advanceRange var step

include uniform

theorem related_eval (e : Expr) : Rel (eval invoke e) (eval invoke (edit.expr e)) := by
  have related := running.eval uniform e
  rwa [eval_facilities, eval_facilities] at related

theorem related_evalOption (e : Option Expr) :
    Rel (evalOption invoke e) (evalOption invoke (e.map edit.expr)) := by
  have related := running.evalOption uniform e
  rwa [evalOption_facilities, evalOption_facilities] at related

theorem related_test (e : Expr) : Rel (test invoke e) (test invoke (edit.expr e)) := by
  have related := running.test uniform e
  rwa [test_facilities, test_facilities] at related

theorem related_countOf (pos : Pos) (count : Expr) :
    Rel (countOf invoke pos.line count) (countOf invoke (place pos).line (edit.expr count)) := by
  have related := running.countOf uniform pos count
  rwa [countOf_facilities, countOf_facilities] at related

theorem related_boundsOf (pos : Pos) (start stop : Expr) (step : Option Expr) :
    Rel (boundsOf invoke pos.line start stop step)
      (boundsOf invoke (place pos).line (edit.expr start) (edit.expr stop) (step.map edit.expr)) := by
  have related := running.boundsOf uniform pos start stop step
  rwa [boundsOf_facilities, boundsOf_facilities] at related

theorem related_itemsOf (pos : Pos) (items : Expr) :
    Rel (itemsOf invoke pos.line items) (itemsOf invoke (place pos).line (edit.expr items)) := by
  have related := running.itemsOf uniform pos items
  rwa [itemsOf_facilities, itemsOf_facilities] at related

end Expressions

section Loops

variable (running : Running Rel place invoke) {body body' : Walk Flow} (runs : Rel body body')

include running runs

theorem related_runTimes (count : Nat) : Rel (runTimes body count) (runTimes body' count) := by
  induction count with
  | zero => exact running.pure _
  | succ count ih =>
    refine running.bind runs fun flow => ?_
    cases flow with
    | next | again => exact ih
    | leave | give => exact running.pure _

theorem related_rounds (pos : Pos) {test test' : Walk Bool} {advance advance' : Walk Unit}
    (tests : Rel test test') (advances : Rel advance advance') {statements statements' : List Stmt}
    (empty : statements'.isEmpty = statements.isEmpty) :
    Rel (do runWhile pos.line test body advance ((← get).roundLimit statements))
      (do runWhile (place pos).line test' body' advance' ((← get).roundLimit statements')) := by
  refine running.bounded empty fun rounds => ?_
  induction rounds with
  | zero => exact running.exhausted pos ..
  | succ rounds ih =>
    refine running.bind tests fun holds =>
      Facilities.rel_ite (running.bind runs fun flow => ?_) (running.pure _)
    cases flow with
    | next | again => exact running.bind advances fun _ => ih
    | leave | give => exact running.pure _

theorem related_runEach (var : Constant) (items : List Value) :
    Rel (runEach var body items) (runEach var body' items) := by
  induction items with
  | nil => exact running.pure _
  | cons item rest ih =>
    refine running.bind (running.lift _) fun name => running.bind (running.store name item) fun _ =>
      running.bind runs fun flow => ?_
    cases flow with
    | next | again => exact ih
    | leave | give => exact running.pure _

end Loops

/-- Walks that first begin a statement, and what they do then is related. -/
def Begun (Rel : ∀ {α : Type}, Walk α → Walk α → Prop) (place : Pos → Pos) (x y : Walk α) : Prop :=
  ∃ (pos : Pos) (rest rest' : Walk α), x = (do begin pos.line; rest) ∧
    y = (do begin (place pos).line; rest') ∧ Rel rest rest'

theorem Begun.related (running : Running Rel place invoke) {x y : Walk α} (begun : Begun Rel place x y) :
    Rel x y := by
  obtain ⟨pos, rest, rest', rfl, rfl, related⟩ := begun
  exact running.bind (running.begins pos) fun _ => related

section Statements

mutual

/-- A statement and the same one elsewhere in its source. -/
theorem begun_exec (running : Running Rel place invoke) (uniform : edit.Uniform place) :
    ∀ (s : Stmt) (inLoop : Bool),
      Begun Rel place (exec invoke inLoop s) (exec invoke inLoop (edit.stmt s))
  | .expr pos value, _ => by
    rw [uniform.stmt]
    simp only [Stmt.edited, exec]
    exact ⟨pos, _, _, rfl, rfl, running.bind (related_eval running uniform value) fun _ => running.pure _⟩
  | .assign pos target value, _ => by
    rw [uniform.stmt]
    simp only [Stmt.edited, exec]
    exact ⟨pos, _, _, rfl, rfl, running.bind (related_eval running uniform value) fun v =>
      running.bind (running.lift _) fun name => running.bind (running.store name v) fun _ => running.pure _⟩
  | .update pos target op value, _ => by
    rw [uniform.stmt]
    simp only [Stmt.edited, exec]
    refine ⟨pos, _, _, rfl, rfl, running.bind (running.lift _) fun name =>
      running.bind (running.lookup name) fun old =>
      running.bind (related_eval running uniform value) fun operand => ?_⟩
    split
    · exact running.throw _
    · exact running.bind running.getHeap fun heap => running.bind (running.lift _) fun v =>
        running.bind (running.store name v) fun _ => running.pure _
  | .setIndex pos object position value, _ => by
    rw [uniform.stmt]
    simp only [Stmt.edited, exec]
    exact ⟨pos, _, _, rfl, rfl, running.bind (related_eval running uniform object) fun _ =>
      running.bind (related_eval running uniform position) fun _ =>
      running.bind (related_eval running uniform value) fun _ => running.bind running.getHeap fun _ =>
      running.bind (running.lift _) fun heap => running.bind (running.setHeap heap) fun _ => running.pure _⟩
  | .setMember pos object property value, _ => by
    rw [uniform.stmt]
    simp only [Stmt.edited, exec]
    exact ⟨pos, _, _, rfl, rfl, running.bind (related_eval running uniform object) fun target =>
      running.bind (related_eval running uniform value) fun _ => running.bind running.getHeap fun _ =>
      running.bind (running.memberName target property) fun _ => running.bind (running.lift _) fun heap =>
      running.bind (running.setHeap heap) fun _ => running.pure _⟩
  | .branch pos condition body elifs otherwise, inLoop => by
    rw [uniform.stmt]
    simp only [Stmt.edited, mapIdx_const, exec]
    refine ⟨pos, _, _, rfl, rfl, running.bind (related_test running uniform condition) fun holds => ?_⟩
    exact Facilities.rel_ite (related_block running uniform body inLoop)
      (related_elifs running uniform elifs inLoop (related_otherwise running uniform otherwise inLoop))
  | .loopTimes pos count body, _ => by
    rw [uniform.stmt]
    simp only [Stmt.edited, mapIdx_const, exec]
    exact ⟨pos, _, _, rfl, rfl, running.bind (related_countOf running uniform pos count) fun count =>
      related_runTimes running (related_block running uniform body true) count⟩
  | .loopWhile pos condition body, _ => by
    rw [uniform.stmt]
    simp only [Stmt.edited, mapIdx_const, exec]
    exact ⟨pos, _, _, rfl, rfl, related_rounds running (related_block running uniform body true) pos
      (related_test running uniform condition) (running.pure ()) List.isEmpty_map⟩
  | .loopRange pos var start stop step body, _ => by
    rw [uniform.stmt]
    simp only [Stmt.edited, mapIdx_const, exec]
    refine ⟨pos, _, _, rfl, rfl, running.bind (related_boundsOf running uniform pos start stop step)
      fun bounds => running.bind (running.lift _) fun name => running.bind (running.store name _) fun _ => ?_⟩
    exact related_rounds running (related_block running uniform body true) pos
      (running.bind (running.lookup name) fun v => related_inRange running v _ _)
      (running.discard (related_advanceRange running name _)) List.isEmpty_map
  | .loopEach pos var items body, _ => by
    rw [uniform.stmt]
    simp only [Stmt.edited, mapIdx_const, exec]
    exact ⟨pos, _, _, rfl, rfl, running.bind (related_itemsOf running uniform pos items) fun items =>
      related_runEach running (related_block running uniform body true) var items⟩
  | .leave pos, inLoop => by
    rw [uniform.stmt]
    simp only [Stmt.edited, exec]
    exact ⟨pos, _, _, rfl, rfl, Facilities.rel_ite (running.pure _) (running.refuseAt pos _ _)⟩
  | .again pos, inLoop => by
    rw [uniform.stmt]
    simp only [Stmt.edited, exec]
    exact ⟨pos, _, _, rfl, rfl, Facilities.rel_ite (running.pure _) (running.refuseAt pos _ _)⟩
  | .pass pos, _ => by
    rw [uniform.stmt]
    simp only [Stmt.edited, exec]
    exact ⟨pos, _, _, rfl, rfl, running.pure _⟩
  | .define (.mk pos name params body), _ => by
    rw [uniform.stmt]
    simp only [Stmt.edited, Func.edited, exec]
    exact ⟨pos, _, _, rfl, rfl, running.refuseAt pos _ _⟩
  | .defineClass pos name _, _ => by
    rw [uniform.stmt]
    simp only [Stmt.edited, exec]
    exact ⟨pos, _, _, rfl, rfl, running.refuseAt pos _ _⟩
  | .give pos value, _ => by
    rw [uniform.stmt]
    simp only [Stmt.edited, exec]
    exact ⟨pos, _, _, rfl, rfl, running.bind (related_evalOption running uniform value) fun v =>
      running.pure _⟩
  | .alien (.mk label pos text fields), _ => by
    rw [uniform.stmt]
    simp only [Stmt.edited, Outline.edited, exec]
    exact ⟨pos, _, _, rfl, rfl, running.refuseAt pos _ _⟩

theorem related_block (running : Running Rel place invoke) (uniform : edit.Uniform place) :
    ∀ (ss : List Stmt) (inLoop : Bool),
      Rel (execBlock invoke inLoop ss) (execBlock invoke inLoop (ss.map edit.stmt))
  | [], _ => by
    simp only [List.map_nil, execBlock]
    exact running.pure _
  | s :: ss, inLoop => by
    simp only [List.map_cons, execBlock]
    refine running.bind ((begun_exec running uniform s inLoop).related running) fun flow => ?_
    cases flow with
    | next => exact related_block running uniform ss inLoop
    | _ => exact running.pure _

theorem related_elifs (running : Running Rel place invoke) (uniform : edit.Uniform place) :
    ∀ (es : List Elif) (inLoop : Bool) {last last' : Walk Flow}, Rel last last' →
      Rel (execElifs invoke inLoop last es) (execElifs invoke inLoop last' (es.map edit.elif))
  | [], _, _, _, last => by
    simp only [List.map_nil, execElifs]
    exact last
  | e :: es, inLoop, _, _, last => by
    simp only [List.map_cons, execElifs]
    exact related_elif running uniform e inLoop (related_elifs running uniform es inLoop last)

theorem related_elif (running : Running Rel place invoke) (uniform : edit.Uniform place) :
    ∀ (e : Elif) (inLoop : Bool) {others others' : Walk Flow}, Rel others others' →
      Rel (execElif invoke inLoop others e) (execElif invoke inLoop others' (edit.elif e))
  | .mk _ condition body, inLoop, _, _, others => by
    rw [uniform.elif]
    simp only [Elif.edited, mapIdx_const, execElif]
    exact running.bind (related_test running uniform condition) fun holds =>
      Facilities.rel_ite (related_block running uniform body inLoop) others

theorem related_otherwise (running : Running Rel place invoke) (uniform : edit.Uniform place) :
    ∀ (otherwise : Option (List Stmt)) (inLoop : Bool),
      Rel (execOtherwise invoke inLoop otherwise)
        (execOtherwise invoke inLoop (otherwise.map (·.map edit.stmt)))
  | none, _ => by
    simp only [Option.map_none, execOtherwise]
    exact running.pure _
  | some body, inLoop => by
    simp only [Option.map_some, execOtherwise]
    exact related_block running uniform body inLoop

end

theorem related_exec (running : Running Rel place invoke) (uniform : edit.Uniform place) (s : Stmt)
    (inLoop : Bool) : Rel (exec invoke inLoop s) (exec invoke inLoop (edit.stmt s)) :=
  (begun_exec running uniform s inLoop).related running

end Statements

/-! The same trees at the same places. -/

namespace Running

variable (running : Running Rel id invoke)

include running

theorem same_evalOption (e : Option Expr) : Rel (evalOption invoke e) (evalOption invoke e) :=
  evalOption_facilities invoke e ▸ running.toMatching.same_evalOption e

theorem same_test (e : Expr) : Rel (test invoke e) (test invoke e) :=
  test_facilities invoke e ▸ running.toMatching.same_test e

theorem same_countOf (line : Option Int) (count : Expr) :
    Rel (countOf invoke line count) (countOf invoke line count) :=
  countOf_facilities invoke line count ▸ running.toMatching.same_countOf line count

theorem same_boundsOf (line : Option Int) (start stop : Expr) (step : Option Expr) :
    Rel (boundsOf invoke line start stop step) (boundsOf invoke line start stop step) :=
  boundsOf_facilities invoke line start stop step ▸ running.toMatching.same_boundsOf line start stop step

theorem same_itemsOf (line : Option Int) (items : Expr) :
    Rel (itemsOf invoke line items) (itemsOf invoke line items) :=
  itemsOf_facilities invoke line items ▸ running.toMatching.same_itemsOf line items

theorem same_exec (s : Stmt) (inLoop : Bool) : Rel (exec invoke inLoop s) (exec invoke inLoop s) :=
  related_exec running Edit.uniform_id s inLoop

theorem same_block (ss : List Stmt) (inLoop : Bool) :
    Rel (execBlock invoke inLoop ss) (execBlock invoke inLoop ss) := by
  have related := related_block running Edit.uniform_id ss inLoop
  rwa [List.map_id_fun] at related

end Running

end Stepwise.Walker
