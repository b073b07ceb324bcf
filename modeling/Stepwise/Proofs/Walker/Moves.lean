import Stepwise.Proofs.Evaluation.Statements
import Stepwise.Proofs.Host.Replies
import Stepwise.Walker.Step

/-!
What the computations inside a step of the walker do, said once. `Walked` lists what can happen as long
as all goes well and `Stumbles` what can happen where a computation fails; whatever a step keeps is
proved by going through them. Main statements: `walks_exec` for the statements and `walks_stepFrame`
for the whole of a step.
-/
namespace Stepwise.Walker

variable {α β : Type} {w w' w'' : Walker} {failure : Failure}

/-- What happens to a walker within a step while all goes well. -/
inductive Walked : Walker → Walker → Prop where
  | still {w : Walker} {engine : Engine} {frames : List Frame} {locals : Option (Bindings Value)}
      {line : Option Int} : w.toEngine.Still engine →
      Walked w { w with toEngine := engine, frames, locals, line }
  /-- A statement begins within the limit. -/
  | begun {w : Walker} {line : Option Int} : ¬ w.maxSteps < (w.begun + 1 : Nat) →
      Walked w { w with line, begun := w.begun + 1 }
  /-- A call leaves the program and is answered. -/
  | asked {w : Walker} {name : Name} {args : List Value} {v : Value} {engine : Engine} :
      w.toEngine.call name args = (.ok v, engine) → Walked w { w with toEngine := engine }
  | completed {w : Walker} : Walked w { w with status := .completed }
  | trans {w w' w'' : Walker} : Walked w w' → Walked w' w'' → Walked w w''

/-- Where a computation breaks off. -/
inductive Stumbles : Failure → Walker → Walker → Prop where
  | failed {failure : Failure} {w : Walker} : Stumbles failure w w
  /-- A statement begins that is one too many. -/
  | exceeded {w : Walker} {line : Option Int} : w.maxSteps < (w.begun + 1 : Nat) →
      Stumbles (.fault (w.tooManySteps line)) w { w with line, begun := w.begun + 1 }
  /-- A call leaves the program and is not answered. -/
  | refused {failure : Failure} {w : Walker} {name : Name} {args : List Value} {engine : Engine} :
      w.toEngine.call name args = (.error failure, engine) →
      Stumbles failure w { w with toEngine := engine }

/-- How a computation breaks off: all goes well up to some point, and then the variables of the
callers come back. -/
def Broken (failure : Failure) (w w' : Walker) : Prop :=
  ∃ k k' locals, Walked w k ∧ Stumbles failure k k' ∧ w' = { k' with locals }

theorem Walked.refl (w : Walker) : Walked w w := .still (.refl _)

theorem Stumbles.broken (stumbles : Stumbles failure w w') : Broken failure w w' :=
  ⟨w, w', w'.locals, .refl w, stumbles, rfl⟩

theorem Broken.after (walked : Walked w w') (broken : Broken failure w' w'') :
    Broken failure w w'' := by
  obtain ⟨k, k', locals, rest, stumbles, same⟩ := broken
  exact ⟨k, k', locals, walked.trans rest, stumbles, same⟩

theorem Broken.back {locals : Option (Bindings Value)} (broken : Broken failure w w') :
    Broken failure w { w' with locals } := by
  obtain ⟨k, k', _, walked, stumbles, rfl⟩ := broken
  exact ⟨k, k', locals, walked, stumbles, rfl⟩

theorem broken_here : Broken failure w w := Stumbles.failed.broken

/-- However a computation ends, it goes the ways that are listed. -/
def Walks (x : Walk α) : Prop :=
  ∀ w, match x w with
    | (.ok _, w') => Walked w w'
    | (.error failure, w') => Broken failure w w'

/-- A way to call functions that goes these ways whatever is called. -/
def Honest (invoke : Invoke) : Prop := ∀ f args bound, Walks (invoke f args bound)

theorem Walks.ok {x : Walk α} (walks : Walks x) {a : α} (done : x w = (.ok a, w')) :
    Walked w w' := by
  have walked := walks w
  rwa [done] at walked

theorem Walks.error {x : Walk α} (walks : Walks x) (failed : x w = (.error failure, w')) :
    Broken failure w w' := by
  have broken := walks w
  rwa [failed] at broken

theorem walks_pure (a : α) : Walks (pure a) := Walked.refl

theorem walks_throw (failure : Failure) : Walks (throw failure : Walk α) := fun _ => broken_here

theorem walks_lift (x : Except Failure α) : Walks (liftM x : Walk α) := by
  intro w
  rw [Act.lift_apply]
  cases x with
  | ok a => exact .refl w
  | error failure => exact broken_here

theorem walks_get : Walks (get : Walk Walker) := Walked.refl

theorem Walks.bind {x : Walk α} {f : α → Walk β} (first : Walks x) (rest : ∀ a, Walks (f a)) :
    Walks (x >>= f) := by
  intro w
  rw [Act.bind_apply]
  cases ran : x w with
  | mk result w' =>
    cases result with
    | error failure => exact first.error ran
    | ok a =>
      have walked := first.ok ran
      dsimp only
      cases ran' : f a w' with
      | mk result' w'' =>
        cases result' with
        | error failure => exact .after walked ((rest a).error ran')
        | ok b => exact walked.trans ((rest a).ok ran')

theorem Walks.ite {c : Prop} [Decidable c] {x y : Walk α} (yes : Walks x) (no : Walks y) :
    Walks (if c then x else y) := by
  split
  · exact yes
  · exact no

section Actions

theorem walks_getHeap : Walks getHeap := Walked.refl

theorem walks_setHeap (heap : Heap) : Walks (setHeap heap) := fun w =>
  .still (Engine.still_work w.toEngine w.globals (w.world.withHeap heap) w.report.highlightLine)

theorem walks_setLine (line : Option Int) : Walks (setLine line) := fun _ => .still (.refl _)

theorem walks_refuse (message : String) (suggestion : Option String) :
    Walks (refuse message suggestion : Walk α) := walks_throw _

theorem walks_refuseAt (line : Option Int) (message : String) (suggestion : Option String) :
    Walks (refuseAt line message suggestion : Walk α) := walks_throw _

theorem walks_lookup (name : Name) : Walks (lookup name) := by
  refine walks_get.bind fun w => ?_
  split
  · exact walks_pure _
  · exact walks_throw _

theorem walks_store (name : Name) (v : Value) : Walks (store name v) := by
  intro w
  simp only [store, Act.modify_apply]
  split
  · exact .still (Engine.still_work w.toEngine (w.globals.put name v) w.world w.report.highlightLine)
  · exact .still (.refl _)

theorem walks_call (name : Name) (args : List Value) :
    Walks (outside fun engine => engine.call name args) := by
  intro w
  unfold outside
  dsimp only
  cases called : w.toEngine.call name args with
  | mk result engine =>
    cases result with
    | ok v => exact .asked called
    | error failure => exact (Stumbles.refused called).broken

theorem walks_callBuiltin (name : Name) (args : List Value) :
    Walks (outside fun engine => engine.callBuiltin name args) := by
  intro w
  have still := Engine.still_callBuiltin w.toEngine name args
  unfold outside
  dsimp only
  cases called : w.toEngine.callBuiltin name args with
  | mk result engine =>
    rw [called] at still
    cases result with
    | ok v => exact .still still
    | error failure => exact .after (.still still) broken_here

theorem begin_apply (line : Option Int) (w : Walker) :
    begin line w = if w.maxSteps < (w.begun + 1 : Nat) then
        (.error (.fault (w.tooManySteps line)), { w with line, begun := w.begun + 1 })
      else (.ok (), { w with line, begun := w.begun + 1 }) := by
  unfold begin
  simp only [Act.bind_apply, Act.modify_apply, Act.get_apply]
  by_cases exceeds : w.maxSteps < (w.begun + 1 : Nat)
  · rw [if_pos exceeds, if_pos exceeds]
    rfl
  · rw [if_neg exceeds, if_neg exceeds]
    rfl

theorem walks_begin (line : Option Int) : Walks (begin line) := by
  intro w
  rw [begin_apply]
  split
  next result w' begins =>
    split at begins
    · cases begins
    next within =>
      cases begins
      exact .begun within
  next failure w' begins =>
    split at begins
    next exceeds =>
      cases begins
      exact (Stumbles.exceeded exceeds).broken
    · cases begins

theorem walks_withLocals {locals : Bindings Value} {x : Walk α} (walks : Walks x) :
    Walks (withLocals locals x) := by
  intro w
  have entered : Walked w { w with locals := some locals } := .still (.refl _)
  have inside := walks { w with locals := some locals }
  unfold withLocals
  generalize x { w with locals := some locals } = ended at inside
  obtain ⟨result, after⟩ := ended
  cases result with
  | ok a =>
    exact entered.trans (inside.trans (.still (.refl _)))
  | error failure => exact .back (.after entered inside)

end Actions

section Running

variable {invoke : Invoke} (honest : Honest invoke)

include honest

/-- Going these ways is kept by evaluation and by statements. -/
theorem running_walks : Running (fun x _ => Walks x) id invoke where
  pure := walks_pure
  throw := walks_throw
  lift := walks_lift
  bind := .bind
  refuseAt _ _ _ := walks_throw _
  getHeap := walks_getHeap
  setHeap := walks_setHeap
  lookup := walks_lookup
  setLine pos := walks_setLine pos.line
  getFunctions := walks_get.bind fun _ => walks_pure _
  getClasses := walks_get.bind fun _ => walks_pure _
  callOutside := walks_call
  callBuiltin := walks_callBuiltin
  invoke _ := honest
  store := walks_store
  begins pos := walks_begin pos.line
  exhausted _ _ _ _ _ _ _ := walks_get.bind fun _ => walks_throw _
  bounded _ walks := walks_get.bind fun _ => walks _

theorem walks_evalOption (e : Option Expr) : Walks (evalOption invoke e) :=
  (running_walks honest).same_evalOption e

theorem walks_test (e : Expr) : Walks (test invoke e) := (running_walks honest).same_test e

theorem walks_countOf (line : Option Int) (count : Expr) : Walks (countOf invoke line count) :=
  (running_walks honest).same_countOf line count

theorem walks_boundsOf (line : Option Int) (start stop : Expr) (step : Option Expr) :
    Walks (boundsOf invoke line start stop step) :=
  (running_walks honest).same_boundsOf line start stop step

theorem walks_itemsOf (line : Option Int) (items : Expr) : Walks (itemsOf invoke line items) :=
  (running_walks honest).same_itemsOf line items

theorem walks_inRange (v stop step : Value) : Walks (inRange v stop step) :=
  related_inRange (running_walks honest) v stop step

theorem walks_advanceRange (var : Name) (step : Value) : Walks (advanceRange var step) :=
  related_advanceRange (running_walks honest) var step

theorem walks_exec (s : Stmt) (inLoop : Bool) : Walks (exec invoke inLoop s) :=
  (running_walks honest).same_exec s inLoop

theorem walks_block (ss : List Stmt) (inLoop : Bool) : Walks (execBlock invoke inLoop ss) :=
  (running_walks honest).same_block ss inLoop

end Running

/-- Calls go these ways at every depth. -/
theorem honest_invokeAt (depth : Nat) : Honest (invokeAt depth) := by
  induction depth with
  | zero =>
    intro f args bound
    unfold invokeAt
    exact .ite (walks_refuse _ _) (walks_throw _)
  | succ depth ih =>
    intro f args bound
    unfold invokeAt
    refine .ite (walks_refuse _ _) ((walks_lift _).bind fun params => walks_withLocals ?_)
    refine (walks_block ih f.body false).bind fun flow => ?_
    cases flow <;> exact walks_pure _

theorem honest_invokeTop : Honest invokeTop := fun f args bound =>
  walks_get.bind fun _ => honest_invokeAt _ f args bound

end Stepwise.Walker
