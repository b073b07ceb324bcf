import Stepwise.Proofs.Evaluation.Facilities
import Stepwise.Proofs.Nodes

/-!
Evaluation does not depend on the engine in which it takes place. Let a relation between computations in
two engines be kept where computations are composed (`Act.Composes`), and let it hold of what the
facilities of these engines do: then it holds of the evaluation of every expression (`Matching.eval`). In
the second engine the expression may stand elsewhere in its source.

The main instance is `Act.Likewise`, computations that end likewise. Failures can be excused, so that
nothing is said about computations that end in one of them.
-/
namespace Stepwise

variable {σ τ α β : Type}

/-- A relation between computations that is kept where they are composed. A refusal at a place of the
source is related to one at the place to which `place` moves it. -/
structure Act.Composes (Rel : ∀ {α : Type}, Act σ α → Act τ α → Prop) (place : Pos → Pos) : Prop where
  pure {α : Type} (a : α) : Rel (pure a) (pure a)
  throw {α : Type} (failure : Failure) : Rel (throw failure : Act σ α) (throw failure)
  lift {α : Type} (x : Except Failure α) : Rel (liftM x : Act σ α) (liftM x)
  bind {α β : Type} {x : Act σ α} {y : Act τ α} {f : α → Act σ β} {g : α → Act τ β} : Rel x y →
    (∀ a, Rel (f a) (g a)) → Rel (x >>= f) (y >>= g)
  refuseAt {α : Type} (pos : Pos) (message : String) (suggestion : Option String) :
    Rel (Facilities.refuseAt pos.line message suggestion : Act σ α)
      (Facilities.refuseAt (place pos).line message suggestion)

/-- Facilities that are related for expressions, which bind no variables. -/
structure Facilities.Matching (Rel : ∀ {α : Type}, Act σ α → Act τ α → Prop) (place : Pos → Pos)
    (own : Facilities σ) (other : Facilities τ) : Prop extends Act.Composes Rel place where
  getHeap : Rel own.getHeap other.getHeap
  setHeap (heap : Heap) : Rel (own.setHeap heap) (other.setHeap heap)
  lookup (name : Name) : Rel (own.lookup name) (other.lookup name)
  setLine (pos : Pos) : Rel (own.setLine pos.line) (other.setLine (place pos).line)
  getFunctions : Rel own.getFunctions other.getFunctions
  getClasses : Rel own.getClasses other.getClasses
  callOutside (name : Name) (args : List Value) :
    Rel (own.callOutside name args) (other.callOutside name args)
  callBuiltin (name : Name) (args : List Value) :
    Rel (own.callBuiltin name args) (other.callBuiltin name args)
  invoke (name : Name) (f : Func) (args : List Value) (bound : Bool) :
    Rel (own.invoke name f args bound) (other.invoke name f args bound)

/-- Facilities that are related, also where variables are bound. -/
structure Facilities.Binding (Rel : ∀ {α : Type}, Act σ α → Act τ α → Prop) (place : Pos → Pos)
    (own : Facilities σ) (other : Facilities τ) : Prop extends Matching Rel place own other where
  store (name : Name) (v : Value) : Rel (own.store name v) (other.store name v)

namespace Facilities

variable {Rel : ∀ {α : Type}, Act σ α → Act τ α → Prop} {place : Pos → Pos} {own : Facilities σ}
  {other : Facilities τ}

theorem rel_ite {c : Prop} [Decidable c] {x x' : Act σ α} {y y' : Act τ α} (yes : Rel x y)
    (no : Rel x' y') : Rel (if c then x else x') (if c then y else y') := by
  split
  · exact yes
  · exact no

end Facilities

namespace Act.Composes

variable {Rel : ∀ {α : Type}, Act σ α → Act τ α → Prop} {place : Pos → Pos}
  (composes : Act.Composes Rel place)

include composes

theorem discard {x : Act σ α} {y : Act τ α} (related : Rel x y) :
    Rel (Functor.discard x) (Functor.discard y) := by
  simp only [Functor.discard, map_const, Function.comp_apply, map_eq_pure_bind]
  exact composes.bind related fun _ => composes.pure _

theorem memberName (object : Value) (property : Constant) :
    Rel (Facilities.memberName object property : Act σ Name) (Facilities.memberName object property) := by
  unfold Facilities.memberName
  split
  · exact composes.lift _
  · exact composes.lift _
  · exact composes.pure _

end Act.Composes

namespace Facilities

variable {Rel : ∀ {α : Type}, Act σ α → Act τ α → Prop} {place : Pos → Pos} {own : Facilities σ}
  {other : Facilities τ}

namespace Matching

section Calls

variable (matching : Matching Rel place own other)

include matching

theorem instantiate (className : Name) (args : List Value) :
    Rel (own.instantiate className args) (other.instantiate className args) := by
  refine matching.bind matching.getClasses fun classes => ?_
  split
  next => exact matching.throw _
  next methods _ =>
    split
    next =>
      refine rel_ite (matching.bind matching.getHeap fun heap => ?_) (matching.throw _)
      exact matching.bind (matching.setHeap _) fun _ => matching.pure _
    next method _ =>
      refine matching.bind matching.getHeap fun heap => matching.bind (matching.setHeap _) fun _ => ?_
      exact matching.bind (matching.invoke _ _ _ _) fun _ => matching.pure _

theorem call (name : Name) (args : List Value) : Rel (own.call name args) (other.call name args) := by
  refine matching.bind matching.getClasses fun classes => rel_ite (matching.instantiate name args) ?_
  refine matching.bind matching.getFunctions fun functions => ?_
  split
  · exact matching.invoke _ _ _ _
  · exact matching.callOutside name args

theorem callMethod (receiver : Value) (method : Name) (args : List Value) :
    Rel (own.callMethod receiver method args) (other.callMethod receiver method args) := by
  refine matching.bind matching.getHeap fun heap => ?_
  split
  next =>
    refine matching.bind matching.getClasses fun classes => ?_
    split
    · exact matching.throw _
    · exact matching.invoke _ _ _ _
  next => exact rel_ite (matching.callBuiltin _ _) (matching.throw _)

theorem inRange (v stop step : Value) : Rel (own.inRange v stop step) (other.inRange v stop step) :=
  matching.bind matching.getHeap fun _ =>
    rel_ite (matching.bind (matching.lift _) fun _ => matching.pure _)
      (matching.bind (matching.lift _) fun _ => matching.pure _)

end Calls

section Expressions

variable {edit : Edit}

mutual

/-- An expression and the same one elsewhere in its source. -/
theorem eval (matching : Matching Rel place own other) (uniform : edit.Uniform place) :
    ∀ e : Expr, Rel (own.eval e) (other.eval (edit.expr e))
  | .literal _ _ _ => by
    simp only [uniform.expr, Expr.edited, Facilities.eval]
    exact matching.pure _
  | .var _ name => by
    simp only [uniform.expr, Expr.edited, Facilities.eval]
    exact matching.bind (matching.lift _) matching.lookup
  | .binary _ op left right => by
    have first := matching.eval uniform left
    have second := matching.eval uniform right
    have both : Rel (do
        let a ← own.eval left
        let b ← own.eval right
        Value.binary op (← own.getHeap) a b) (do
        let a ← other.eval (edit.expr left)
        let b ← other.eval (edit.expr right)
        Value.binary op (← other.getHeap) a b) :=
      matching.bind first fun a => matching.bind second fun b => matching.bind matching.getHeap fun heap =>
        matching.lift _
    rw [uniform.expr]
    cases op with
    | and =>
      simp only [Expr.edited, Facilities.eval]
      exact matching.bind first fun v => matching.bind matching.getHeap fun heap =>
        rel_ite second (matching.pure _)
    | or =>
      simp only [Expr.edited, Facilities.eval]
      exact matching.bind first fun v => matching.bind matching.getHeap fun heap =>
        rel_ite (matching.pure _) second
    | _ =>
      simp only [Expr.edited, Facilities.eval]
      exact both
  | .unary pos op operand => by
    rw [uniform.expr]
    simp only [Expr.edited, Facilities.eval]
    refine matching.bind (matching.eval uniform operand) fun v => ?_
    split
    · exact matching.bind matching.getHeap fun heap => matching.lift _
    · exact matching.bind matching.getHeap fun heap => matching.pure _
    · exact matching.refuseAt _ _ _
  | .call _ callee args => by
    rw [uniform.expr]
    simp only [Expr.edited, mapIdx_const, Facilities.eval]
    exact matching.bind (matching.evalAll uniform args) fun args =>
      matching.bind (matching.lift _) fun name => matching.call name args
  | .new _ className args => by
    rw [uniform.expr]
    simp only [Expr.edited, mapIdx_const, Facilities.eval]
    exact matching.bind (matching.evalAll uniform args) fun args =>
      matching.bind (matching.lift _) fun name => matching.instantiate name args
  | .invoke _ object method args => by
    rw [uniform.expr]
    simp only [Expr.edited, mapIdx_const, Facilities.eval]
    exact matching.bind (matching.eval uniform object) fun receiver =>
      matching.bind (matching.evalAll uniform args) fun args => matching.bind (matching.lift _) fun name => matching.callMethod receiver name args
  | .list _ elements => by
    rw [uniform.expr]
    simp only [Expr.edited, mapIdx_const, Facilities.eval]
    exact matching.bind (matching.evalAll uniform elements) fun values =>
      matching.bind matching.getHeap fun heap => matching.bind (matching.setHeap _) fun _ => matching.pure _
  | .record _ entries => by
    rw [uniform.expr]
    simp only [Expr.edited, mapIdx_const, Facilities.eval]
    exact matching.bind (matching.evalEntries uniform entries) fun values =>
      matching.bind matching.getHeap fun heap => matching.bind (matching.setHeap _) fun _ => matching.pure _
  | .index _ object position => by
    rw [uniform.expr]
    simp only [Expr.edited, Facilities.eval]
    exact matching.bind (matching.eval uniform object) fun _ =>
      matching.bind (matching.eval uniform position) fun _ => matching.bind matching.getHeap fun heap => matching.lift _
  | .slice _ object start stop => by
    rw [uniform.expr]
    simp only [Expr.edited, Facilities.eval]
    refine matching.bind (matching.eval uniform object) fun _ =>
      matching.bind (matching.evalOption uniform start) fun _ =>
      matching.bind (matching.evalOption uniform stop) fun _ => matching.bind matching.getHeap fun heap => ?_
    exact matching.bind (matching.lift _) fun _ => matching.bind (matching.setHeap _) fun _ =>
      matching.pure _
  | .member _ object property => by
    rw [uniform.expr]
    simp only [Expr.edited, Facilities.eval]
    exact matching.bind (matching.eval uniform object) fun v => matching.bind matching.getHeap fun heap =>
      matching.bind (matching.memberName v property) fun name => matching.lift _
  | .alien (.mk label pos text fields) => by
    rw [uniform.expr]
    simp only [Expr.edited, Outline.edited, Facilities.eval]
    exact matching.refuseAt pos _ _

theorem evalAll (matching : Matching Rel place own other) (uniform : edit.Uniform place) :
    ∀ es : List Expr, Rel (own.evalAll es) (other.evalAll (es.map edit.expr))
  | [] => by
    simp only [List.map_nil, Facilities.evalAll]
    exact matching.pure _
  | e :: es => by
    simp only [List.map_cons, Facilities.evalAll]
    exact matching.bind (matching.eval uniform e) fun v =>
      matching.bind (matching.evalAll uniform es) fun values => matching.pure _

theorem evalOption (matching : Matching Rel place own other) (uniform : edit.Uniform place) :
    ∀ e : Option Expr, Rel (own.evalOption e) (other.evalOption (e.map edit.expr))
  | none => by
    simp only [Option.map_none, Facilities.evalOption]
    exact matching.pure _
  | some e => by
    simp only [Option.map_some, Facilities.evalOption]
    exact matching.eval uniform e

theorem evalEntries (matching : Matching Rel place own other) (uniform : edit.Uniform place) :
    ∀ entries : List (Constant × Expr), Rel (own.evalEntries entries)
      (other.evalEntries (entries.map fun entry => (entry.1, edit.expr entry.2)))
  | [] => by
    simp only [List.map_nil, Facilities.evalEntries]
    exact matching.pure _
  | (key, e) :: entries => by
    simp only [List.map_cons, Facilities.evalEntries]
    exact matching.bind (matching.lift _) fun key => matching.bind (matching.eval uniform e) fun v =>
      matching.bind (matching.evalEntries uniform entries) fun rest => matching.pure _

end

variable (matching : Matching Rel place own other) (uniform : edit.Uniform place)

include matching uniform

theorem test (e : Expr) : Rel (own.test e) (other.test (edit.expr e)) :=
  matching.bind (matching.eval uniform e) fun _ => matching.bind matching.getHeap fun _ => matching.pure _

theorem countOf (pos : Pos) (count : Expr) :
    Rel (own.countOf pos.line count) (other.countOf (place pos).line (edit.expr count)) :=
  matching.bind (matching.eval uniform count) fun _ => matching.bind (matching.setLine pos) fun _ =>
    matching.bind matching.getHeap fun _ => matching.lift _

theorem boundsOf (pos : Pos) (start stop : Expr) (step : Option Expr) :
    Rel (own.boundsOf pos.line start stop step)
      (other.boundsOf (place pos).line (edit.expr start) (edit.expr stop) (step.map edit.expr)) := by
  refine matching.bind (matching.eval uniform start) fun first =>
    matching.bind (matching.eval uniform stop) fun last => ?_
  have rest (v : Value) : Rel (do
      own.setLine pos.line
      Value.checkRange first last v
      return (first, last, v)) (do
      other.setLine (place pos).line
      Value.checkRange first last v
      return (first, last, v)) :=
    matching.bind (matching.setLine pos) fun _ => matching.bind (matching.lift _) fun _ => matching.pure _
  cases step with
  | none => exact rest _
  | some e => exact matching.bind (matching.eval uniform e) rest

theorem itemsOf (pos : Pos) (items : Expr) :
    Rel (own.itemsOf pos.line items) (other.itemsOf (place pos).line (edit.expr items)) := by
  refine matching.bind (matching.eval uniform items) fun v => matching.bind matching.getHeap fun heap => ?_
  split
  · exact matching.pure _
  · exact matching.pure _
  · exact matching.refuseAt _ _ _

end Expressions

/-! The same expression at the same place. -/

section Same

variable (matching : Matching Rel id own other)

include matching

theorem same_eval (e : Expr) : Rel (own.eval e) (other.eval e) := matching.eval Edit.uniform_id e

theorem same_evalOption (e : Option Expr) : Rel (own.evalOption e) (other.evalOption e) := by
  have related := matching.evalOption Edit.uniform_id e
  rwa [Option.map_id_fun] at related

theorem same_test (e : Expr) : Rel (own.test e) (other.test e) := matching.test Edit.uniform_id e

theorem same_countOf (line : Option Int) (count : Expr) :
    Rel (own.countOf line count) (other.countOf line count) :=
  matching.countOf Edit.uniform_id { line } count

theorem same_boundsOf (line : Option Int) (start stop : Expr) (step : Option Expr) :
    Rel (own.boundsOf line start stop step) (other.boundsOf line start stop step) := by
  have related := matching.boundsOf Edit.uniform_id { line } start stop step
  rwa [Option.map_id_fun] at related

theorem same_itemsOf (line : Option Int) (items : Expr) :
    Rel (own.itemsOf line items) (other.itemsOf line items) :=
  matching.itemsOf Edit.uniform_id { line } items

end Same

end Matching

theorem Binding.advanceRange (binding : Binding Rel place own other) (var : Name) (step : Value) :
    Rel (own.advanceRange var step) (other.advanceRange var step) :=
  binding.bind (binding.lookup var) fun _ => binding.bind binding.getHeap fun _ =>
    binding.bind (binding.lift _) fun _ => binding.bind (binding.store var _) fun _ => binding.pure _

end Facilities

namespace Act

variable {excused : Failure → Prop} {R : σ → τ → Prop}

/-- Two ends of a computation that match: the same result and states that are related, unless one of
them is excused. -/
inductive Matched (excused : Failure → Prop) (R : σ → τ → Prop) :
    Except Failure α × σ → Except Failure α × τ → Prop where
  | same {result : Except Failure α} {s : σ} {t : τ} : R s t →
      Matched excused R (result, s) (result, t)
  | left {failure : Failure} {s : σ} {q : Except Failure α × τ} : excused failure →
      Matched excused R (.error failure, s) q
  | right {failure : Failure} {t : τ} {p : Except Failure α × σ} : excused failure →
      Matched excused R p (.error failure, t)

/-- Computations that end likewise from states that are related. -/
def Likewise (excused : Failure → Prop) (R : σ → τ → Prop) (x : Act σ α) (y : Act τ α) : Prop :=
  ∀ s t, R s t → Matched excused R (x s) (y t)

theorem likewise_pure (a : α) : Likewise excused R (pure a) (pure a) := fun _ _ related =>
  .same related

theorem likewise_throw (failure : Failure) :
    Likewise excused R (throw failure : Act σ α) (throw failure) := fun _ _ related => .same related

theorem likewise_lift (x : Except Failure α) :
    Likewise excused R (liftM x : Act σ α) (liftM x) := fun _ _ related => .same related

theorem Likewise.bind {x : Act σ α} {y : Act τ α} {f : α → Act σ β} {g : α → Act τ β}
    (first : Likewise excused R x y) (rest : ∀ a, Likewise excused R (f a) (g a)) :
    Likewise excused R (x >>= f) (y >>= g) := by
  intro s t related
  have ends := first s t related
  rw [bind_apply, bind_apply]
  generalize x s = p at ends ⊢
  generalize y t = q at ends ⊢
  cases ends with
  | @same result s' t' related =>
    cases result with
    | error failure => exact .same related
    | ok a => exact rest a s' t' related
  | left isExcused => exact .left isExcused
  | right isExcused => exact .right isExcused

theorem Likewise.ite {c : Prop} [Decidable c] {x x' : Act σ α} {y y' : Act τ α}
    (yes : Likewise excused R x y) (no : Likewise excused R x' y') :
    Likewise excused R (if c then x else x') (if c then y else y') := by
  split
  · exact yes
  · exact no

/-- Computations that end likewise compose, each at its place. -/
theorem composes_likewise : Composes (Likewise excused R) id where
  pure := likewise_pure
  throw := likewise_throw
  lift := likewise_lift
  bind := .bind
  refuseAt _ _ _ := likewise_throw _

end Act

end Stepwise
