import Stepwise.Proofs.Agreement.Reach
import Stepwise.Proofs.Evaluation.Statements
import Stepwise.Proofs.Host.Replies
import Stepwise.Proofs.Walker.Moves

/-!
What a computation inside a step makes of a walker does not depend on how the walker is driven: on
its status, on the steps taken and the statements begun, on its frames. Main statement:
`oblivious_exec`. Computations that run out of steps are left aside.
-/
namespace Stepwise

/-- A failure that says that there were too many steps. -/
def Failure.IsExhaustion (failure : Failure) : Prop :=
  ∃ fault : Fault, failure = .fault fault ∧ fault.IsExhaustion

namespace Engine

/-- Engines that differ at most in how far they were driven. -/
structure Resembles (engine other : Engine) : Prop where
  world : engine.world = other.world
  host : engine.host = other.host
  globals : engine.globals = other.globals
  fault : engine.fault = other.fault
  maxSteps : engine.maxSteps = other.maxSteps
  maxCallDepth : engine.maxCallDepth = other.maxCallDepth

variable {engine other : Engine}

theorem Resembles.refl (engine : Engine) : engine.Resembles engine :=
  ⟨rfl, rfl, rfl, rfl, rfl, rfl⟩

theorem Resembles.symm (resembles : engine.Resembles other) : other.Resembles engine :=
  ⟨resembles.world.symm, resembles.host.symm, resembles.globals.symm, resembles.fault.symm,
    resembles.maxSteps.symm, resembles.maxCallDepth.symm⟩

theorem Resembles.trans {third : Engine} (first : engine.Resembles other)
    (rest : other.Resembles third) : engine.Resembles third :=
  ⟨first.world.trans rest.world, first.host.trans rest.host, first.globals.trans rest.globals,
    first.fault.trans rest.fault, first.maxSteps.trans rest.maxSteps,
    first.maxCallDepth.trans rest.maxCallDepth⟩

theorem resembles_pause (engine : Engine) : engine.pause.Resembles engine := by
  unfold pause
  split <;> exact ⟨rfl, rfl, rfl, rfl, rfl, rfl⟩

/-- How far an engine was driven does not matter. -/
theorem Resembles.driven (resembles : engine.Resembles other) (status : Status) (stepCount : Nat)
    (report : StepReport) : engine.Resembles { other with status, stepCount, report } :=
  ⟨resembles.world, resembles.host, resembles.globals, resembles.fault, resembles.maxSteps,
    resembles.maxCallDepth⟩

theorem Resembles.heap (resembles : engine.Resembles other) : engine.heap = other.heap :=
  congrArg World.heap resembles.world

theorem Resembles.tooManySteps (resembles : engine.Resembles other) (line : Option Int) :
    engine.tooManySteps line = other.tooManySteps line := by
  rw [Engine.tooManySteps, Engine.tooManySteps, resembles.maxSteps]

theorem Resembles.setGlobal (resembles : engine.Resembles other) (name : Name) (v : Value) :
    (engine.setGlobal name v).Resembles (other.setGlobal name v) :=
  { resembles with globals := congrArg (Bindings.put name v) resembles.globals }

theorem Resembles.grants (resembles : engine.Resembles other) (requests : List Request) :
    (requests.foldl grant engine).Resembles (requests.foldl grant other) := by
  induction requests generalizing engine other with
  | nil => exact resembles
  | cons request requests ih =>
    refine ih ?_
    cases request with
    | pause => exact (resembles_pause engine).trans (resembles.trans (resembles_pause other).symm)
    | setGlobal name v => exact resembles.setGlobal name v

theorem Resembles.callBuiltin (resembles : engine.Resembles other) (name : Name)
    (args : List Value) : (engine.callBuiltin name args).1 = (other.callBuiltin name args).1 ∧
      (engine.callBuiltin name args).2.Resembles (other.callBuiltin name args).2 := by
  unfold Engine.callBuiltin
  rw [← resembles.world]
  split
  · exact ⟨rfl, { resembles with world := rfl }⟩
  · exact ⟨rfl, resembles⟩

/-- A call that leaves the program does not see how far an engine was driven. -/
theorem Resembles.call (resembles : engine.Resembles other) (name : Name) (args : List Value) :
    (engine.call name args).1 = (other.call name args).1 ∧
      (engine.call name args).2.Resembles (other.call name args).2 := by
  unfold Engine.call
  rw [← resembles.host]
  split
  next role bound _ =>
    unfold callHandler
    rw [← resembles.heap]
    generalize bound.handler bound.earlier args engine.heap = reply
    have noted : Resembles (engine.replied role name bound args reply)
        (other.replied role name bound args reply) :=
      { resembles with
        world := congrArg (World.withHeap · reply.heap) resembles.world
        host := congrArg (Host.note · role name bound args reply.left) resembles.host }
    have granted := noted.grants reply.requests
    dsimp only
    split
    · exact ⟨rfl, granted.world, granted.host, granted.globals, granted.fault, granted.maxSteps,
        granted.maxCallDepth⟩
    · exact ⟨rfl, granted⟩
  next => exact resembles.callBuiltin name args

/-- A call that leaves the program does not end it. -/
theorem unfinished_call (engine : Engine) (unfinished : engine.status.isFinal = false) (name : Name)
    (args : List Value) : (engine.call name args).2.status.isFinal = false := by
  rw [status_call]
  split
  · rfl
  · exact unfinished

end Engine

namespace Walker

variable {α β : Type}

/-- A walker under way, with these frames, that has come as far as another walker in what the
program does; both have begun as many statements in their steps if they are counted. -/
structure Resembles (counted : Prop) (frames : List Frame) (other w : Walker) : Prop where
  engine : other.toEngine.Resembles w.toEngine
  functions : other.functions = w.functions
  classes : other.classes = w.classes
  locals : other.locals = w.locals
  frames : w.frames = frames
  unfinished : w.status.isFinal = false
  begun : counted → other.begun = w.begun

/-- Computations that run out of steps are left aside unless statements are counted. -/
def Excused (counted : Prop) (failure : Failure) : Prop := ¬ counted ∧ failure.IsExhaustion

/-- A computation that goes on in the same way however the walker is driven. -/
def Oblivious (x : Walk α) : Prop :=
  ∀ counted frames, Act.Likewise (Excused counted) (Resembles counted frames) x x

theorem oblivious_pure (a : α) : Oblivious (pure a) := fun _ _ => Act.likewise_pure a

theorem oblivious_throw (failure : Failure) : Oblivious (throw failure : Walk α) := fun _ _ =>
  Act.likewise_throw failure

theorem oblivious_lift (x : Except Failure α) : Oblivious (liftM x : Walk α) := fun _ _ =>
  Act.likewise_lift x

theorem Oblivious.bind {x : Walk α} {f : α → Walk β} (first : Oblivious x)
    (rest : ∀ a, Oblivious (f a)) : Oblivious (x >>= f) := fun counted frames =>
  (first counted frames).bind fun a => rest a counted frames

theorem Oblivious.ite {c : Prop} [Decidable c] {x y : Walk α} (yes : Oblivious x)
    (no : Oblivious y) : Oblivious (if c then x else y) := fun counted frames =>
  (yes counted frames).ite (no counted frames)

theorem isExhaustion_tooManySteps (w : Walker) (line : Option Int) :
    Failure.IsExhaustion (.fault (w.tooManySteps line)) :=
  ⟨_, rfl, Engine.isExhaustion_tooManySteps ..⟩

theorem oblivious_begin (line : Option Int) : Oblivious (begin line) := by
  intro counted frames w w' resembles
  have begins : Resembles counted frames { w with line, begun := w.begun + 1 }
      { w' with line, begun := w'.begun + 1 } :=
    { resembles with
      engine := resembles.engine
      begun := fun counts => congrArg (· + 1) (resembles.begun counts) }
  rw [begin_apply, begin_apply]
  by_cases counts : counted
  · have count := resembles.begun counts
    by_cases exceeds : w'.maxSteps < (w'.begun + 1 : Nat)
    · rw [if_pos (by rwa [count, resembles.engine.maxSteps]), if_pos exceeds,
        resembles.engine.tooManySteps]
      exact .same begins
    · rw [if_neg (by rwa [count, resembles.engine.maxSteps]), if_neg exceeds]
      exact .same begins
  · split
    · exact .left ⟨counts, isExhaustion_tooManySteps w line⟩
    · split
      · exact .right ⟨counts, isExhaustion_tooManySteps w' line⟩
      · exact .same begins

theorem oblivious_getHeap : Oblivious getHeap := by
  intro counted frames w w' resembles
  have heap : w.heap = w'.heap := resembles.engine.heap
  show Act.Matched _ _ (.ok w.heap, w) (.ok w'.heap, w')
  rw [heap]
  exact .same resembles

theorem oblivious_setHeap (heap : Heap) : Oblivious (setHeap heap) := fun _ _ _ _ resembles =>
  .same { resembles with
    engine := { resembles.engine with
      world := congrArg (World.withHeap · heap) resembles.engine.world } }

theorem oblivious_store (name : Name) (v : Value) : Oblivious (store name v) := by
  intro counted frames w w' resembles
  have locals := resembles.locals
  simp only [store, Act.modify_apply]
  rw [locals]
  split
  · exact .same { resembles with engine := resembles.engine.setGlobal name v, locals := rfl }
  · exact .same { resembles with engine := resembles.engine, locals := rfl }

theorem oblivious_lookup (name : Name) : Oblivious (lookup name) := by
  intro counted frames w w' resembles
  simp only [lookup, Act.bind_apply, Act.get_apply, resembles.locals, resembles.engine.globals]
  cases (w'.locals.bind fun locals => locals.get? name).or (w'.globals.get? name) with
  | some v => exact .same resembles
  | none => exact .same resembles

theorem oblivious_withLocals {locals : Bindings Value} {x : Walk α} (oblivious : Oblivious x) :
    Oblivious (withLocals locals x) := by
  intro counted frames w w' resembles
  have inside := oblivious counted frames { w with locals := some locals }
    { w' with locals := some locals } { resembles with engine := resembles.engine, locals := rfl }
  unfold withLocals
  generalize x { w with locals := some locals } = p at inside
  generalize x { w' with locals := some locals } = q at inside
  cases inside with
  | same related =>
    exact .same { related with engine := related.engine, locals := resembles.locals }
  | left isExcused => exact .left isExcused
  | right isExcused => exact .right isExcused

theorem oblivious_memberName (object : Value) (property : Constant) :
    Oblivious (memberName object property) := fun _ _ =>
  Act.composes_likewise.memberName object property

/-- The ways in which functions are called do not depend on how the walker is driven. -/
def Unseeing (invoke : Invoke) : Prop := ∀ f args bound, Oblivious (invoke f args bound)

section Expressions

variable {invoke : Invoke} (unseeing : Unseeing invoke)

include unseeing

theorem binding_facilities (counted : Prop) (frames : List Frame) : (facilities invoke).Binding
    (Act.Likewise (Excused counted) (Resembles counted frames)) id (facilities invoke) where
  toComposes := Act.composes_likewise
  getHeap := oblivious_getHeap counted frames
  setHeap heap := oblivious_setHeap heap counted frames
  lookup name := oblivious_lookup name counted frames
  store name v := oblivious_store name v counted frames
  setLine pos w w' resembles := .same { resembles with engine := resembles.engine }
  getFunctions w w' resembles := by
    show Act.Matched _ _ (.ok w.functions, w) (.ok w'.functions, w')
    rw [resembles.functions]
    exact .same resembles
  getClasses w w' resembles := by
    show Act.Matched _ _ (.ok w.classes, w) (.ok w'.classes, w')
    rw [resembles.classes]
    exact .same resembles
  callOutside name args w w' resembles := by
    obtain ⟨result, engine⟩ := resembles.engine.call name args
    show Act.Matched _ _ ((w.toEngine.call name args).1, _) ((w'.toEngine.call name args).1, _)
    rw [result]
    exact .same { resembles with
      engine
      unfinished := Engine.unfinished_call w'.toEngine resembles.unfinished name args }
  callBuiltin name args w w' resembles := by
    obtain ⟨result, engine⟩ := resembles.engine.callBuiltin name args
    show Act.Matched _ _ ((w.toEngine.callBuiltin name args).1, _)
      ((w'.toEngine.callBuiltin name args).1, _)
    rw [result]
    have status := (Engine.still_callBuiltin w'.toEngine name args).status
    exact .same { resembles with
      engine
      unfinished := (congrArg Status.isFinal status).trans resembles.unfinished }
  invoke _ f args bound := unseeing f args bound counted frames

/-- Statements, too, go on in the same way however the walker is driven. -/
theorem running_facilities (counted : Prop) (frames : List Frame) :
    Running (Act.Likewise (Excused counted) (Resembles counted frames)) id invoke :=
  running_likewise (binding_facilities unseeing counted frames)
    (fun line => oblivious_begin line counted frames) fun _ _ resembles => resembles.engine.maxSteps

theorem oblivious_evalOption (e : Option Expr) : Oblivious (evalOption invoke e) :=
  fun counted frames => (running_facilities unseeing counted frames).same_evalOption e

theorem oblivious_test (e : Expr) : Oblivious (test invoke e) := fun counted frames =>
  (running_facilities unseeing counted frames).same_test e

theorem oblivious_countOf (line : Option Int) (count : Expr) :
    Oblivious (countOf invoke line count) := fun counted frames =>
  (running_facilities unseeing counted frames).same_countOf line count

theorem oblivious_boundsOf (line : Option Int) (start stop : Expr) (step : Option Expr) :
    Oblivious (boundsOf invoke line start stop step) := fun counted frames =>
  (running_facilities unseeing counted frames).same_boundsOf line start stop step

theorem oblivious_itemsOf (line : Option Int) (items : Expr) :
    Oblivious (itemsOf invoke line items) := fun counted frames =>
  (running_facilities unseeing counted frames).same_itemsOf line items

theorem oblivious_inRange (v stop step : Value) : Oblivious (inRange v stop step) :=
  fun counted frames => related_inRange (running_facilities unseeing counted frames) v stop step

theorem oblivious_advanceRange (var : Name) (step : Value) : Oblivious (advanceRange var step) :=
  fun counted frames => related_advanceRange (running_facilities unseeing counted frames) var step

theorem oblivious_exec (s : Stmt) (inLoop : Bool) : Oblivious (exec invoke inLoop s) :=
  fun counted frames => (running_facilities unseeing counted frames).same_exec s inLoop

theorem oblivious_block (ss : List Stmt) (inLoop : Bool) :
    Oblivious (execBlock invoke inLoop ss) := fun counted frames =>
  (running_facilities unseeing counted frames).same_block ss inLoop

end Expressions

theorem unseeing_invokeAt (depth : Nat) : Unseeing (invokeAt depth) := by
  induction depth with
  | zero =>
    intro f args bound
    unfold invokeAt
    exact .ite (oblivious_throw _) (oblivious_throw _)
  | succ depth ih =>
    intro f args bound
    unfold invokeAt
    refine .ite (oblivious_throw _) ((oblivious_lift _).bind fun params => oblivious_withLocals ?_)
    refine (oblivious_block ih f.body false).bind fun flow => ?_
    cases flow <;> exact oblivious_pure _

theorem unseeing_invokeTop : Unseeing invokeTop := by
  intro f args bound counted frames w w' resembles
  have same := unseeing_invokeAt w'.maxCallDepth.toNat f args bound counted frames w w' resembles
  simp only [invokeTop, Act.bind_apply, Act.get_apply, resembles.engine.maxCallDepth]
  exact same

end Walker

end Stepwise
