import Stepwise.Proofs.Activation.Records
import Stepwise.Proofs.Evaluation.Likewise
import Stepwise.Proofs.Host.Replies
import Stepwise.Proofs.Stepped.Flows
import Stepwise.Proofs.Walker.Moves

/-!
Within a step the interpreter does what the walker does. What a statement leaves word of on its
activation is the flow with which the walker ends it: `performs_exec`, and a call leaves the
activations of its caller as they were: `likewise_callTop`.
-/
namespace Stepwise

theorem Engine.maxCallDepth_of_grants (engine : Engine) (requests : List Request) :
    (requests.foldl grant engine).maxCallDepth = engine.maxCallDepth := by
  induction requests generalizing engine with
  | nil => rfl
  | cons request requests ih =>
    rw [List.foldl_cons, ih]
    cases request with
    | setGlobal => rfl
    | pause =>
      show engine.pause.maxCallDepth = engine.maxCallDepth
      unfold pause
      split <;> rfl

/-- A call that leaves the program does not change how many calls are allowed. -/
theorem Engine.maxCallDepth_call (engine : Engine) (name : Name) (args : List Value) :
    (engine.call name args).2.maxCallDepth = engine.maxCallDepth := by
  unfold call
  split
  next role bound _ =>
    unfold callHandler
    generalize bound.handler bound.earlier args engine.heap = reply
    dsimp only
    split <;> exact maxCallDepth_of_grants _ _
  next => exact (still_callBuiltin engine name args).maxCallDepth

/-- An activation in which a statement left word of how it ended. -/
def Activation.told (a : Activation) : Flow → Activation
  | .next => a
  | .leave => { a with shouldBreak := true }
  | .again => { a with shouldContinue := true }
  | .give v => { a with returnValue := v, hasReturned := true }

/-- An activation in which no statement left word. -/
structure Activation.Quiet (a : Activation) : Prop where
  counts : 0 ≤ a.syncLoopDepth
  goesOn : a.shouldBreak = false
  passesOn : a.shouldContinue = false
  stays : a.hasReturned = false

theorem Activation.Quiet.deeper {a : Activation} (quiet : a.Quiet) : (a.deeper 1).Quiet :=
  { quiet with counts := Int.add_nonneg quiet.counts (by decide) }

theorem Activation.Quiet.inLoop_deeper {a : Activation} (quiet : a.Quiet) :
    (a.deeper 1).inLoop = true := by
  have counted : 0 < a.syncLoopDepth + 1 := Int.lt_add_one_of_le quiet.counts
  simp only [Activation.inLoop, Activation.deeper, counted, decide_true, Bool.or_true]

theorem Activation.Quiet.passing {a : Activation} (quiet : a.Quiet) :
    { a with shouldContinue := false } = a := by
  rw [← quiet.passesOn]

theorem Activation.Quiet.going {a : Activation} (quiet : a.Quiet) :
    { a with shouldBreak := false } = a := by
  rw [← quiet.goesOn]

/-- An activation with the variables of the call under way, if there is one. -/
def Activation.bearing (a : Activation) (locals : Option (Bindings Value)) : Activation :=
  { a with locals := locals.getD [] }

theorem Activation.interrupted_leave (a : Activation) (locals : Option (Bindings Value)) :
    ((a.told .leave).bearing locals).interrupted = true := by
  simp only [interrupted, bearing, told, Bool.or_true, Bool.true_or]

theorem Activation.interrupted_again (a : Activation) (locals : Option (Bindings Value)) :
    ((a.told .again).bearing locals).interrupted = true := by
  simp only [interrupted, bearing, told, Bool.or_true]

theorem Activation.interrupted_give (a : Activation) (v : Value)
    (locals : Option (Bindings Value)) : ((a.told (.give v)).bearing locals).interrupted = true := rfl

/-- Whether a loop goes on behind a round, and the activation it then is in. -/
def Activation.answered (a : Activation) : Flow → Bool × Activation
  | .next | .again => (true, a)
  | .leave => (false, a)
  | .give v => (false, a.told (.give v))

namespace Interpreter

/-- What does not change while statements are run within an activation. -/
structure Scene where
  frames : List Frame
  /-- The activations around this one. -/
  outer : List Activation
  limit : Int
  depth : Int

/-- A walker and an interpreter that have come equally far within an activation. -/
structure Within (scene : Scene) (a : Activation) (w : Walker) (i : Interpreter) : Prop where
  engine : w.toEngine = i.toEngine
  program : w.program = i.program
  functions : w.functions = i.functions
  classes : w.classes = i.classes
  line : w.line = i.line
  begun : w.begun = i.begun
  frames : w.frames = scene.frames
  stack : i.callStack = a.bearing w.locals :: scene.outer
  called : w.locals.isSome = a.functionName.isSome
  limit : i.maxCallDepth = scene.limit
  depth : i.callDepth = scene.depth

/-- Computations of a walker and of an interpreter that do the same within an activation. -/
abbrev Alike {α : Type} (scene : Scene) (a : Activation) (x : Walker.Walk α) (y : Run α) : Prop :=
  Act.Likewise (fun _ => False) (Within scene a) x y

variable {α β : Type} {scene : Scene} {a : Activation} {w : Walker} {i : Interpreter}

section Facilities

theorem alike_getHeap : Alike scene a Walker.getHeap getHeap := by
  intro w i within
  have heap : w.heap = i.heap := congrArg Engine.heap within.engine
  show Act.Matched _ _ (.ok w.heap, w) (.ok i.heap, i)
  rw [heap]
  exact .same within

theorem alike_setHeap (heap : Heap) : Alike scene a (Walker.setHeap heap) (setHeap heap) := by
  intro w i within
  have engine : ({ w.toEngine with world := w.world.withHeap heap } : Engine) =
      { i.toEngine with world := i.world.withHeap heap } := by rw [within.engine]
  exact .same { within with engine }

theorem alike_setLine (line : Option Int) : Alike scene a (Walker.setLine line) (setLine line) :=
  fun _ _ within => .same { within with engine := within.engine, line := rfl }

theorem alike_lookup (name : Name) : Alike scene a (Walker.lookup name) (lookup name) := by
  intro w i within
  have bound : (w.locals.bind fun locals => locals.get? name) =
      i.callStack.head?.bind fun a => a.locals.get? name := by
    rw [within.stack]
    cases w.locals <;> rfl
  have globals : w.globals = i.globals := congrArg Engine.globals within.engine
  simp only [Walker.lookup, lookup, Act.bind_apply, Act.get_apply, bound, globals]
  cases (i.callStack.head?.bind fun a => a.locals.get? name).or (i.globals.get? name) with
  | some v => exact .same within
  | none => exact .same within

theorem alike_store (name : Name) (v : Value) :
    Alike scene a (Walker.store name v) (store name v) := by
  intro w i within
  obtain ⟨engine, program, frames, functions, classes, locals, line, begun⟩ := w
  have called := within.called
  have stored : engine.setGlobal name v = i.toEngine.setGlobal name v :=
    congrArg (Engine.setGlobal · name v) within.engine
  simp only [Walker.store, store, Act.modify_apply, within.stack]
  cases locals with
  | none =>
    have outside : ((a.bearing none).functionName.isSome || (a.bearing none).locals.has name) =
        false := by
      show (a.functionName.isSome || false) = false
      rw [← called]
      rfl
    rw [if_neg (by simp [outside])]
    exact .same { within with engine := stored, stack := rfl, limit := within.limit }
  | some locals =>
    have inside : ((a.bearing (some locals)).functionName.isSome ||
        (a.bearing (some locals)).locals.has name) = true := by
      show (a.functionName.isSome || _) = true
      rw [← called]
      rfl
    rw [if_pos inside]
    exact .same { within with engine := within.engine, stack := rfl, called := called }

/-- Calls of the walker and of the interpreter that do the same within any activation. -/
def Calls (scene : Scene) (invoke : Walker.Invoke) (call : Call) : Prop :=
  ∀ a name f args bound, Alike scene a (invoke f args bound) (call name f args bound)

variable {invoke : Walker.Invoke} {call : Call}

theorem alike_facilities (calls : Calls scene invoke call) (a : Activation) :
    (Walker.facilities invoke).Binding (Act.Likewise (fun _ => False) (Within scene a)) id
      (facilities call) where
  toComposes := Act.composes_likewise
  getHeap := alike_getHeap
  setHeap := alike_setHeap
  lookup := alike_lookup
  store := alike_store
  setLine pos := alike_setLine pos.line
  getFunctions w i within := by
    show Act.Matched _ _ (.ok w.functions, w) (.ok i.functions, i)
    rw [within.functions]
    exact .same within
  getClasses w i within := by
    show Act.Matched _ _ (.ok w.classes, w) (.ok i.classes, i)
    rw [within.classes]
    exact .same within
  callOutside name args w i within := by
    show Act.Matched _ _ ((w.toEngine.call name args).1, _) ((i.toEngine.call name args).1, _)
    rw [within.engine]
    have limit := (Engine.maxCallDepth_call i.toEngine name args).trans within.limit
    exact .same { within with engine := rfl, limit }
  callBuiltin name args w i within := by
    show Act.Matched _ _ ((w.toEngine.callBuiltin name args).1, _)
      ((i.toEngine.callBuiltin name args).1, _)
    rw [within.engine]
    have limit := (Engine.still_callBuiltin i.toEngine name args).maxCallDepth.trans within.limit
    exact .same { within with engine := rfl, limit }
  invoke name f args bound := calls a name f args bound

theorem alike_begin (line : Option Int) : Alike scene a (Walker.begin line) (begin line) := by
  intro w i within
  have begins : Within scene a { w with toEngine := i.toEngine, line, begun := i.begun + 1 }
      { i with line, begun := i.begun + 1 } :=
    { within with engine := rfl, line := rfl, begun := rfl }
  have own : begin line i = if i.maxSteps < (i.begun + 1 : Nat) then
      (.error (.fault (i.tooManySteps line)), { i with line, begun := i.begun + 1 })
    else (.ok ⟨⟩, { i with line, begun := i.begun + 1 }) := by
    simp only [begin, Act.bind_apply, Act.modify_apply, Act.get_apply]
    split <;> rfl
  rw [Walker.begin_apply, own, within.engine, within.begun]
  split
  · exact .same begins
  · exact .same begins

end Facilities

section Tops

variable (within : Within scene a w i)

include within

theorem Within.getTop : getTop i = (.ok (a.bearing w.locals), i) := by
  show (Except.ok (i.callStack.headD default), i) = _
  rw [within.stack]
  rfl

/-- A change of the activation that leaves its variables and its function alone. -/
theorem Within.modifyTop {f : Activation → Activation} {b : Activation}
    (same : f (a.bearing w.locals) = b.bearing w.locals) (named : b.functionName = a.functionName) :
    ∃ i', modifyTop f i = (.ok (), i') ∧ Within scene b w i' := by
  refine ⟨{ i with callStack := b.bearing w.locals :: scene.outer }, ?_, ?_⟩
  · simp only [Interpreter.modifyTop, Act.modify_apply, within.stack, same]
  · exact { within with engine := within.engine, stack := rfl, called := named ▸ within.called }

end Tops

section Follows

/-- How a computation of the walker and one of the interpreter end: the interpreter answers with the
signal of the walker's flow, or both fail. -/
inductive Met (scene : Scene) (a : Activation) (signal : Flow → β × Activation) :
    Except Failure Flow × Walker → Except Failure β × Interpreter → Prop where
  | ends (flow : Flow) {w : Walker} {i : Interpreter} : Within scene (signal flow).2 w i →
      Met scene a signal (.ok flow, w) (.ok (signal flow).1, i)
  | fails {failure : Failure} {w : Walker} {i : Interpreter} : Within scene a w i →
      Met scene a signal (.error failure, w) (.error failure, i)

def Follows (scene : Scene) (a : Activation) (signal : Flow → β × Activation)
    (x : Walker.Walk Flow) (y : Run β) : Prop :=
  ∀ w i, Within scene a w i → Met scene a signal (x w) (y i)

/-- A statement of the interpreter leaves word of the flow with which the walker ends it. -/
abbrev Performs (scene : Scene) (a : Activation) (x : Walker.Walk Flow) (y : Run Unit) : Prop :=
  Follows scene a (fun flow => ((), a.told flow)) x y

/-- A round of the interpreter answers what the flow means for the loop. -/
abbrev Rounds (scene : Scene) (a : Activation) (x : Walker.Walk Flow) (y : Run Bool) : Prop :=
  Follows scene a a.answered x y

variable {γ : Type} {signal : Flow → β × Activation}

theorem Follows.after {x : Walker.Walk α} {y : Run α} {f : α → Walker.Walk Flow} {g : α → Run β}
    (first : Alike scene a x y) (rest : ∀ v, Follows scene a signal (f v) (g v)) :
    Follows scene a signal (x >>= f) (y >>= g) := by
  intro w i within
  have ends := first w i within
  rw [Act.bind_apply, Act.bind_apply]
  generalize x w = p at ends ⊢
  generalize y i = q at ends ⊢
  cases ends with
  | @same result w' i' within =>
    cases result with
    | ok v => exact rest v w' i' within
    | error failure => exact .fails within
  | left excused | right excused => exact excused.elim

/-- Goes on behind a computation that met the walker's. -/
theorem Follows.bind {signal' : Flow → γ × Activation} {x : Walker.Walk Flow} {y : Run β}
    {f : Flow → Walker.Walk Flow} {g : β → Run γ} (first : Follows scene a signal x y)
    (rest : ∀ flow w i, Within scene (signal flow).2 w i →
      Met scene a signal' (f flow w) (g (signal flow).1 i)) :
    Follows scene a signal' (x >>= f) (y >>= g) := by
  intro w i within
  have ends := first w i within
  rw [Act.bind_apply, Act.bind_apply]
  generalize x w = p at ends ⊢
  generalize y i = q at ends ⊢
  cases ends with
  | ends _ within => exact rest _ _ _ within
  | fails within => exact .fails within

theorem Follows.ite {c : Prop} [Decidable c] {x x' : Walker.Walk Flow} {y y' : Run β}
    (yes : Follows scene a signal x y) (no : Follows scene a signal x' y') :
    Follows scene a signal (if c then x else x') (if c then y else y') := by
  split
  · exact yes
  · exact no

theorem follows_throw (failure : Failure) :
    Follows scene a signal (throw failure) (throw failure) := fun _ _ within => .fails within

theorem performs_next : Performs scene a (pure .next) (pure ()) := fun _ _ within =>
  .ends .next within

/-- What only evaluates or stores goes on. -/
theorem performs_straight {x : Walker.Walk Unit} {y : Run Unit} (alike : Alike scene a x y) :
    Performs scene a (do x; return .next) y := by
  have straight : Performs scene a (do x; return .next) (y >>= pure) :=
    .after alike fun _ => performs_next
  rwa [bind_pure] at straight

end Follows

section Loops

/-- A loop that runs within the step is counted as long as it runs. -/
theorem performs_inSyncLoop {x : Walker.Walk Flow} {y : Run Unit}
    (inside : Performs scene (a.deeper 1) x y) : Performs scene a x (inSyncLoop y) := by
  intro w i within
  obtain ⟨i', entered, within⟩ := within.modifyTop (f := Activation.deeper 1) (b := a.deeper 1) rfl rfl
  have ends := inside w i' within
  have left (a : Activation) : (a.deeper 1).deeper (-1) = a := by
    simp only [Activation.deeper, Int.add_neg_cancel_right]
  unfold inSyncLoop
  rw [entered]
  dsimp only
  generalize x w = p at ends ⊢
  generalize y i' = q at ends ⊢
  cases ends with
  | @ends flow w' i' within =>
    have same : ((a.deeper 1).told flow).bearing w'.locals = ((a.told flow).bearing w'.locals).deeper 1 := by
      cases flow <;> rfl
    have named : (a.told flow).functionName = ((a.deeper 1).told flow).functionName := by
      cases flow <;> rfl
    obtain ⟨i'', done, within⟩ := within.modifyTop (f := Activation.deeper (-1)) (b := a.told flow)
      (by rw [same, left]) named
    dsimp only
    rw [done]
    exact .ends flow within
  | @fails failure w' i' within =>
    obtain ⟨i'', done, within⟩ := within.modifyTop (f := Activation.deeper (-1)) (b := a)
      (left (a.bearing w'.locals)) rfl
    dsimp only
    rw [done]
    exact .fails within

/-- The body of a loop is run for one round. -/
theorem rounds_round (quiet : a.Quiet) {x : Walker.Walk Flow} {y : Run Unit}
    (inside : Performs scene a x y) : Rounds scene a x (round y) := by
  have goes : Rounds scene a (x >>= pure) (round y) := by
    refine inside.bind fun flow w i within => ?_
    simp only [Act.bind_ok within.getTop]
    cases flow with
    | next =>
      obtain ⟨i', done, within⟩ := within.modifyTop (f := fun a => { a with shouldContinue := false })
        (b := a) (congrArg (Activation.bearing · w.locals) quiet.passing) rfl
      simp only [Activation.bearing, Activation.told, quiet.stays, quiet.goesOn,
        Bool.false_eq_true, if_false, Act.bind_ok done]
      exact .ends .next within
    | again =>
      obtain ⟨i', done, within⟩ := within.modifyTop (f := fun a => { a with shouldContinue := false })
        (b := a) (congrArg (Activation.bearing · w.locals) quiet.passing) rfl
      simp only [Activation.bearing, Activation.told, quiet.stays, quiet.goesOn,
        Bool.false_eq_true, if_false, Act.bind_ok done]
      exact .ends .again within
    | leave =>
      obtain ⟨i', done, within⟩ := within.modifyTop (f := fun a => { a with shouldBreak := false })
        (b := a) (congrArg (Activation.bearing · w.locals) quiet.going) rfl
      simp only [Activation.bearing, Activation.told, quiet.stays, Bool.false_eq_true, if_false,
        if_true, Act.bind_ok done]
      exact .ends .leave within
    | give v =>
      simp only [Activation.bearing, Activation.told]
      exact .ends (.give v) within
  rwa [bind_pure] at goes

section Rounds

variable {x : Walker.Walk Flow} {y : Run Bool} (rounds : Rounds scene a x y)

include rounds

theorem performs_repeatRounds (count : Nat) :
    Performs scene a (Walker.runTimes x count) (repeatRounds y count) := by
  induction count with
  | zero => exact performs_next
  | succ count ih =>
    refine rounds.bind fun flow w i within => ?_
    cases flow with
    | next | again => exact ih w i within
    | leave => exact .ends .next within
    | give v => exact .ends (.give v) within

theorem performs_repeatWhile (line : Option Int) {test : Walker.Walk Bool} {test' : Run Bool}
    {advance : Walker.Walk Unit} {advance' : Run Unit} (tests : Alike scene a test test')
    (advances : Alike scene a advance advance') (limit : Nat) :
    Performs scene a (Walker.runWhile line test x advance limit)
      (repeatWhile line test' y advance' limit) := by
  induction limit with
  | zero =>
    intro w i within
    have fault : w.tooManySteps line = i.tooManySteps line := by rw [within.engine]
    simp only [Walker.runWhile, repeatWhile, Act.bind_apply, Act.get_apply, fault]
    exact .fails within
  | succ limit ih =>
    refine .after tests fun holds => .ite (rounds.bind fun flow w i within => ?_) performs_next
    cases flow with
    | next | again => exact Follows.after advances (fun _ => ih) w i within
    | leave => exact .ends .next within
    | give v => exact .ends (.give v) within

theorem performs_repeatEach (call : Call) (var : Constant) (items : List Value) :
    Performs scene a (Walker.runEach var x items) (repeatEach call var y items) := by
  induction items with
  | nil => exact performs_next
  | cons item rest ih =>
    refine .after (Act.likewise_lift _) fun name => .after (alike_store name item) fun _ =>
      rounds.bind fun flow w i within => ?_
    cases flow with
    | next | again => exact ih w i within
    | leave => exact .ends .next within
    | give v => exact .ends (.give v) within

end Rounds

/-- The bound on the rounds of a loop is the same. -/
theorem performs_limited {statements : List Stmt} {x : Nat → Walker.Walk Flow} {y : Nat → Run Unit}
    (performs : ∀ limit, Performs scene a (x limit) (y limit)) :
    Performs scene a (do x ((← get).roundLimit statements))
      (do y ((← get).roundLimit statements)) := by
  intro w i within
  have limit : w.roundLimit statements = i.roundLimit statements := by
    rw [Walker.roundLimit, roundLimit, within.engine]
  simp only [Act.bind_apply, Act.get_apply, limit]
  exact performs _ w i within

end Loops

section Statements

variable {invoke : Walker.Invoke} {call : Call} (calls : Calls scene invoke call)

include calls

theorem alike_eval (e : Expr) : Alike scene a (Walker.eval invoke e) ((facilities call).eval e) :=
  Walker.eval_facilities invoke e ▸ (alike_facilities calls a).same_eval e

theorem alike_evalOption (e : Option Expr) :
    Alike scene a (Walker.evalOption invoke e) ((facilities call).evalOption e) :=
  Walker.evalOption_facilities invoke e ▸
    (alike_facilities calls a).same_evalOption e

theorem alike_test (e : Expr) : Alike scene a (Walker.test invoke e) ((facilities call).test e) :=
  Walker.test_facilities invoke e ▸ (alike_facilities calls a).same_test e

theorem alike_countOf (line : Option Int) (count : Expr) :
    Alike scene a (Walker.countOf invoke line count) ((facilities call).countOf line count) :=
  Walker.countOf_facilities invoke line count ▸
    (alike_facilities calls a).same_countOf line count

theorem alike_boundsOf (line : Option Int) (start stop : Expr) (step : Option Expr) :
    Alike scene a (Walker.boundsOf invoke line start stop step)
      ((facilities call).boundsOf line start stop step) :=
  Walker.boundsOf_facilities invoke line start stop step ▸
    (alike_facilities calls a).same_boundsOf line start stop step

theorem alike_itemsOf (line : Option Int) (items : Expr) :
    Alike scene a (Walker.itemsOf invoke line items) ((facilities call).itemsOf line items) :=
  Walker.itemsOf_facilities invoke line items ▸
    (alike_facilities calls a).same_itemsOf line items

theorem alike_inRange (v stop step : Value) :
    Alike scene a (Walker.inRange v stop step) ((facilities call).inRange v stop step) :=
  (alike_facilities calls a).inRange v stop step

theorem alike_advanceRange (var : Name) (step : Value) :
    Alike scene a (Walker.advanceRange var step) ((facilities call).advanceRange var step) :=
  (alike_facilities calls a).advanceRange var step

omit calls

mutual

/-- A statement that is run to its end. -/
theorem performs_exec (calls : Calls scene invoke call) : ∀ (s : Stmt) (a : Activation), a.Quiet →
    Performs scene a (Walker.exec invoke a.inLoop s) (perform call s)
  | .expr pos value, _, _ => by
    simp only [Walker.exec, perform]
    exact .after (alike_begin _) fun _ => .after (alike_eval calls value) fun _ => performs_next
  | .assign pos target value, _, _ => by
    simp only [Walker.exec, perform]
    exact .after (alike_begin _) fun _ => .after (alike_eval calls value) fun v =>
      .after (Act.likewise_lift _) fun name => performs_straight (alike_store name v)
  | .update pos target op value, _, _ => by
    simp only [Walker.exec, perform]
    refine .after (alike_begin _) fun _ => .after (Act.likewise_lift _) fun name =>
      .after (alike_lookup name) fun old => .after (alike_eval calls value) fun operand => ?_
    cases op.base? with
    | none => exact follows_throw _
    | some op =>
      exact .after alike_getHeap fun heap => .after (Act.likewise_lift _) fun v =>
        performs_straight (alike_store name v)
  | .setIndex pos object position value, _, _ => by
    simp only [Walker.exec, perform]
    exact .after (alike_begin _) fun _ => .after (alike_eval calls object) fun _ =>
      .after (alike_eval calls position) fun _ => .after (alike_eval calls value) fun _ =>
      .after alike_getHeap fun _ => .after (Act.likewise_lift _) fun heap =>
      performs_straight (alike_setHeap heap)
  | .setMember pos object property value, _, _ => by
    simp only [Walker.exec, perform]
    exact .after (alike_begin _) fun _ => .after (alike_eval calls object) fun target =>
      .after (alike_eval calls value) fun _ => .after alike_getHeap fun _ =>
      .after (Act.composes_likewise.memberName target property) fun _ =>
      .after (Act.likewise_lift _) fun heap => performs_straight (alike_setHeap heap)
  | .branch pos condition body elifs otherwise, a, quiet => by
    simp only [Walker.exec, perform]
    exact .after (alike_begin _) fun _ => .after (alike_test calls condition) fun holds =>
      .ite (performs_block calls body a quiet)
        (performs_elifs calls elifs a quiet (performs_otherwise calls otherwise a quiet))
  | .loopTimes pos count body, a, quiet => by
    simp only [Walker.exec, perform]
    exact .after (alike_begin _) fun _ => .after (alike_countOf calls pos.line count) fun count =>
      performs_inSyncLoop (performs_repeatRounds
        (rounds_round quiet.deeper (performs_body calls body quiet)) count)
  | .loopWhile pos condition body, a, quiet => by
    simp only [Walker.exec, perform]
    exact .after (alike_begin _) fun _ => performs_limited fun limit => performs_inSyncLoop
      (performs_repeatWhile (rounds_round quiet.deeper (performs_body calls body quiet)) pos.line
        (alike_test calls condition) (Act.likewise_pure ()) limit)
  | .loopRange pos var start stop step body, a, quiet => by
    simp only [Walker.exec, perform]
    exact .after (alike_begin _) fun _ =>
      .after (alike_boundsOf calls pos.line start stop step) fun bounds =>
      .after (Act.likewise_lift _) fun name => .after (alike_store name _) fun _ =>
      performs_limited fun limit => performs_inSyncLoop
        (performs_repeatWhile (rounds_round quiet.deeper (performs_body calls body quiet)) pos.line
          (Act.Likewise.bind (alike_lookup name) fun v => alike_inRange calls v _ _)
          (Act.composes_likewise.discard (alike_advanceRange calls name _)) limit)
  | .loopEach pos var items body, a, quiet => by
    simp only [Walker.exec, perform]
    exact .after (alike_begin _) fun _ => .after (alike_itemsOf calls pos.line items) fun items =>
      performs_inSyncLoop (performs_repeatEach
        (rounds_round quiet.deeper (performs_body calls body quiet)) call var items)
  | .leave pos, a, _ => by
    simp only [Walker.exec, perform]
    refine .after (alike_begin _) fun _ w i within => ?_
    have inLoop : (a.bearing w.locals).inLoop = a.inLoop := rfl
    rw [Act.bind_ok within.getTop, inLoop]
    split
    · obtain ⟨i', done, within⟩ := within.modifyTop (f := fun a => { a with shouldBreak := true })
        (b := a.told .leave) rfl rfl
      rw [done]
      exact .ends .leave within
    · exact .fails within
  | .again pos, a, _ => by
    simp only [Walker.exec, perform]
    refine .after (alike_begin _) fun _ w i within => ?_
    have inLoop : (a.bearing w.locals).inLoop = a.inLoop := rfl
    rw [Act.bind_ok within.getTop, inLoop]
    split
    · obtain ⟨i', done, within⟩ := within.modifyTop (f := fun a => { a with shouldContinue := true })
        (b := a.told .again) rfl rfl
      rw [done]
      exact .ends .again within
    · exact .fails within
  | .pass pos, _, _ => by
    simp only [Walker.exec, perform]
    exact performs_straight (alike_begin _)
  | .define f, _, _ => by
    simp only [Walker.exec, perform]
    exact .after (alike_begin _) fun _ => follows_throw _
  | .defineClass pos name _, _, _ => by
    simp only [Walker.exec, perform]
    exact .after (alike_begin _) fun _ => follows_throw _
  | .give pos value, a, _ => by
    simp only [Walker.exec, perform]
    refine .after (alike_begin _) fun _ => .after (alike_evalOption calls value) fun v w i within => ?_
    obtain ⟨i', done, within⟩ := within.modifyTop
      (f := fun a => { a with returnValue := v, hasReturned := true }) (b := a.told (.give v)) rfl rfl
    rw [done]
    exact .ends (.give v) within
  | .alien node, _, _ => by
    simp only [Walker.exec, perform]
    exact .after (alike_begin _) fun _ => follows_throw _

/-- The body of a loop within the step. -/
theorem performs_body (calls : Calls scene invoke call) (body : List Stmt) {a : Activation}
    (quiet : a.Quiet) :
    Performs scene (a.deeper 1) (Walker.execBlock invoke true body) (performBlock call body) := by
  have performs := performs_block calls body (a.deeper 1) quiet.deeper
  rwa [quiet.inLoop_deeper] at performs

theorem performs_block (calls : Calls scene invoke call) : ∀ (ss : List Stmt) (a : Activation),
    a.Quiet → Performs scene a (Walker.execBlock invoke a.inLoop ss) (performBlock call ss)
  | [], _, _ => by
    simp only [Walker.execBlock, performBlock]
    exact performs_next
  | s :: ss, a, quiet => by
    simp only [Walker.execBlock, performBlock]
    refine (performs_exec calls s a quiet).bind fun flow w i within => ?_
    rw [Act.bind_ok within.getTop]
    cases flow with
    | next =>
      have goesOn : ((a.told .next).bearing w.locals).interrupted = false := by
        show (a.hasReturned || a.shouldBreak || a.shouldContinue) = false
        rw [quiet.stays, quiet.goesOn, quiet.passesOn]
        rfl
      rw [goesOn, if_neg Bool.false_ne_true]
      exact performs_block calls ss a quiet w i within
    | leave =>
      rw [if_pos (a.interrupted_leave w.locals)]
      exact .ends .leave within
    | again =>
      rw [if_pos (a.interrupted_again w.locals)]
      exact .ends .again within
    | give v =>
      rw [if_pos (a.interrupted_give v w.locals)]
      exact .ends (.give v) within

theorem performs_elifs (calls : Calls scene invoke call) : ∀ (es : List Elif) (a : Activation),
    a.Quiet → ∀ {last : Walker.Walk Flow} {last' : Run Unit}, Performs scene a last last' →
    Performs scene a (Walker.execElifs invoke a.inLoop last es) (performElifs call last' es)
  | [], _, _, _, _, last => by
    simp only [Walker.execElifs, performElifs]
    exact last
  | e :: es, a, quiet, _, _, last => by
    simp only [Walker.execElifs, performElifs]
    exact performs_elif calls e a quiet (performs_elifs calls es a quiet last)

theorem performs_elif (calls : Calls scene invoke call) : ∀ (e : Elif) (a : Activation), a.Quiet →
    ∀ {others : Walker.Walk Flow} {others' : Run Unit}, Performs scene a others others' →
    Performs scene a (Walker.execElif invoke a.inLoop others e) (performElif call others' e)
  | .mk _ condition body, a, quiet, _, _, others => by
    simp only [Walker.execElif, performElif]
    exact .after (alike_test calls condition) fun holds =>
      .ite (performs_block calls body a quiet) others

theorem performs_otherwise (calls : Calls scene invoke call) :
    ∀ (otherwise : Option (List Stmt)) (a : Activation), a.Quiet →
    Performs scene a (Walker.execOtherwise invoke a.inLoop otherwise)
      (performOtherwise call otherwise)
  | none, _, _ => by
    simp only [Walker.execOtherwise, performOtherwise]
    exact performs_next
  | some body, a, quiet => by
    simp only [Walker.execOtherwise, performOtherwise]
    exact performs_block calls body a quiet

end

include calls

/-- The statements of a function, none of which leaves or continues a loop around it. -/
theorem performs_performBody (apart : a.inLoop = false) (quiet : a.Quiet) (ss : List Stmt) :
    Performs scene a (Walker.execBlock invoke false ss) (performBody call ss) := by
  induction ss with
  | nil =>
    simp only [Walker.execBlock, performBody]
    exact performs_next
  | cons s ss ih =>
    intro w i within
    have ends := performs_exec calls s a quiet w i within
    rw [apart] at ends
    simp only [Walker.execBlock, performBody, Act.bind_apply]
    generalize ran : Walker.exec invoke false s w = p at ends ⊢
    generalize perform call s i = q at ends ⊢
    cases ends with
    | fails within => exact .fails within
    | @ends flow w' i' within =>
      rcases Walker.keepsLoop_exec invoke s _ _ _ ran with rfl | ⟨v, rfl⟩
      · dsimp only
        have goesOn : ((a.told .next).bearing w'.locals).hasReturned = false := quiet.stays
        rw [within.getTop]
        simp only [goesOn, Bool.false_eq_true, if_false]
        exact ih w' i' within
      · dsimp only
        rw [within.getTop]
        exact .ends (.give v) within

end Statements

section Calls

/-- The scene inside a call. -/
def Scene.inner (scene : Scene) : Scene := { scene with outer := [], depth := scene.depth + 1 }

/-- A call runs on a stack of its own, and it does not matter what it leaves there. -/
theorem alike_inActivation {x : Walker.Walk Value} {y : Run Value} {locals : Bindings Value}
    {fresh : Activation} (named : fresh.functionName.isSome = true) (own : fresh.locals = locals)
    (ends : ∀ w i, Within scene.inner fresh w i →
      Act.Matched (fun _ => False) (fun w i => ∃ b, Within scene.inner b w i) (x w) (y i)) :
    Alike scene a (Walker.withLocals locals x) (inActivation fresh y) := by
  intro w i within
  have ends := ends { w with locals := some locals }
    { i with callStack := [fresh], callDepth := i.callDepth + 1 }
    { within with
      engine := within.engine
      stack := own ▸ rfl
      called := named.symm
      depth := congrArg (· + 1) within.depth }
  unfold Walker.withLocals inActivation
  generalize x { w with locals := some locals } = p at ends ⊢
  generalize y { i with callStack := [fresh], callDepth := i.callDepth + 1 } = q at ends ⊢
  cases ends with
  | @same result w' i' inner =>
    obtain ⟨b, inner⟩ := inner
    refine .same { inner with
      engine := inner.engine, stack := within.stack, called := within.called, depth := ?_ }
    have depth : i'.callDepth = scene.depth + 1 := inner.depth
    show i'.callDepth - 1 = scene.depth
    rw [depth, Int.add_sub_cancel]
  | left excused | right excused => exact excused.elim

/-- The statements of a function, and what it returns. -/
theorem matched_body {invoke : Walker.Invoke} {call : Call} (calls : Calls scene invoke call)
    (apart : a.inLoop = false) (quiet : a.Quiet) (empty : a.returnValue = .null) (body : List Stmt)
    (within : Within scene a w i) :
    Act.Matched (fun _ => False) (fun w i => ∃ b, Within scene b w i)
      ((do
        match ← Walker.execBlock invoke false body with
        | .give v => return v
        | _ => return .null : Walker.Walk Value) w)
      ((do
        performBody call body
        return (← getTop).returnValue : Run Value) i) := by
  have ends := performs_performBody calls apart quiet body w i within
  simp only [Act.bind_apply]
  generalize Walker.execBlock invoke false body w = p at ends ⊢
  generalize performBody call body i = q at ends ⊢
  cases ends with
  | fails within => exact .same ⟨a, within⟩
  | @ends flow w' i' within =>
    dsimp only
    rw [within.getTop]
    cases flow with
    | give v => exact .same ⟨_, within⟩
    | next | leave | again =>
      show Act.Matched _ _ (.ok .null, w') (.ok a.returnValue, i')
      rw [empty]
      exact .same ⟨_, within⟩

theorem calls_callAt (n : Nat) : ∀ scene : Scene, (scene.limit - scene.depth).toNat = n →
    Calls scene (Walker.invokeAt n) (callAt n) := by
  induction n with
  | zero =>
    intro scene left a name f args bound
    unfold Walker.invokeAt callAt
    refine .ite (Act.likewise_throw _) fun w i within => ?_
    have deep : i.maxCallDepth ≤ i.callDepth := by
      rw [within.limit, within.depth]
      omega
    simp only [Act.bind_apply, Act.get_apply, if_pos deep]
    exact .same within
  | succ n ih =>
    intro scene left a name f args bound
    unfold Walker.invokeAt callAt
    refine .ite (Act.likewise_throw _) fun w i within => ?_
    have shallow : ¬ i.maxCallDepth ≤ i.callDepth := by
      rw [within.limit, within.depth]
      omega
    have left : (scene.inner.limit - scene.inner.depth).toNat = n := by
      show (scene.limit - (scene.depth + 1)).toNat = n
      omega
    dsimp only
    rw [Act.bind_ok (Act.get_apply i), if_neg shallow]
    refine Act.Likewise.bind (Act.likewise_lift _) (fun params => ?_) w i within
    exact alike_inActivation rfl rfl fun w i within =>
      matched_body (ih scene.inner left) rfl ⟨Int.le_refl 0, rfl, rfl, rfl⟩ rfl f.body within

/-- The calls made from the main program. -/
theorem calls_callTop (outermost : scene.depth = 0) :
    Calls scene Walker.invokeTop callTop := by
  intro a name f args bound w i within
  have limit : w.maxCallDepth = i.maxCallDepth := congrArg Engine.maxCallDepth within.engine
  have left : (scene.limit - scene.depth).toNat = i.maxCallDepth.toNat := by
    rw [outermost, within.limit, Int.sub_zero]
  simp only [Walker.invokeTop, callTop, Act.bind_apply, Act.get_apply, limit]
  exact calls_callAt _ scene left a name f args bound w i within

end Calls

end Interpreter

end Stepwise
