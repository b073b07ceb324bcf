import Mathlib.Data.List.Chain
import Stepwise.Proofs.Activation.Within
import Stepwise.Proofs.Shape

/-!
Where an interpreter stands between two steps: no statement has left word in an activation, none of
them is a call, and each one below another one runs the branch that the other one was entered for
(`Interpreter.AtRest`). A walker that has come equally far is `Abreast` of it, and the rules `Moves` say
how the same part of a step keeps them so. Within a step the frames and the activations may be apart for
a while (`Beside`), as long as a part that fails leaves them abreast.
-/
namespace Stepwise

/-- The kind of a loop. -/
def Stmt.loopForm? : Stmt → Option LoopForm
  | .loopTimes _ _ _ => some .times
  | .loopWhile _ _ _ => some .whileTrue
  | .loopRange _ _ _ _ _ _ => some .range
  | .loopEach _ _ _ _ => some .each
  | _ => none

/-- The variable that a loop sets for each round. -/
def Stmt.loopVariable? : Stmt → Option Constant
  | .loopRange _ var _ _ _ _ | .loopEach _ var _ _ => some var
  | _ => none

/-- What has to hold for a further round; only a `while` loop has a test. -/
def Stmt.loopTest : Stmt → Expr
  | .loopWhile _ condition _ => condition
  | _ => default

namespace Activation

/-- An activation whose open loop is its next statement, with a round under way. -/
structure Looping (a : Activation) (s : Stmt) : Prop where
  there : a.statements[a.index]? = some s
  statement : a.loopStatement = some s
  form : a.loopForm = s.loopForm?
  body : ∃ body, s.round? = some body ∧ a.loopBody = some body ∧ a.loopBodyIndex ≤ body.length
  times : a.loopForm = some .times → a.loopCounter < a.loopLimit
  each : a.loopForm = some .each → ∃ items, a.items = some items ∧ a.itemIndex < items.length
  named : ∀ var, s.loopVariable? = some var → a.forVariable = some var ∧ ∃ name, var.name = .ok name

/-- An activation between two steps. -/
structure Resting (a : Activation) : Prop where
  unnamed : a.functionName = none
  bare : a.locals = []
  counts : a.syncLoopDepth = 0
  goesOn : a.shouldBreak = false
  passesOn : a.shouldContinue = false
  stays : a.hasReturned = false
  closed : a.loopForm = none →
    a.index ≤ a.statements.length ∧ a.loopCounter = 0 ∧ a.itemIndex = 0
  opened : a.loopForm.isSome = true → ∃ s, a.Looping s

/-- An activation that runs a branch of the statement that the one below it has begun last. -/
def StandsOn (a below : Activation) : Prop :=
  below.loopForm = none ∧ ∃ k s, below.index = k + 1 ∧ below.statements[k]? = some s ∧
    a.statements ∈ s.arms

/-- The activations between two steps. -/
structure Quiescent (stack : List Activation) : Prop where
  resting : ∀ a ∈ stack, a.Resting
  stands : stack.IsChain StandsOn

variable {a b : Activation} {outer : List Activation} {s : Stmt}

theorem Resting.quiet (resting : a.Resting) : a.Quiet :=
  ⟨Int.le_of_eq resting.counts.symm, resting.goesOn, resting.passesOn, resting.stays⟩

theorem Resting.inLoop (resting : a.Resting) : a.inLoop = a.loopForm.isSome := by
  simp [Activation.inLoop, resting.counts]

theorem Resting.bearing_none (resting : a.Resting) : a.bearing none = a := by
  show { a with locals := [] } = a
  rw [← resting.bare]

/-- The activation at the start of some statements. -/
theorem resting_start (statements : List Stmt) : Resting { statements := statements } :=
  ⟨rfl, rfl, rfl, rfl, rfl, rfl, fun _ => ⟨Nat.zero_le _, rfl, rfl⟩, by simp⟩

theorem index_lt (there : a.statements[a.index]? = some s) : a.index + 1 ≤ a.statements.length :=
  (List.getElem?_eq_some_iff.mp there).1

theorem Resting.next (resting : a.Resting) (closed : a.loopForm = none)
    (there : a.statements[a.index]? = some s) : a.next.Resting :=
  { resting with
    closed := fun _ => ⟨index_lt there, (resting.closed closed).2⟩
    opened := fun opened => by
      have opened : a.loopForm.isSome = true := opened
      rw [closed] at opened
      cases opened }

theorem Resting.exitLoop (resting : a.Resting) (there : a.statements[a.index]? = some s) :
    a.exitLoop.Resting :=
  ⟨resting.unnamed, resting.bare, resting.counts, rfl, rfl, resting.stays,
    fun _ => ⟨index_lt there, rfl, rfl⟩, by simp [Activation.exitLoop]⟩

/-- Opens a loop, with whatever it is to go through. -/
def opening (form : LoopForm) (s : Stmt) (body : List Stmt) (limit : Nat) (var : Option Constant)
    (stop step : Value) (items : Option (List Value)) (a : Activation) : Activation :=
  { a.enterLoop form s body with
    loopLimit := limit, forVariable := var, forEnd := stop, forStep := step, items }

theorem Resting.opening {form : LoopForm} {body : List Stmt} (resting : a.Resting) (limit : Nat)
    (var : Option Constant) (stop step : Value) (items : Option (List Value))
    (closed : a.loopForm = none) (there : a.statements[a.index]? = some s)
    (form_eq : s.loopForm? = some form) (body_eq : s.round? = some body)
    (times : form = .times → 0 < limit) (each : form = .each → ∃ item rest, items = some (item :: rest))
    (named : ∀ v, s.loopVariable? = some v → var = some v ∧ ∃ name, v.name = .ok name) :
    (a.opening form s body limit var stop step items).Resting := by
  obtain ⟨-, counter, index⟩ := resting.closed closed
  refine { resting with
    closed := by simp [Activation.opening, enterLoop]
    opened := fun _ => ⟨s, there, rfl, form_eq.symm, ?_, ?_, ?_, named⟩ }
  · exact ⟨body, body_eq, rfl, Nat.zero_le _⟩
  · intro same
    show a.loopCounter < limit
    rw [counter]
    exact times (Option.some.inj same)
  · intro same
    obtain ⟨item, rest, rfl⟩ := each (Option.some.inj same)
    refine ⟨item :: rest, rfl, ?_⟩
    show a.itemIndex < (item :: rest).length
    rw [index]
    exact Nat.succ_pos _

/-- Goes to a place in the body of the open loop. -/
def placed (position : Nat) (a : Activation) : Activation := { a with loopBodyIndex := position }

/-- Counts the rounds of the open loop, and its items. -/
def counting (counter index : Nat) (a : Activation) : Activation :=
  { a with loopCounter := counter, itemIndex := index }

/-- A further place in the body of the open loop, in a round that is under way. -/
theorem Resting.round {form : LoopForm} {body : List Stmt} (resting : a.Resting)
    (counter index position : Nat) (looping : a.Looping s) (opened : a.loopForm = some form)
    (known : a.loopBody = some body) (inside : position ≤ body.length)
    (times : form = .times → counter < a.loopLimit)
    (each : form = .each → ∃ items, a.items = some items ∧ index < items.length) :
    ((a.counting counter index).placed position).Resting := by
  obtain ⟨body', round, known', -⟩ := looping.body
  obtain rfl : body = body' := Option.some.inj (known.symm.trans known')
  refine { resting with
    closed := fun none => absurd (opened.symm.trans none) (Option.some_ne_none form)
    opened := fun _ => ⟨s, { looping with body := ⟨body, round, known, inside⟩, times := ?_, each := ?_ }⟩ }
  · exact fun isTimes => times (Option.some.inj (opened.symm.trans isTimes))
  · exact fun isEach => each (Option.some.inj (opened.symm.trans isEach))

/-- How the open loop goes on. -/
def loopKind (a : Activation) : LoopForm → LoopKind
  | .times => .times a.loopCounter a.loopLimit
  | .whileTrue => .whileTrue ((a.loopStatement.map Stmt.loopTest).getD default)
  | .range => .range (a.forVariable.getD default) a.forEnd a.forStep
  | .each => .each (a.forVariable.getD default) (a.items.getD []) a.itemIndex

def openLoop (a : Activation) (form : LoopForm) : OpenLoop where
  kind := a.loopKind form
  line := a.loopStatement.bind Stmt.line
  body := a.loopBody.getD []
  position := a.loopBodyIndex

/-- The frame of the walker in which the same is left to do. -/
def frame (a : Activation) : Frame where
  statements := a.statements
  index := a.index
  loop := a.loopForm.map a.openLoop

theorem finished_frame (a : Activation) : a.frame.finished = a.finished := by
  simp only [Frame.finished, Activation.finished, frame, Option.isNone_map]
  rfl

theorem Resting.nextLine?_frame (resting : a.Resting) : a.frame.nextLine? = a.nextLine? := by
  unfold Frame.nextLine? Activation.nextLine?
  cases form : a.loopForm with
  | none => simp only [frame, form, Option.map_none]
  | some form' =>
    obtain ⟨s, looping⟩ := resting.opened (by rw [form]; rfl)
    simp only [frame, openLoop, form, Option.map_some, looping.statement, Option.bind_some]
    cases (a.loopBody.getD [])[a.loopBodyIndex]? <;> rfl

/-- The walker keeps the place in the body of the open loop and how the loop goes on. -/
theorem frame_round {form : LoopForm} (opened : a.loopForm = some form) (counter index position : Nat) :
    ((a.counting counter index).placed position).frame = { a.frame with
      loop := a.frame.loop.map fun loop =>
        { loop with kind := (a.counting counter index).loopKind form, position } } := by
  simp only [frame, placed, counting, opened, Option.map_some]
  cases form <;> rfl

namespace Quiescent

theorem top (rest : Quiescent (a :: outer)) : a.Resting := rest.resting a List.mem_cons_self

/-- Another activation of the same statements on top. -/
theorem change (rest : Quiescent (a :: outer)) (resting : b.Resting) (same : b.statements = a.statements) :
    Quiescent (b :: outer) := by
  refine ⟨List.forall_mem_cons.mpr ⟨resting, (List.forall_mem_cons.mp rest.resting).2⟩, ?_⟩
  have stands := rest.stands
  cases outer with
  | nil => exact .singleton b
  | cons below outer =>
    rw [List.isChain_cons_cons] at stands ⊢
    unfold StandsOn at stands ⊢
    exact same ▸ stands

/-- A branch of the statement that was begun last is entered. -/
theorem push {k : Nat} {body : List Stmt} (rest : Quiescent (a :: outer)) (closed : a.loopForm = none)
    (index : a.index = k + 1) (there : a.statements[k]? = some s) (arm : body ∈ s.arms) :
    Quiescent ({ statements := body } :: a :: outer) :=
  ⟨List.forall_mem_cons.mpr ⟨resting_start body, rest.resting⟩,
    List.isChain_cons_cons.mpr ⟨⟨closed, k, s, index, there, arm⟩, rest.stands⟩⟩

theorem suffix {stack stack' : List Activation} (rest : Quiescent stack) (suffix : stack' <:+ stack) :
    Quiescent stack' :=
  ⟨fun a member => rest.resting a (suffix.mem member), rest.stands.suffix suffix⟩

end Quiescent

end Activation

open Activation (Quiescent)

namespace Interpreter

/-- Between two steps. -/
structure AtRest (i : Interpreter) : Prop where
  rest : Quiescent i.callStack
  depth : i.callDepth = 0

/-- A walker with these frames and an interpreter with these activations that have come equally far,
outside of calls. -/
structure Beside (frames : List Frame) (stack : List Activation) (w : Walker) (i : Interpreter) :
    Prop where
  engine : w.toEngine = i.toEngine
  program : w.program = i.program
  functions : w.functions = i.functions
  classes : w.classes = i.classes
  line : w.line = i.line
  begun : w.begun = i.begun
  frames : w.frames = frames
  stack : i.callStack = stack
  outside : w.locals = none
  depth : i.callDepth = 0

abbrev On (stack : List Activation) : Walker → Interpreter → Prop :=
  Beside (stack.map Activation.frame) stack

/-- A walker and an interpreter between two steps that have come equally far. -/
structure Abreast (w : Walker) (i : Interpreter) : Prop where
  rest : Quiescent i.callStack
  on : On i.callStack w i

variable {α β : Type} {w : Walker} {i : Interpreter} {a b : Activation} {frame : Frame}
  {frames : List Frame} {stack outer : List Activation} {s : Stmt}

theorem Abreast.of_on (rest : Quiescent stack) (on : On stack w i) : Abreast w i := by
  obtain ⟨engine, program, functions, classes, line, begun, frames, rfl, outside, depth⟩ := on
  exact ⟨rest, engine, program, functions, classes, line, begun, frames, rfl, outside, depth⟩

theorem Abreast.atRest (abreast : Abreast w i) : i.AtRest := ⟨abreast.rest, abreast.on.depth⟩

/-- The scene at an activation of the main program. -/
def mainScene (frames : List Frame) (outer : List Activation) (limit : Int) : Scene :=
  ⟨frames, outer, limit, 0⟩

theorem Beside.within (beside : Beside frames (a :: outer) w i) (resting : a.Resting) :
    Within (mainScene frames outer i.maxCallDepth) a w i :=
  { beside with
    engine := beside.engine
    frames := beside.frames
    stack := by
      rw [beside.stack, beside.outside, resting.bearing_none]
      rfl
    called := by rw [beside.outside, resting.unnamed]; rfl
    limit := rfl }

/-- The activation may have been left word, but it is no call. -/
theorem Within.beside {limit : Int} (within : Within (mainScene frames outer limit) a w i)
    (unnamed : a.functionName = none) (bare : a.locals = []) : Beside frames (a :: outer) w i := by
  have outside : w.locals = none := by
    have called := within.called
    rw [unnamed] at called
    exact Option.isNone_iff_eq_none.mp (by simpa using called)
  refine { within with engine := within.engine, frames := within.frames, stack := ?_, outside := outside }
  rw [within.stack, outside]
  show { a with locals := [] } :: outer = a :: outer
  rw [← bare]

section Moves

/-- How the same part of a step ends for both. When it fails they are abreast. -/
inductive Meets (post : α → Walker → Interpreter → Prop) :
    Except Failure α × Walker → Except Failure α × Interpreter → Prop where
  | done (v : α) {w : Walker} {i : Interpreter} : post v w i → Meets post (.ok v, w) (.ok v, i)
  | failed {failure : Failure} {w : Walker} {i : Interpreter} : Abreast w i →
      Meets post (.error failure, w) (.error failure, i)

/-- The same part of a step. -/
def Moves (pre : Walker → Interpreter → Prop) (post : α → Walker → Interpreter → Prop)
    (x : Walker.Walk α) (y : Run α) : Prop :=
  ∀ w i, pre w i → Meets post (x w) (y i)

variable {pre : Walker → Interpreter → Prop} {mid : α → Walker → Interpreter → Prop}
  {post post' : β → Walker → Interpreter → Prop}

theorem Moves.bind {x : Walker.Walk α} {y : Run α} {f : α → Walker.Walk β} {g : α → Run β}
    (first : Moves pre mid x y) (then_ : ∀ v, Moves (mid v) post (f v) (g v)) :
    Moves pre post (x >>= f) (y >>= g) := by
  intro w i start
  have ends := first w i start
  rw [Act.bind_apply, Act.bind_apply]
  generalize x w = p at ends ⊢
  generalize y i = q at ends ⊢
  cases ends with
  | done v between => exact then_ v _ _ between
  | failed abreast => exact .failed abreast

theorem Moves.ite {c : Prop} [Decidable c] {x x' : Walker.Walk β} {y y' : Run β}
    (yes : Moves pre post x y) (no : Moves pre post x' y') :
    Moves pre post (if c then x else x') (if c then y else y') := by
  split
  · exact yes
  · exact no

theorem Moves.weaken {x : Walker.Walk β} {y : Run β} (moves : Moves pre post x y)
    (weaker : ∀ v w i, post v w i → post' v w i) : Moves pre post' x y := by
  intro w i start
  have ends := moves w i start
  generalize x w = p at ends ⊢
  generalize y i = q at ends ⊢
  cases ends with
  | done v between => exact .done v (weaker v _ _ between)
  | failed abreast => exact .failed abreast

/-- What is known besides of the state in front. -/
theorem Moves.knowing {P : Prop} {x : Walker.Walk β} {y : Run β} (moves : P → Moves pre post x y) :
    Moves (fun w i => pre w i ∧ P) post x y :=
  fun w i start => moves start.2 w i start.1

theorem moves_pure {v : β} (weaker : ∀ w i, pre w i → post v w i) : Moves pre post (pure v) (pure v) :=
  fun w i start => .done v (weaker w i start)

theorem Meets.rest {p : Except Failure Unit × Walker} {q : Except Failure Unit × Interpreter}
    (meets : Meets (fun _ => On stack) p q) (rest : Quiescent stack) : Meets (fun _ => Abreast) p q := by
  cases meets with
  | done _ on => exact .done () (.of_on rest on)
  | failed abreast => exact .failed abreast

/-- A part of a step behind which the activations are at rest. -/
theorem Moves.rest {x : Walker.Walk Unit} {y : Run Unit} (moves : Moves pre (fun _ => On stack) x y)
    (rest : Quiescent stack) : Moves pre (fun _ => Abreast) x y :=
  fun w i start => (moves w i start).rest rest

theorem moves_alike (rest : Quiescent (a :: outer)) {x : Walker.Walk α} {y : Run α}
    (alike : ∀ scene : Scene, scene.depth = 0 → Alike scene a x y) :
    Moves (On (a :: outer)) (fun _ => On (a :: outer)) x y := by
  intro w i on
  have ends := alike _ rfl w i (on.within rest.top)
  generalize x w = p at ends ⊢
  generalize y i = q at ends ⊢
  cases ends with
  | @same result w' i' within =>
    have on := within.beside rest.top.unnamed rest.top.bare
    cases result with
    | ok v => exact .done v on
    | error failure => exact .failed (.of_on rest on)
  | left excused | right excused => exact excused.elim

theorem moves_lift (rest : Quiescent stack) (x : Except Failure α) :
    Moves (On stack) (fun v w i => On stack w i ∧ x = .ok v) (liftM x) (liftM x) := by
  intro w i on
  cases x with
  | ok v => exact .done v ⟨on, rfl⟩
  | error failure => exact .failed (.of_on rest on)

theorem Beside.modifyTop (beside : Beside frames (a :: outer) w i) (f : Activation → Activation) :
    ∃ i', modifyTop f i = (.ok (), i') ∧ Beside frames (f a :: outer) w i' := by
  refine ⟨{ i with callStack := f a :: outer }, ?_, { beside with engine := beside.engine, stack := rfl }⟩
  simp only [Interpreter.modifyTop, Act.modify_apply, beside.stack]

theorem Beside.modifyFrame (beside : Beside (frame :: frames) stack w i) (g : Frame → Frame) :
    ∃ w', Walker.modifyFrame g w = (.ok (), w') ∧ Beside (g frame :: frames) stack w' i := by
  refine ⟨{ w with frames := g frame :: frames }, ?_,
    { beside with engine := beside.engine, frames := rfl }⟩
  simp only [Walker.modifyFrame, Act.modify_apply, beside.frames]

/-- The innermost frame and the innermost activation change so that they agree. -/
theorem Beside.change {f : Activation → Activation} {g : Frame → Frame}
    (beside : Beside (frame :: outer.map Activation.frame) (a :: outer) w i) (changed : f a = b)
    (same : g frame = b.frame) :
    Meets (fun _ => On (b :: outer)) (Walker.modifyFrame g w) (Interpreter.modifyTop f i) := by
  obtain ⟨i', top, beside⟩ := beside.modifyTop f
  obtain ⟨w', moved, beside⟩ := beside.modifyFrame g
  rw [top, moved]
  rw [changed, same] at beside
  exact .done () beside

theorem moves_top {f : Activation → Activation} {g : Frame → Frame} (same : g a.frame = (f a).frame) :
    Moves (On (a :: outer)) (fun _ => On (f a :: outer)) (Walker.modifyFrame g) (modifyTop f) :=
  fun _ _ on => on.change rfl same

theorem modifyTop_modifyTop (f g : Activation → Activation) :
    (do modifyTop f; modifyTop g) = modifyTop (g ∘ f) := by
  funext i
  obtain ⟨engine, program, callStack, functions, classes, line, begun, depth⟩ := i
  cases callStack <;> rfl

theorem moves_finishProgram :
    Moves (Beside frames stack) (fun _ => Abreast) Walker.finishProgram finishProgram := by
  intro w i on
  have engine : ({ w.toEngine with status := .completed } : Engine) =
      { i.toEngine with status := .completed } := by rw [on.engine]
  exact .done () ⟨⟨by simp, .nil⟩,
    { on with engine := engine, frames := rfl, stack := rfl }⟩

theorem moves_highlight (line : Option Int) :
    Moves (On stack) (fun _ => On stack) (Walker.highlight line) (highlight line) := by
  intro w i on
  have engine : ({ w.toEngine with report := { w.report with highlightLine := line } } : Engine) =
      { i.toEngine with report := { i.report with highlightLine := line } } := by rw [on.engine]
  exact .done () { on with engine := engine }

end Moves

end Interpreter

end Stepwise
