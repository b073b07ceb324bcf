import Stepwise.Proofs.Evaluation.Facilities
import Stepwise.Walker.Step

/-!
An interpreter that says how it works: it keeps a stack of activations, in which statements leave word
of a `break`, a `continue` or a `return`, and in which loops that run within a step are counted. A call
puts its own stack in place of the caller's. Expressions are evaluated as in any engine.
-/
namespace Stepwise

/-- The kinds of loops. -/
inductive LoopForm where
  | times
  | whileTrue
  | range
  | each
  deriving DecidableEq, Inhabited

/-- The main program, a branch entered at the level where statements are stepped, or a call. The
outermost loop of an activation stays open between steps. -/
structure Activation where
  /-- The name under which the function is shown; none outside of calls. -/
  functionName : Option Name := none
  statements : List Stmt
  locals : Bindings Value := []
  /-- Position of the next statement, or of the one whose loop is open. -/
  index : Nat := 0
  loopForm : Option LoopForm := none
  loopStatement : Option Stmt := none
  loopBody : Option (List Stmt) := none
  /-- Position in the body of the open loop of the next statement. -/
  loopBodyIndex : Nat := 0
  loopCounter : Nat := 0
  loopLimit : Nat := 0
  forVariable : Option Constant := none
  forEnd : Value := .null
  forStep : Value := .null
  items : Option (List Value) := none
  itemIndex : Nat := 0
  /-- How many loops run to their end within the step. -/
  syncLoopDepth : Int := 0
  shouldBreak : Bool := false
  shouldContinue : Bool := false
  returnValue : Value := .null
  hasReturned : Bool := false
  deriving Inhabited

namespace Activation

variable (a : Activation)

/-- Whether a `break` or a `continue` finds a loop around it. -/
def inLoop : Bool := a.loopForm.isSome || decide (0 < a.syncLoopDepth)

def finished : Bool := a.loopForm.isNone && a.statements.length ≤ a.index

def next : Activation := { a with index := a.index + 1 }

def enterLoop (form : LoopForm) (s : Stmt) (body : List Stmt) : Activation :=
  { a with loopForm := some form, loopStatement := some s, loopBody := some body, loopBodyIndex := 0 }

/-- Counts loops that begin or end within the step. -/
def deeper (loops : Int) (a : Activation) : Activation :=
  { a with syncLoopDepth := a.syncLoopDepth + loops }

/-- Drops the open loop and moves behind its statement. -/
def exitLoop : Activation :=
  { a with
    loopForm := none
    loopStatement := none
    loopBody := none
    loopBodyIndex := 0
    loopCounter := 0
    loopLimit := 0
    forVariable := none
    forEnd := .null
    forStep := .null
    items := none
    itemIndex := 0
    shouldBreak := false
    shouldContinue := false
    index := a.index + 1 }

/-- The statement that would run next; none for an activation that is finished. -/
def nextLine? : Option (Option Int) :=
  match a.loopForm with
  | some _ =>
    match (a.loopBody.getD [])[a.loopBodyIndex]? with
    | some s => some s.line
    | none => a.loopStatement.map Stmt.line
  | none => (a.statements[a.index]?).map Stmt.line

/-- Whether a statement left word that the statements behind it are not to run. -/
def interrupted : Bool := a.hasReturned || a.shouldBreak || a.shouldContinue

end Activation

/-- The innermost activation stands first. -/
structure Interpreter extends Engine where
  program : Option Program := none
  callStack : List Activation := []
  functions : Bindings Func := []
  classes : Bindings (Bindings Func) := []
  /-- Line of the statement under way. -/
  line : Option Int := none
  /-- Statements begun in the step under way. -/
  begun : Nat := 0
  /-- How many calls are under way. -/
  callDepth : Int := 0
  deriving Inhabited

namespace Interpreter

abbrev Run (α : Type) := Act Interpreter α

/-- Calls a function, by the name under which it is shown, on its arguments. A bound call has a
receiver that the caller did not write. -/
abbrev Call := Name → Func → List Value → Bool → Run Value

def getTop : Run Activation := do return (← get).callStack.headD default

def modifyTop (f : Activation → Activation) : Run Unit :=
  modify fun i =>
    match i.callStack with
    | [] => i
    | a :: outer => { i with callStack := f a :: outer }

def getHeap : Run Heap := return (← get).heap

def setHeap (heap : Heap) : Run Unit := modify fun i => { i with world := i.world.withHeap heap }

def setLine (line : Option Int) : Run Unit := modify fun i => { i with line }

def lookup (name : Name) : Run Value := do
  let i ← get
  match (i.callStack.head?.bind fun a => a.locals.get? name).or (i.globals.get? name) with
  | some v => return v
  | none => throw (.fault (undefinedVariable name))

/-- Binds a variable of a call, or a global one outside of calls. -/
def store (name : Name) (v : Value) : Run Unit :=
  modify fun i =>
    match i.callStack with
    | [] => { i with toEngine := i.toEngine.setGlobal name v }
    | a :: outer =>
      if a.functionName.isSome || a.locals.has name then
        { i with callStack := { a with locals := a.locals.put name v } :: outer }
      else { i with toEngine := i.toEngine.setGlobal name v }

/-- Lets the engine make a call that leaves the program. -/
def outside (call : Engine → Except Failure Value × Engine) : Run Value :=
  fun i =>
    let (result, engine) := call i.toEngine
    (result, { i with toEngine := engine })

/-- What an interpreter has for evaluation. -/
def facilities (call : Call) : Facilities Interpreter where
  getHeap := getHeap
  setHeap := setHeap
  lookup := lookup
  store := store
  setLine := setLine
  getFunctions := do return (← get).functions
  getClasses := do return (← get).classes
  callOutside name args := outside fun engine => engine.call name args
  callBuiltin name args := outside fun engine => engine.callBuiltin name args
  invoke := call

/-- Counts a statement against the limit of the step. -/
def begin (line : Option Int) : Run Unit := do
  modify fun i => { i with line, begun := i.begun + 1 }
  let i ← get
  if i.maxSteps < i.begun then throw (.fault (i.tooManySteps line))

/-- Runs an action as a loop within the step; it is counted as long as it runs, however it ends. -/
def inSyncLoop {α : Type} (action : Run α) : Run α :=
  fun i =>
    let (result, after) := action (modifyTop (Activation.deeper 1) i).2
    (result, (modifyTop (Activation.deeper (-1)) after).2)

/-- Runs one round of a loop; false if the loop has to stop. -/
def round (body : Run Unit) : Run Bool := do
  body
  let a ← getTop
  if a.hasReturned then return false
  else if a.shouldBreak then
    modifyTop fun a => { a with shouldBreak := false }
    return false
  else
    modifyTop fun a => { a with shouldContinue := false }
    return true

/-- Runs rounds a number of times. -/
def repeatRounds (round : Run Bool) : Nat → Run Unit
  | 0 => return
  | count + 1 => do if ← round then repeatRounds round count

/-- Runs rounds while a test holds, with `advance` after each round that ends normally. -/
def repeatWhile (line : Option Int) (test : Run Bool) (round : Run Bool) (advance : Run Unit) :
    Nat → Run Unit
  | 0 => do throw (.fault ((← get).tooManySteps line))
  | rounds + 1 => do
    if ← test then
      if ← round then
        advance
        repeatWhile line test round advance rounds

/-- Runs a round for each item. -/
def repeatEach (call : Call) (var : Constant) (round : Run Bool) : List Value → Run Unit
  | [] => return
  | item :: rest => do
    store (← var.name) item
    if ← round then repeatEach call var round rest

/-- A bound on the rounds of one loop, as for the walker. -/
def roundLimit (i : Interpreter) (body : List Stmt) : Nat :=
  if body.isEmpty then Walker.endlessRounds else i.maxSteps.toNat + 1

section Statements

variable (call : Call)

mutual

/-- Runs a statement to its end. -/
def perform : Stmt → Run Unit
  | .expr pos value => do
    begin pos.line
    let _ ← (facilities call).eval value
  | .assign pos target value => do
    begin pos.line
    let v ← (facilities call).eval value
    store (← target.name) v
  | .update pos target op value => do
    begin pos.line
    let name ← target.name
    let old ← lookup name
    let operand ← (facilities call).eval value
    match op.base? with
    | none => throw (.host .mistyped)
    | some op => store name (← Value.binary op (← getHeap) old operand)
  | .setIndex pos object position value => do
    begin pos.line
    let object ← (facilities call).eval object
    let position ← (facilities call).eval position
    let v ← (facilities call).eval value
    setHeap (← Value.setIndex (← getHeap) object position v)
  | .setMember pos object property value => do
    begin pos.line
    let object ← (facilities call).eval object
    let v ← (facilities call).eval value
    setHeap (← Value.setMember (← getHeap) object (← Facilities.memberName object property) v)
  | .branch pos condition body elifs otherwise => do
    begin pos.line
    if ← (facilities call).test condition then performBlock body
    else performElifs (performOtherwise otherwise) elifs
  | .loopTimes pos count body => do
    begin pos.line
    let count ← (facilities call).countOf pos.line count
    inSyncLoop (repeatRounds (round (performBlock body)) count)
  | .loopWhile pos condition body => do
    begin pos.line
    let limit := (← get).roundLimit body
    inSyncLoop (repeatWhile pos.line ((facilities call).test condition) (round (performBlock body))
      (pure ()) limit)
  | .loopRange pos var start stop step body => do
    begin pos.line
    let (first, last, step) ← (facilities call).boundsOf pos.line start stop step
    let var ← var.name
    store var first
    let limit := (← get).roundLimit body
    inSyncLoop (repeatWhile pos.line (do (facilities call).inRange (← lookup var) last step)
      (round (performBlock body)) (discard ((facilities call).advanceRange var step)) limit)
  | .loopEach pos var items body => do
    begin pos.line
    let items ← (facilities call).itemsOf pos.line items
    inSyncLoop (repeatEach call var (round (performBlock body)) items)
  | .leave pos => do
    begin pos.line
    if (← getTop).inLoop then modifyTop fun a => { a with shouldBreak := true }
    else
      Facilities.refuseAt pos.line "'break' outside loop"
        (some "break can only be used inside a loop.")
  | .again pos => do
    begin pos.line
    if (← getTop).inLoop then modifyTop fun a => { a with shouldContinue := true }
    else
      Facilities.refuseAt pos.line "'continue' outside loop"
        (some "continue can only be used inside a loop.")
  | .pass pos => begin pos.line
  | .define f => do
    begin f.pos.line
    let name := f.name
    Facilities.refuseAt f.pos.line s!"Function '{name}' must be defined at the top level"
      (some "Move the def out of the block it is in.")
  | .defineClass pos name _ => do
    begin pos.line
    Facilities.refuseAt pos.line s!"Class '{name}' must be defined at the top level"
      (some "Move the class out of the block it is in.")
  | .give pos value => do
    begin pos.line
    let v ← (facilities call).evalOption value
    modifyTop fun a => { a with returnValue := v, hasReturned := true }
  | .alien node => do
    begin node.pos.line
    Facilities.refuseAt node.pos.line s!"Unknown statement type {node.label}"

/-- Runs statements in order until one leaves word that no other is to run. -/
def performBlock : List Stmt → Run Unit
  | [] => return
  | s :: rest => do
    perform s
    if (← getTop).interrupted then return
    performBlock rest

/-- Runs the first of some further branches whose test holds, or else the last resort. -/
def performElifs (lastResort : Run Unit) : List Elif → Run Unit
  | [] => lastResort
  | e :: rest => performElif (performElifs lastResort rest) e

def performElif (others : Run Unit) : Elif → Run Unit
  | .mk _ condition body => do
    if ← (facilities call).test condition then performBlock body else others

def performOtherwise : Option (List Stmt) → Run Unit
  | none => return
  | some body => performBlock body

end

/-- Runs the statements of a function until one returns. -/
def performBody : List Stmt → Run Unit
  | [] => return
  | s :: rest => do
    perform call s
    if (← getTop).hasReturned then return
    performBody rest

end Statements

/-- Runs an action with a stack of its own; the caller's comes back however it ends. -/
def inActivation {α : Type} (a : Activation) (action : Run α) : Run α :=
  fun i =>
    let (result, after) := action { i with callStack := [a], callDepth := i.callDepth + 1 }
    (result, { after with callStack := i.callStack, callDepth := after.callDepth - 1 })

/-- Calls a function unless too many calls are under way. The number says how many nested calls are
left, so that it never runs out before the limit is met. -/
def callAt : Nat → Call
  | left, name, f, args, bound => do
    if args.length ≠ f.params.length then
      let hidden : Int := if bound then 1 else 0
      let name := f.name
      let wanted := f.params.length - hidden
      let given := args.length - hidden
      Facilities.refuse s!"{name}() takes {wanted} argument(s) but {given} were given"
    let i ← get
    if i.maxCallDepth ≤ i.callDepth then throw (.fault depthExceeded)
    match left with
    | 0 => throw (.fault depthExceeded)
    | left + 1 =>
      let params ← liftM (f.params.mapM Constant.name)
      let a : Activation :=
        { functionName := some name
          statements := f.body
          locals := Bindings.ofList (params.zip args) }
      inActivation a do
        performBody (callAt left) f.body
        return (← getTop).returnValue

/-- Calls made from the main program. -/
def callTop : Call := fun name f args bound => do
  callAt (← get).maxCallDepth.toNat name f args bound

/-- Evaluation in the main program. -/
abbrev evaluation : Facilities Interpreter := facilities callTop

/-- Returning at the top level ends the program. -/
def finishProgram : Run Unit :=
  modify fun i => { i with callStack := [], status := .completed }

def highlight (line : Option Int) : Run Unit :=
  modify fun i => { i with report := { i.report with highlightLine := line } }

/-- The statements of the branch to take. -/
def chooseElif (otherwise : Option (List Stmt)) : List Elif → Run (List Stmt)
  | [] => return otherwise.getD []
  | e :: rest => do
    if ← evaluation.test e.test then return e.body else chooseElif otherwise rest

def enterBranch (body : List Stmt) : Run Unit :=
  unless body.isEmpty do
    modify fun i => { i with callStack := { statements := body } :: i.callStack }

/-- Runs one statement of the innermost activation. A loop is left open. -/
def stepStatement (s : Stmt) : Run Unit :=
  match s with
  | .branch _ condition body elifs otherwise => do
    modifyTop Activation.next
    if ← evaluation.test condition then enterBranch body
    else enterBranch (← chooseElif otherwise elifs)
  | .loopTimes pos count body => do
    let limit ← evaluation.countOf pos.line count
    if limit = 0 then modifyTop Activation.next
    else
      modifyTop fun a => a.enterLoop .times s body
      modifyTop fun a => { a with loopLimit := limit }
  | .loopWhile _ condition body => do
    if ← evaluation.test condition then modifyTop fun a => a.enterLoop .whileTrue s body
    else modifyTop Activation.next
  | .loopRange pos var start stop step body => do
    let (first, last, step) ← evaluation.boundsOf pos.line start stop step
    store (← var.name) first
    if ← evaluation.inRange first last step then
      modifyTop fun a => a.enterLoop .range s body
      modifyTop fun a => { a with forVariable := some var, forEnd := last, forStep := step }
    else modifyTop Activation.next
  | .loopEach pos var items body => do
    match ← evaluation.itemsOf pos.line items with
    | [] => modifyTop Activation.next
    | item :: rest =>
      store (← var.name) item
      modifyTop fun a => a.enterLoop .each s body
      modifyTop fun a => { a with forVariable := some var, items := some (item :: rest) }
  | .give _ value => do
    let _ ← evaluation.evalOption value
    finishProgram
  | s => do
    perform callTop s
    modifyTop Activation.next

/-- Whether the open loop has a further round, which is made ready. -/
def advance (a : Activation) : Run Bool :=
  match a.loopForm, a.loopStatement, a.forVariable with
  | some .times, _, _ => do
    modifyTop fun a => { a with loopCounter := a.loopCounter + 1 }
    return a.loopCounter + 1 < a.loopLimit
  | some .whileTrue, some (.loopWhile _ condition _), _ => evaluation.test condition
  | some .range, _, some var => do
    let v ← evaluation.advanceRange (← var.name) a.forStep
    evaluation.inRange v a.forEnd a.forStep
  | some .each, _, some var => do
    modifyTop fun a => { a with itemIndex := a.itemIndex + 1 }
    match (a.items.getD [])[a.itemIndex + 1]? with
    | none => return false
    | some item =>
      store (← var.name) item
      return true
  | _, _, _ => throw (.host .mistyped)

/-- Runs the next statement in the body of an open loop, or starts its next round. -/
def stepLoop (a : Activation) : Run Unit := do
  let body := a.loopBody.getD []
  match body[a.loopBodyIndex]? with
  | some s =>
    modifyTop fun a => { a with loopBodyIndex := a.loopBodyIndex + 1 }
    highlight s.line
    perform callTop s
    let a ← getTop
    if a.hasReturned then finishProgram
    else if a.shouldBreak then modifyTop Activation.exitLoop
    else if a.shouldContinue then
      modifyTop fun a => { a with shouldContinue := false, loopBodyIndex := body.length }
  | none =>
    let line := a.loopStatement.bind Stmt.line
    highlight line
    setLine line
    if ← advance a then modifyTop fun a => { a with loopBodyIndex := 0 }
    else modifyTop Activation.exitLoop

/-- Drops the innermost activations that have nothing left to run. -/
def unwind (i : Interpreter) : Interpreter :=
  { i with callStack := i.callStack.dropWhile Activation.finished }

/-- Makes room for the nested calls that are allowed. -/
def makeRoom : Run Unit := do
  let levels := Walker.ownLevels + Walker.levelsPerCall * (← get).maxCallDepth
  if levels < -(pow2 31 : Int) || (pow2 31 : Int) ≤ levels then throw (.host .overflow)
  if levels < 1 then throw (.host .noDepth)
  if levels < Walker.leastLevels then throw (.host .endless)

/-- What a step does, apart from counting and from its faults. -/
def stepTop : Run Unit := do
  makeRoom
  modify unwind
  match (← get).callStack with
  | [] => modify fun i => { i with status := .completed }
  | a :: _ =>
    match a.loopForm with
    | some _ => stepLoop a
    | none =>
      match a.statements[a.index]? with
      | none => pure ()
      | some s =>
        highlight s.line
        setLine s.line
        stepStatement s

def finished (i : Interpreter) : Bool := i.program.isNone || i.status.isFinal

/-- The line of the innermost activation that has something left to run. -/
def currentLine (i : Interpreter) : Option Int := (i.callStack.findSome? Activation.nextLine?).join

def failStep (i : Interpreter) (fault : Fault) : Driven StepReport × Interpreter :=
  let fault := fault.withLine i.line
  (.ok { done := true, highlightLine := fault.line },
    { i with toEngine := i.toEngine.fail fault })

/-- Ends a step that went well: the program is complete when no activation is left. -/
def endStep (i : Interpreter) : Driven StepReport × Interpreter :=
  let i := i.unwind
  let status := if i.callStack.isEmpty && i.status = .running then .completed else i.status
  let report := { i.report with done := status = .completed }
  (.ok report, { i with status, report })

def step (i : Interpreter) : Driven StepReport × Interpreter :=
  if i.finished then (.ok .ended, i)
  else
    let i := { i with status := .running, stepCount := i.stepCount + 1 }
    if i.maxSteps < i.stepCount then
      (.ok .ended, { i with toEngine := i.toEngine.fail (i.tooManySteps i.currentLine) })
    else match stepTop { i with report := {}, begun := 0 } with
      | (.ok (), i) => i.endStep
      | (.error (.fault fault), i) => i.failStep fault
      | (.error (.host .endless), i) => i.failStep depthExceeded
      | (.error (.host failure), i) => (.error failure, i)

/-- Steps until a step is done, acts or pauses, at most `fuel` times. -/
def runFor : Nat → Interpreter → Driven StepReport × Interpreter
  | 0, i => (.ok .ended, i)
  | fuel + 1, i =>
    match i.step with
    | (.error failure, i) => (.error failure, i)
    | (.ok report, i) =>
      if report.done || report.acted || i.status = .paused then (.ok report, i)
      else runFor fuel i

def run (i : Interpreter) : Driven StepReport × Interpreter := i.runFor i.stepsLeft

/-- Steps until a step is done, at most `fuel` times, and collects the reports of the steps that
acted. -/
def runAllFor : Nat → List StepReport → Interpreter → Driven (List StepReport) × Interpreter
  | 0, acted, i => (.ok acted.reverse, i)
  | fuel + 1, acted, i =>
    match i.step with
    | (.error failure, i) => (.error failure, i)
    | (.ok report, i) =>
      let acted := if report.acted then report :: acted else acted
      if report.done then (.ok acted.reverse, i) else runAllFor fuel acted i

def runAll (i : Interpreter) : Driven (List StepReport) × Interpreter := i.runAllFor i.stepsLeft []

/-- Back to the start of the program. -/
def reset (i : Interpreter) : Interpreter :=
  let i := { i with toEngine := i.toEngine.rewind, line := none, callDepth := 0 }
  match i.program with
  | none => { i with callStack := [], functions := [], classes := [] }
  | some program =>
    { i with
      callStack := [{ statements := program.main }]
      functions := program.functions
      classes := program.classes.map fun (name, (_, methods)) =>
        (name, Walker.methodTable methods) }

end Interpreter

end Stepwise
