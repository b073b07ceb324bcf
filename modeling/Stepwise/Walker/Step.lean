import Stepwise.Walker.Eval

/-!
One step of the tree walker: a statement of the innermost frame, a statement in the body of its open
loop, or the transition of that loop to the next round.

A step first asks the host for levels of its stack, more of them the more calls may nest, and cannot
start if there is no such stack. In all other respects the stack of the host is taken as unbounded, in
this engine and in the machine: programs, expressions and values may nest to any depth, and nothing is
said of a run that would come to the host's own limit.
-/
namespace Stepwise.Walker

/-- Calls made from the main program may nest up to the limit. -/
def invokeTop : Invoke := fun f args bound => do
  invokeAt (← get).maxCallDepth.toNat f args bound

def modifyFrame (f : Frame → Frame) : Walk Unit :=
  modify fun w =>
    match w.frames with
    | [] => w
    | frame :: outer => { w with frames := f frame :: outer }

def openLoop (kind : LoopKind) (line : Option Int) (body : List Stmt) : Walk Unit :=
  modifyFrame fun frame => { frame with loop := some { kind, line, body } }

def enterBranch (body : List Stmt) : Walk Unit :=
  unless body.isEmpty do
    modify fun w => { w with frames := { statements := body } :: w.frames }

/-- Returning at the top level ends the program. -/
def finishProgram : Walk Unit :=
  modify fun w => { w with frames := [], status := .completed }

def highlight (line : Option Int) : Walk Unit :=
  modify fun w => { w with report := { w.report with highlightLine := line } }

/-- The first of some further branches whose test holds, or else the last resort. -/
def chooseElif (otherwise : Option (List Stmt)) : List Elif → Walk (List Stmt)
  | [] => return otherwise.getD []
  | e :: rest => do
    if ← test invokeTop e.test then return e.body else chooseElif otherwise rest

/-- Runs one statement of the innermost frame. A loop is left open on the frame. -/
def stepStatement : Stmt → Walk Unit
  | .branch _ condition body elifs otherwise => do
    modifyFrame Frame.next
    if ← test invokeTop condition then enterBranch body
    else enterBranch (← chooseElif otherwise elifs)
  | .loopTimes pos count body => do
    let limit ← countOf invokeTop pos.line count
    if limit = 0 then modifyFrame Frame.next
    else openLoop (.times 0 limit) pos.line body
  | .loopWhile pos condition body => do
    if ← test invokeTop condition then openLoop (.whileTrue condition) pos.line body
    else modifyFrame Frame.next
  | .loopRange pos var start stop step body => do
    let (first, last, step) ← boundsOf invokeTop pos.line start stop step
    store (← var.name) first
    if ← inRange first last step then openLoop (.range var last step) pos.line body
    else modifyFrame Frame.next
  | .loopEach pos var items body => do
    match ← itemsOf invokeTop pos.line items with
    | [] => modifyFrame Frame.next
    | item :: rest =>
      store (← var.name) item
      openLoop (.each var (item :: rest) 0) pos.line body
  | .give _ value => do
    let _ ← evalOption invokeTop value
    finishProgram
  | s => do
    let _ ← exec invokeTop false s
    modifyFrame Frame.next

/-- Goes on with an open loop: keeps its new state, or closes it. -/
def nextRound (kind : LoopKind) (again : Bool) : Walk Unit :=
  modifyFrame fun frame =>
    if again then
      { frame with loop := frame.loop.map fun loop => { loop with kind, position := 0 } }
    else frame.closeLoop

def advanceLoop : LoopKind → Walk Unit
  | .times counter limit => nextRound (.times (counter + 1) limit) (counter + 1 < limit)
  | .whileTrue condition => do
    nextRound (.whileTrue condition) (← test invokeTop condition)
  | .range var stop step => do
    let v ← advanceRange (← var.name) step
    nextRound (.range var stop step) (← inRange v stop step)
  | .each var items index => do
    match items[index + 1]? with
    | none => nextRound (.each var items index) false
    | some item =>
      store (← var.name) item
      nextRound (.each var items (index + 1)) true

def setPosition (position : Nat) : Walk Unit :=
  modifyFrame fun frame =>
    { frame with loop := frame.loop.map fun loop => { loop with position } }

/-- Runs the next statement in the body of an open loop, or starts its next round. -/
def stepLoop (loop : OpenLoop) : Walk Unit := do
  match loop.body[loop.position]? with
  | some s =>
    setPosition (loop.position + 1)
    highlight s.line
    match ← exec invokeTop true s with
    | .next => pure ()
    | .leave => modifyFrame Frame.closeLoop
    | .again => setPosition loop.body.length
    | .give _ => finishProgram
  | none =>
    highlight loop.line
    setLine loop.line
    advanceLoop loop.kind

/-- Drops the innermost frames that have nothing left to run. -/
def unwind (w : Walker) : Walker := { w with frames := w.frames.dropWhile Frame.finished }

/-- Levels that the host has for a step without nested calls, and those that each nested call
needs. -/
def ownLevels : Int := 1000

def levelsPerCall : Int := 30

/-- Levels that a step takes to start. It asks for 10, 40, 70 and so on, of which 10 are too few and
40 are enough, so any number between them means the same. -/
def leastLevels : Int := 12

/-- Makes room for the nested calls that are allowed. The number of levels has to be positive and to
fit into a word; with too few of them a step cannot even start. -/
def makeRoom : Walk Unit := do
  let levels := ownLevels + levelsPerCall * (← get).maxCallDepth
  if levels < -(pow2 31 : Int) || (pow2 31 : Int) ≤ levels then throw (.host .overflow)
  if levels < 1 then throw (.host .noDepth)
  if levels < leastLevels then throw (.host .endless)

/-- What a step does, apart from counting and from its faults. -/
def stepFrame : Walk Unit := do
  makeRoom
  modify unwind
  match (← get).frames with
  | [] => modify fun w => { w with status := .completed }
  | frame :: _ =>
    match frame.loop with
    | some loop => stepLoop loop
    | none =>
      match frame.statements[frame.index]? with
      | none => pure ()
      | some s =>
        highlight s.line
        setLine s.line
        stepStatement s

/-- Ends a step in a fault. -/
def failStep (w : Walker) (fault : Fault) : Driven StepReport × Walker :=
  let fault := fault.withLine w.line
  (.ok { done := true, highlightLine := fault.line },
    { w with toEngine := w.toEngine.fail fault })

/-- Ends a step that went well: the program is complete when no frame is left. -/
def endStep (w : Walker) : Driven StepReport × Walker :=
  let w := w.unwind
  let status := if w.frames.isEmpty && w.status = .running then .completed else w.status
  let report := { w.report with done := status = .completed }
  (.ok report, { w with status, report })

/-- One step. A walker that is finished stays as it is; otherwise the step counts towards the limit,
which it may exceed. A value that contains itself is a fault here, like a call that never ends. -/
def step (w : Walker) : Driven StepReport × Walker :=
  if w.finished then (.ok .ended, w)
  else
    let w := { w with status := .running, stepCount := w.stepCount + 1 }
    if w.maxSteps < w.stepCount then
      (.ok .ended, { w with toEngine := w.toEngine.fail (w.tooManySteps w.currentLine) })
    else match stepFrame { w with report := {}, begun := 0 } with
      | (.ok (), w) => w.endStep
      | (.error (.fault fault), w) => w.failStep fault
      | (.error (.host .endless), w) => w.failStep depthExceeded
      | (.error (.host failure), w) => (.error failure, w)

/-- Steps until a step is done, acts or pauses, at most `fuel` times. -/
def runFor : Nat → Walker → Driven StepReport × Walker
  | 0, w => (.ok .ended, w)
  | fuel + 1, w =>
    match w.step with
    | (.error failure, w) => (.error failure, w)
    | (.ok report, w) =>
      if report.done || report.acted || w.status = .paused then (.ok report, w)
      else runFor fuel w

def run (w : Walker) : Driven StepReport × Walker := w.runFor w.stepsLeft

/-- Steps until a step is done, at most `fuel` times, and collects the reports of the steps that
acted. -/
def runAllFor : Nat → List StepReport → Walker → Driven (List StepReport) × Walker
  | 0, acted, w => (.ok acted.reverse, w)
  | fuel + 1, acted, w =>
    match w.step with
    | (.error failure, w) => (.error failure, w)
    | (.ok report, w) =>
      let acted := if report.acted then report :: acted else acted
      if report.done then (.ok acted.reverse, w) else runAllFor fuel acted w

def runAll (w : Walker) : Driven (List StepReport) × Walker := w.runAllFor w.stepsLeft []

end Stepwise.Walker
