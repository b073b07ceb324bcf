import Stepwise.Machine.Step
import Stepwise.Tree.Parse

/-!
Debugging aids of the stack machine: breakpoints, watches, undoing steps, and evaluating an
expression in the middle of a run.
-/
namespace Stepwise

namespace Machine

def hasBreakpoint (m : Machine) (line : Int) : Bool := m.breakpoints.contains line

def addBreakpoint (m : Machine) (line : Int) : Machine :=
  if m.hasBreakpoint line then m else { m with breakpoints := line :: m.breakpoints }

def removeBreakpoint (m : Machine) (line : Int) : Machine :=
  { m with breakpoints := m.breakpoints.filter (· ≠ line) }

/-- Sets or removes a breakpoint, and says whether it is there now. -/
def toggleBreakpoint (m : Machine) (line : Int) : Bool × Machine :=
  if m.hasBreakpoint line then (false, m.removeBreakpoint line) else (true, m.addBreakpoint line)

def clearBreakpoints (m : Machine) : Machine := { m with breakpoints := [] }

def breakpointLines (m : Machine) : List Int := m.breakpoints.mergeSort fun a b => a ≤ b

/-- A breakpoint on the line about to be executed, unless that line is `previous`. -/
def stopsAfter (m : Machine) (previous : Option Int) : Bool :=
  match m.currentLine with
  | none => false
  | some line => some line ≠ previous && m.hasBreakpoint line

/-- The line that a step is compared with: coming back from a call counts as the same visit of the
line that made it. -/
def lineBefore (before after : Machine) : Option Int :=
  if after.frames.length < before.frames.length then
    before.frames.head?.bind CallFrame.callLine
  else before.currentLine

/-- Steps until a line with a breakpoint is entered, a step is done or a step acts, at most `fuel`
times. The answer says whether a breakpoint was hit. -/
def seekFor : Nat → Machine → Driven (StepReport × Bool) × Machine
  | 0, m => (.ok (.ended, false), m)
  | fuel + 1, m =>
    if m.isAstray then (.error .outOfBounds, m)
    else match m.step with
    | (.error failure, next) => (.error failure, next)
    | (.ok report, next) =>
      if next.isAstray then (.error .outOfBounds, next)
      else if !report.done && next.stopsAfter (lineBefore m next) then
        (.ok (report, true), { next with status := .paused })
      else if report.done || report.acted then (.ok (report, false), next)
      else seekFor fuel next

/-- Runs to the next breakpoint. A program that has not started may stop before its first step. -/
def runUntilBreakpoint (m : Machine) : Driven (StepReport × Bool) × Machine :=
  if m.status = .ready && m.stopsAfter none then
    (.ok ({ highlightLine := m.currentLine }, true), { m with status := .paused })
  else m.seekFor m.stepsLeft

def resumed (m : Machine) : Machine := { m with toEngine := m.toEngine.resume }

def paused (m : Machine) : Machine := { m with toEngine := m.toEngine.pause }

/-- Resumes at a breakpoint and runs to the next one. -/
def continueRun (m : Machine) : Driven (StepReport × Bool) × Machine := m.resumed.runUntilBreakpoint

def addWatch (m : Machine) (name : Name) : Machine :=
  if m.watches.any fun watched => watched.key = name.key then m
  else { m with watches := m.watches ++ [name] }

def removeWatch (m : Machine) (name : Name) : Machine :=
  { m with watches := m.watches.filter fun watched => watched.key ≠ name.key }

def clearWatches (m : Machine) : Machine := { m with watches := [] }

/-- The watched names with their values; a name that is not defined has the value null. -/
def watchedValues (m : Machine) : Bindings Value :=
  let scope := m.scope
  m.watches.map fun name => (name, (scope.get? name).getD .null)

end Machine

/-- The values a frame holds. -/
def CallFrame.roots (frame : CallFrame) : List Value :=
  frame.locals.map Prod.snd ++ frame.receiver.toList

def CallFrame.rename (rename : Ref → Ref) (frame : CallFrame) : CallFrame :=
  { frame with
    locals := frame.locals.rename rename
    receiver := frame.receiver.map (Value.rename rename) }

/-- The values a snapshot holds. -/
def Snapshot.roots (s : Snapshot) : List Value :=
  s.stack ++ s.globals.map Prod.snd ++ s.frames.flatMap CallFrame.roots

namespace Machine

/-- Goes back to a snapshot. What it refers to is copied behind the present cells in one piece, so
that values shared between scopes stay shared while nothing else changes under the host. -/
def restore (m : Machine) (s : Snapshot) : Machine :=
  let (rename, heap) := m.heap.graft s.heap s.roots
  { m with
    pc := s.pc
    stack := s.stack.map (Value.rename rename)
    globals := s.globals.rename rename
    frames := s.frames.map (CallFrame.rename rename)
    classes := s.classes
    stepCount := s.stepCount
    world := { m.world with heap, output := m.world.output.take s.outputLength }
    status := .paused
    fault := none }

/-- Undoes the latest step that is remembered. -/
def stepBack (m : Machine) : Bool × Machine :=
  match m.history with
  | [] => (false, m)
  | s :: older => (true, restore { m with history := older } s)

def clearHistory (m : Machine) : Machine := { m with history := [] }

/-- Advances until the status is final. Nothing comes of it when an instruction fails in the host or
the steps run out. -/
def finishWithin : Nat → Machine → Option Value × Machine
  | 0, m => if m.status = .completed then (m.stack.head?, m) else (none, m)
  | fuel + 1, m =>
    if m.status = .completed then (m.stack.head?, m)
    else if m.status = .error then (none, m)
    else match advance { m with status := .running } with
      | (.error _, m) => (none, m)
      | (.ok _, m) => finishWithin fuel m

/-- The name of the source of an expression. -/
def expressionSource : String := "<expression>"

/-- Reads and compiles the source of an expression. -/
def compileExpression (source : String) : Except Failure Code := do
  let program ← Program.parse source expressionSource
  program.compile expressionSource true

/-- The machine with another code at its start. The steps of an evaluation are not counted here, and
the history stays. -/
def probe (m : Machine) (code : Code) : Machine :=
  { m with
    code := some code
    pc := 0
    stack := []
    frames := []
    classes := []
    status := .ready
    fault := none
    stepCount := 0 }

/-- Puts back the program and the place in it that a machine had before. Lines printed since then are
cut off again. -/
def reinstate (m before : Machine) : Machine :=
  { m with
    code := before.code
    pc := before.pc
    stack := before.stack
    frames := before.frames
    classes := before.classes
    status := before.status
    fault := before.fault
    stepCount := before.stepCount
    report := before.report
    world := { m.world with output := m.world.output.take before.world.output.size } }

/-- Evaluates a source against the global variables, in place of the program under way. A source
that cannot be evaluated has the value null. -/
def evaluate (m : Machine) (source : String) : Value × Machine :=
  let (result, ended) :=
    match compileExpression source with
    | .error _ => (none, m)
    | .ok code => (m.probe code).finishWithin m.evaluationSteps.toNat
  (result.getD .null, ended.reinstate m)

/-- The instruction about to be executed, in words. -/
def currentInstruction (m : Machine) : Except Failure (Option String) :=
  m.current?.mapM (Instruction.describe m.heap)

end Machine

end Stepwise
