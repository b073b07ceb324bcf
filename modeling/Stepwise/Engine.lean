import Stepwise.Builtin
import Stepwise.Host
import Stepwise.Settings

/-!
What the two engines share: the state that a driving loop sees, the report of a step and the calls
that leave the program. One engine runs compiled code, the other walks the tree.
-/
namespace Stepwise

inductive Status where
  | ready
  | running
  | paused
  | completed
  | error
  deriving DecidableEq, Inhabited

def Status.text : Status → String
  | .ready => "ready"
  | .running => "running"
  | .paused => "paused"
  | .completed => "completed"
  | .error => "error"

/-- No step leaves a final status. -/
def Status.isFinal (status : Status) : Bool := status = .completed || status = .error

/-- What a step did, as seen by a driving loop. -/
structure StepReport where
  done : Bool := false
  /-- The command that was called; null without one. -/
  action : Name := .null
  actionArgs : List Value := []
  /-- The sensor that was asked; null without one. -/
  sensorQuery : Name := .null
  highlightLine : Option Int := none
  deriving Inhabited

/-- Notes a call to the host that returned. -/
def StepReport.note (report : StepReport) (role : Role) (name : Name) (args : List Value) :
    StepReport :=
  match role with
  | .command => { report with action := name, actionArgs := args }
  | .sensor => { report with sensorQuery := name }

/-- Whether a step called a command that has a name. -/
def StepReport.acted (report : StepReport) : Bool := !report.action.isNull

/-- A step of a program that is over. -/
def StepReport.ended : StepReport := { done := true }

structure Engine where
  globals : Bindings Value := []
  status : Status := .ready
  fault : Option Fault := none
  stepCount : Nat := 0
  maxSteps : Int
  maxCallDepth : Int
  world : World := {}
  host : Host := {}
  /-- What the step under way has to report. -/
  report : StepReport := {}
  deriving Inhabited

/-- A computation inside a step. A failure keeps the state reached. -/
abbrev Act (σ α : Type) := ExceptT Failure (StateM σ) α

/-- How driving an engine ends: with an answer, or with a failure of the host that left the step. -/
abbrev Driven (α : Type) := Except HostFailure α

def depthExceeded : Fault :=
  .running "Maximum recursion depth exceeded"
    (some "Make sure the recursive function has a case that stops calling itself.")

def undefinedVariable (name : Name) : Fault :=
  .running s!"Variable \"{name}\" is not defined"
    (some s!"Assign a value before using it, for example: {name} = 0")

/-- One level of the calls under way, as shown to a learner. -/
structure CallView where
  name : String
  line : Int
  locals : Bindings Value
  deriving Inhabited

/-- The first of some lines that is there and not zero, or else the first line. -/
def shownLine (lines : List (Option Int)) : Int :=
  (lines.findSome? fun line => line.filter (· ≠ 0)).getD 1

/-- Name of the method that sets up a new instance. -/
def constructorName : String := "__init__"

namespace Engine

def heap (engine : Engine) : Heap := engine.world.heap

def fail (engine : Engine) (fault : Fault) : Engine :=
  { engine with fault := some fault, status := .error }

/-- Only a running program can be paused. -/
def pause (engine : Engine) : Engine :=
  if engine.status = .running then { engine with status := .paused } else engine

def resume (engine : Engine) : Engine :=
  if engine.status = .paused then { engine with status := .running } else engine

def setGlobal (engine : Engine) (name : Name) (value : Value) : Engine :=
  { engine with globals := engine.globals.put name value }

def getGlobal (engine : Engine) (name : Name) : Value := (engine.globals.get? name).getD .null

/-- Clears what belongs to one run. The host's handlers and the heap stay. -/
def rewind (engine : Engine) : Engine :=
  { engine with
    globals := []
    status := .ready
    fault := none
    stepCount := 0
    world := { engine.world with output := #[] } }

def tooManySteps (engine : Engine) (line : Option Int) : Fault :=
  { Fault.running
      s!"Too many steps ({engine.maxSteps}), the program may contain an infinite loop"
      (some "Make sure every loop has a way to finish.") with line }

/-- More steps than this end every run: the last one goes over the limit. -/
def stepsLeft (engine : Engine) : Nat := (engine.maxSteps - engine.stepCount).toNat + 1

def grant (engine : Engine) : Request → Engine
  | .pause => engine.pause
  | .setGlobal name value => engine.setGlobal name value

/-- A handler has replied: the heap is as it left it, and the call is noted. -/
def replied (engine : Engine) (role : Role) (name : Name) (bound : Bound) (args : List Value)
    (reply : Reply) : Engine :=
  { engine with
    world := engine.world.withHeap reply.heap
    host := engine.host.note role name bound args reply.left }

/-- Calls a handler. It is reported only when it returns, and with its list of arguments as it left
it: the list is copied when the handler is done. -/
def callHandler (engine : Engine) (role : Role) (name : Name) (bound : Bound)
    (args : List Value) : Except Failure Value × Engine :=
  let reply := bound.handler bound.earlier args engine.heap
  let engine := reply.requests.foldl grant (engine.replied role name bound args reply)
  match reply.outcome with
  | .ok v => (.ok v, { engine with report := engine.report.note role name reply.left })
  | .error failure => (.error failure, engine)

def callBuiltin (engine : Engine) (name : Name) (args : List Value) :
    Except Failure Value × Engine :=
  match Builtin.call name engine.world args with
  | .ok (v, world) => (.ok v, { engine with world })
  | .error failure => (.error failure, engine)

/-- A call of something that the program does not define: the host's functions come first. -/
def call (engine : Engine) (name : Name) (args : List Value) : Except Failure Value × Engine :=
  match engine.host.find? name with
  | some (role, bound) => engine.callHandler role name bound args
  | none => engine.callBuiltin name args

end Engine

end Stepwise
