import Stepwise.Code.Compile
import Stepwise.Engine

/-!
The stack machine: its state and what can be seen of it between steps.
-/
namespace Stepwise

structure CallFrame where
  returnAddress : Int
  functionName : String
  callLine : Option Int := none
  locals : Bindings Value := []
  /-- Height of the operand stack below the arguments. -/
  stackBase : Int := 0
  isConstructor : Bool := false
  receiver : Option Value := none
  deriving Inhabited

/-- What a step may change, kept so that the step can be undone. -/
structure Snapshot where
  pc : Int
  stack : List Value
  globals : Bindings Value
  frames : List CallFrame
  classes : Bindings (Bindings Int)
  stepCount : Nat
  outputLength : Nat
  heap : Heap
  deriving Inhabited

/-- The top of the stack, the innermost frame and the latest snapshot stand first. -/
structure Machine extends Engine where
  code : Option Code := none
  pc : Int := 0
  stack : List Value := []
  frames : List CallFrame := []
  classes : Bindings (Bindings Int) := []
  history : List Snapshot := []
  historyCap : Nat
  evaluationSteps : Int
  breakpoints : List Int := []
  watches : List Name := []
  deriving Inhabited

namespace Machine

def usualMaxSteps : Int := 100000

/-- At least one snapshot is kept. -/
def capOf (size : Int) : Nat := max 1 size.toNat

def new (settings : Settings) : Machine where
  maxSteps := settings.stepLimit usualMaxSteps
  maxCallDepth := settings.callDepth
  historyCap := capOf settings.historySize
  evaluationSteps := settings.evaluationSteps

def setHistorySize (m : Machine) (size : Int) : Machine :=
  { m with historyCap := capOf size, history := m.history.take (capOf size) }

/-- Puts new limits on a machine in the middle of its work. -/
def configure (m : Machine) (settings : Settings) : Machine :=
  { m.setHistorySize settings.historySize with
    maxSteps := settings.stepLimit m.maxSteps
    maxCallDepth := settings.callDepth
    evaluationSteps := settings.evaluationSteps }

/-- Back to the start of the program. Breakpoints and watches stay. -/
def reset (m : Machine) : Machine :=
  { m with
    toEngine := m.toEngine.rewind
    pc := 0
    stack := []
    frames := []
    classes := []
    history := [] }

def load (m : Machine) (code : Code) : Machine := reset { m with code := some code }

def finished (m : Machine) : Bool := m.code.isNone || m.status.isFinal

/-- The instruction about to be executed; none behind the last one. -/
def current? (m : Machine) : Option Instruction :=
  m.code.bind fun code => if code.size ≤ m.pc then none else code.at? m.pc

def currentLine (m : Machine) : Option Int := m.current?.bind Instruction.line

/-- Whether a jump led to an address before all code. -/
def isAstray (m : Machine) : Bool :=
  m.code.any fun code => m.pc < -(code.size : Int)

/-- A machine that is astray cannot say on which line it is. -/
def locate (m : Machine) : Driven Unit := if m.isAstray then .error .outOfBounds else .ok ()

/-- Loops over ranges and lists keep their bounds in variables that are not shown. -/
def isHidden : Name → Bool
  | .text name =>
    Code.rangeMark.toList.isPrefixOf name.toList || Code.eachMark.toList.isPrefixOf name.toList
  | _ => false

def visible (bindings : Bindings Value) : Bindings Value :=
  bindings.filter fun binding => !isHidden binding.1

/-- What is hidden is told by the start of its name, which only a text has. -/
def checkNames (bindings : Bindings Value) : Driven Unit :=
  if bindings.names.all Scalar.isText then .ok () else .error .notText

/-- The variables in scope: those of the innermost call stand over the global ones. -/
def scope (m : Machine) : Bindings Value :=
  visible (m.globals.update (m.frames.head?.elim [] CallFrame.locals))

/-- Whether the variables in scope can be shown. -/
def checkScope (m : Machine) : Driven Unit :=
  checkNames (m.globals ++ m.frames.head?.elim [] CallFrame.locals)

/-- Each caller stands on the line of the call it waits for. -/
def callViews : List CallFrame → Option Int → List CallView
  | [], _ => []
  | frame :: callers, line =>
    callViews callers frame.callLine ++
      [{ name := frame.functionName
         line := shownLine [line, frame.callLine]
         locals := visible frame.locals }]

def callStack (m : Machine) : List CallView :=
  let outermost := (m.frames.getLast?.map CallFrame.callLine).getD m.currentLine
  { name := "<main>"
    line := shownLine [outermost]
    locals := if m.frames.isEmpty then visible m.globals else [] } ::
    callViews m.frames m.currentLine

/-- Whether the variables of all calls can be shown. -/
def checkCalls (m : Machine) : Driven Unit :=
  if m.frames.isEmpty then checkNames m.globals
  else m.frames.reverse.forM fun frame => checkNames frame.locals

end Machine

end Stepwise
