import Stepwise.Machine.Debug
import Stepwise.Walker.Step

/-!
Either engine, driven in one way.
-/
namespace Stepwise

inductive EngineKind where
  | machine
  | walker
  deriving DecidableEq, Inhabited

inductive Runner where
  | machine (m : Machine)
  | walker (w : Walker)
  deriving Inhabited

namespace Runner

def new (kind : EngineKind) (settings : Settings) : Runner :=
  match kind with
  | .machine => .machine (.new settings)
  | .walker => .walker (.new settings)

def engine : Runner → Engine
  | .machine m => m.toEngine
  | .walker w => w.toEngine

def mapEngine (f : Engine → Engine) : Runner → Runner
  | .machine m => .machine { m with toEngine := f m.toEngine }
  | .walker w => .walker { w with toEngine := f w.toEngine }

/-- Loads a program; the machine needs it compiled. -/
def load (runner : Runner) (program : Program) (filename : String) : Except Failure Runner :=
  match runner with
  | .machine m => do return .machine (m.load (← program.compile filename))
  | .walker w => do return .walker (← w.load program)

def reset : Runner → Runner
  | .machine m => .machine m.reset
  | .walker w => .walker w.reset

def configure (settings : Settings) : Runner → Runner
  | .machine m => .machine (m.configure settings)
  | .walker w => .walker (w.configure settings)

def step : Runner → Driven StepReport × Runner
  | .machine m => let (result, m) := m.step; (result, .machine m)
  | .walker w => let (result, w) := w.step; (result, .walker w)

def run : Runner → Driven StepReport × Runner
  | .machine m => let (result, m) := m.run; (result, .machine m)
  | .walker w => let (result, w) := w.run; (result, .walker w)

def runAll : Runner → Driven (List StepReport) × Runner
  | .machine m => let (result, m) := m.runAll; (result, .machine m)
  | .walker w => let (result, w) := w.runAll; (result, .walker w)

def currentLine : Runner → Option Int
  | .machine m => m.currentLine
  | .walker w => w.currentLine

/-- Whether the engine can say on which line it is. -/
def locate : Runner → Driven Unit
  | .machine m => m.locate
  | .walker _ => .ok ()

def callStack : Runner → List CallView
  | .machine m => m.callStack
  | .walker w => w.callStack

/-- The variables in scope between steps. -/
def scope : Runner → Bindings Value
  | .machine m => m.scope
  | .walker w => w.globals

/-- Whether the variables in scope can be shown. -/
def checkScope : Runner → Driven Unit
  | .machine m => m.checkScope
  | .walker _ => .ok ()

/-- Whether the variables of all calls can be shown. -/
def checkCalls : Runner → Driven Unit
  | .machine m => m.checkCalls
  | .walker _ => .ok ()

/-- Number of calls under way between steps. -/
def callDepth : Runner → Nat
  | .machine m => m.frames.length
  | .walker _ => 0

end Runner

end Stepwise
