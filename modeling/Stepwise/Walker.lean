import Stepwise.Code.Compile
import Stepwise.Engine

/-!
The tree walker: its state between steps. The main program and each branch entered at the level
where statements are stepped have a frame. The outermost loop of a frame stays open between steps;
everything inside it, and every call, runs to its end within a step.
-/
namespace Stepwise

/-- How an open loop goes on. -/
inductive LoopKind where
  | times (counter limit : Nat)
  | whileTrue (test : Expr)
  | range (var : Constant) (stop step : Value)
  | each (var : Constant) (items : List Value) (index : Nat)
  deriving Inhabited

def LoopKind.text : LoopKind → String
  | .times _ _ => "repeat"
  | .whileTrue _ => "while"
  | .range _ _ _ => "for"
  | .each _ _ _ => "for-each"

structure OpenLoop where
  kind : LoopKind
  /-- Line of the loop statement. -/
  line : Option Int
  body : List Stmt
  /-- Position in the body of the next statement. -/
  position : Nat := 0
  deriving Inhabited

structure Frame where
  statements : List Stmt
  /-- Position of the next statement, or of the one whose loop is open. -/
  index : Nat := 0
  loop : Option OpenLoop := none
  deriving Inhabited

namespace Frame

def finished (frame : Frame) : Bool := frame.loop.isNone && frame.statements.length ≤ frame.index

def next (frame : Frame) : Frame := { frame with index := frame.index + 1 }

/-- Closes the loop and moves behind its statement. -/
def closeLoop (frame : Frame) : Frame := { frame with loop := none, index := frame.index + 1 }

/-- The statement a frame would run next; none for a frame that is finished. -/
def nextLine? (frame : Frame) : Option (Option Int) :=
  match frame.loop with
  | some loop => some ((loop.body[loop.position]?).elim loop.line Stmt.line)
  | none => (frame.statements[frame.index]?).map Stmt.line

end Frame

/-- The innermost frame stands first. -/
structure Walker extends Engine where
  program : Option Program := none
  frames : List Frame := []
  functions : Bindings Func := []
  classes : Bindings (Bindings Func) := []
  /-- Variables of the call under way; none outside of calls. -/
  locals : Option (Bindings Value) := none
  /-- Line of the statement under way. -/
  line : Option Int := none
  /-- Statements begun in the step under way. -/
  begun : Nat := 0
  deriving Inhabited

namespace Walker

def usualMaxSteps : Int := 10000

def new (settings : Settings) : Walker where
  maxSteps := settings.stepLimit usualMaxSteps
  maxCallDepth := settings.callDepth

def configure (w : Walker) (settings : Settings) : Walker :=
  { w with maxSteps := settings.stepLimit w.maxSteps, maxCallDepth := settings.callDepth }

/-- The methods of a class; a later definition replaces an earlier one. -/
def methodTable (methods : List Func) : Bindings Func :=
  Bindings.ofList (methods.filterMap fun method =>
    method.name.scalar?.map fun name => (name, method))

/-- Back to the start of the program. -/
def reset (w : Walker) : Walker :=
  let w := { w with toEngine := w.toEngine.rewind, locals := none, line := none }
  match w.program with
  | none => { w with frames := [], functions := [], classes := [] }
  | some program =>
    { w with
      frames := [{ statements := program.main }]
      functions := program.functions
      classes := program.classes.map fun (name, (_, methods)) => (name, methodTable methods) }

/-- Loads a program. Functions, classes and methods have to have names. -/
def load (w : Walker) (program : Program) : Except Failure Walker := do
  program.checkDefinitions
  program.body.forM fun
    | .defineClass _ _ methods => methods.forM fun method => discard method.name.name
    | _ => return
  return reset { w with program := some program }

def finished (w : Walker) : Bool := w.program.isNone || w.status.isFinal

/-- The line of the innermost frame that has something left to run. -/
def currentLine (w : Walker) : Option Int := (w.frames.findSome? Frame.nextLine?).join

/-- Calls finish within a step, so that between steps only the main program can be seen. -/
def callStack (w : Walker) : List CallView :=
  [{ name := "<main>", line := shownLine [w.currentLine], locals := w.globals }]

end Walker

end Stepwise
