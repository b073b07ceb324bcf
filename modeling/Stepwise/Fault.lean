import Stepwise.Text.Pieces
import Stepwise.Text.Quoted

/-!
What can go wrong. A fault belongs to the program being read, compiled or run and carries a place in
its source and a hint for the learner. A host failure belongs to the surroundings: engines do not
turn it into a fault, they stop in the middle of the step.
-/
namespace Stepwise

/-- The stage that found a fault. -/
inductive Phase where
  | general
  | reading
  | compiling
  | running
  deriving DecidableEq, Inhabited

/-- Compiling only rejects what reading could have rejected, so both have one name. -/
def Phase.kind : Phase → String
  | .general => "error"
  | .reading => "syntax-error"
  | .compiling => "syntax-error"
  | .running => "runtime-error"

/-- The name of a source that is not a file. -/
def unnamedSource : String := "<stdin>"

structure Fault where
  phase : Phase
  message : String
  line : Option Int := none
  column : Option Int := none
  suggestion : Option String := none
  filename : String := unnamedSource
  deriving DecidableEq, Inhabited

namespace Fault

def kind (fault : Fault) : String := fault.phase.kind

/-- One line: the message, and the line number when there is one. -/
def summary (fault : Fault) : String :=
  match fault.line with
  | some line => s!"{fault.message} (line {line})"
  | none => fault.message

def location (fault : Fault) : String :=
  match fault.line, fault.column with
  | some line, some column => s!"{fault.filename}:{line}:{column}"
  | some line, none => s!"{fault.filename}:{line}"
  | none, _ => fault.filename

/-- The lines an excerpt is taken from. -/
def excerptLines (source : String) : List (List Char) :=
  Text.splitAtChar '\n' [] (Text.dropPairedReturns source.toList)

/-- The offending line under its number, and a caret under the column. There is none for a line
that the source does not have. -/
def excerpt (fault : Fault) (source : String) : List String :=
  match fault.line with
  | none => []
  | some line =>
    if source.isEmpty || line < 1 then []
    else match (excerptLines source)[line.toNat - 1]? with
      | none => []
      | some text =>
        let shown := s!"{Text.padLeft 4 line.repr} | {String.ofList text}"
        match fault.column with
        | some column =>
          if 1 ≤ column then
            [shown, "     | " ++ String.ofList (List.replicate (column.toNat - 1) ' ') ++ "^"]
          else [shown]
        | none => [shown]

def hint (fault : Fault) : List String :=
  match fault.suggestion with
  | some suggestion => if suggestion.isEmpty then [] else [s!"  hint: {suggestion}"]
  | none => []

/-- The report shown to a learner: what, where, the source line and the hint. -/
def report (fault : Fault) (source : String) : String :=
  Text.joinLines
    ([s!"{fault.kind}: {fault.message}", s!"  --> {fault.location}"] ++
      fault.excerpt source ++ fault.hint)

/-- A fault of a running program. The engine that meets it fills in the line. -/
def running (message : String) (suggestion : Option String) : Fault :=
  { phase := .running, message, suggestion }

/-- Fills in a line unless the fault has one. -/
def withLine (fault : Fault) (line : Option Int) : Fault :=
  { fault with line := fault.line.or line }

end Fault

/-- Failures of the surroundings. -/
inductive HostFailure where
  /-- A value that contains itself was followed without end. -/
  | endless
  /-- An integer has more digits than are converted. -/
  | digitLimit
  /-- A number is infinite, or beyond all bounds, where a whole number is needed. -/
  | overflow
  /-- A text does not fit into memory. -/
  | noRoom
  /-- Less than one level is left for nested calls. -/
  | noDepth
  /-- An address or position does not exist. -/
  | outOfBounds
  /-- An operand does not have the form its instruction needs. -/
  | malformed
  /-- Something else than a text stands where only texts have a meaning. -/
  | notText
  /-- A value is of a kind that an operation does not take. -/
  | mistyped
  /-- A host handler failed with a message. -/
  | handler (message : String)
  deriving DecidableEq, Inhabited

inductive Failure where
  | fault (fault : Fault)
  | host (failure : HostFailure)
  deriving DecidableEq, Inhabited

/-- A text that has to be written. None is the text of an integer with too many digits. -/
def written : Option String → Except Failure String
  | some text => .ok text
  | none => .error (.host .digitLimit)

/-- Stops with a fault of the running program. -/
def complain {α : Type} (message : String) (suggestion : Option String := none) :
    Except Failure α :=
  .error (.fault (.running message suggestion))

end Stepwise
