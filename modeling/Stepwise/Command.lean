import Stepwise.Runner
import Stepwise.Settings.Directive
import Stepwise.Text.Terminal
import Stepwise.Tree.View

/-!
The commands of the program's command line, as functions from the text of a file to what is shown.
-/
namespace Stepwise

/-- What a command shows: a plain line, a line with markup, a framed text or a table. -/
inductive Shown where
  | line (text : String)
  | markup (text : String)
  | panel (text title border : String)
  | table (title : String) (columns : List String) (rows : List (List String))
  deriving Inhabited

inductive Command where
  | run (file : String) (kind : EngineKind) (maxSteps : Option Int) (trace : Bool)
  | check (file : String)
  | tree (file : String)
  | tokens (file : String)
  | listing (file : String)
  | debug (file : String) (breakpoints : List Int) (watches : List String)
  | version
  deriving Inhabited

/-- How a command ends: normally, with a reported fault, or with a failure that nobody handled. -/
inductive Ending where
  | fine
  | reported
  | unhandled (failure : Failure)
  deriving Inhabited

structure Outcome where
  shown : List Shown := []
  ending : Ending := .fine
  deriving Inhabited

namespace Command

def fileName? : Command → Option String
  | .run file _ _ _ | .check file | .tree file | .tokens file | .listing file
  | .debug file _ _ => some file
  | .version => none

def versionLine : String := "MiniPython, version 0.1.0"

/-- A line of its own, which may go to a file. -/
def plainLine (text : String) : Shown := .line (Text.withoutSequences text)

def framed (text title border : String) : Shown := .panel (Text.withoutControls text) title border

/-- Shows a fault with the source around it. -/
def report (fault : Fault) (source : String) (before : List Shown) : Outcome :=
  { shown := before ++ [framed (fault.report source) s!"[bold red]{fault.kind}[/bold red]" "red"]
    ending := .reported }

/-- Ends a command that could not go on. -/
def stop (failure : Failure) (source : String) (before : List Shown) : Outcome :=
  match failure with
  | .fault fault => report fault source before
  | .host failure => { shown := before, ending := .unhandled (.host failure) }

/-- The lines printed since `printed` of them were shown. -/
def newLines (engine : Engine) (printed : Nat) : List Shown :=
  (engine.world.output.toList.drop printed).map plainLine

/-- Reads, loads and gives the program to an engine of the asked kind. -/
def prepare (file source : String) (kind : EngineKind) (settings : Settings) :
    Except Failure Runner := do
  let program ← Program.parse source file
  (Runner.new kind settings).load program file

/-- Shows the fault a program ended with, or the last words. -/
def conclude (engine : Engine) (file source : String) (shown lastWords : List Shown) : Outcome :=
  match engine.status, engine.fault with
  | .error, some fault => report { fault with phase := .running, filename := file } source shown
  | _, _ => { shown := shown ++ lastWords }

/-- What a step shows: the lines it printed and, when asked for, the line it was on. -/
def showStep (trace : Bool) (before after : Engine) (result : StepReport) : List Shown :=
  let mark := match result.highlightLine with
    | some line =>
      let count := after.stepCount
      if trace then [Shown.markup s!"[dim]step {count}: line {line}[/dim]"] else []
    | none => []
  newLines after before.world.output.size ++ mark

/-- Steps a program to its end, at most `fuel` times; `shown` is what was shown before, the latest
first. -/
def stepThrough (file source : String) (trace : Bool) : Nat → List Shown → Runner → Outcome
  | 0, shown, runner => conclude runner.engine file source shown.reverse []
  | fuel + 1, shown, runner =>
    match runner.step with
    | (.error failure, _) => { shown := shown.reverse, ending := .unhandled (.host failure) }
    | (.ok result, next) =>
      let shown := (showStep trace runner.engine next.engine result).reverse ++ shown
      if result.done then conclude next.engine file source shown.reverse []
      else stepThrough file source trace fuel shown next

/-- The first line shown at a breakpoint. -/
def stopLine (m : Machine) : Shown :=
  let line := Token.placeText m.currentLine
  .markup s!"\n[bold yellow]Breakpoint[/bold yellow] at line {line}"

/-- What is shown at a breakpoint: the watched variables, if any, and the calls under way. -/
def stopTables (m : Machine) : Except Failure (List Shown) := do
  let rows ← m.watchedValues.mapM fun (name, v) => do
    return [name.plain, Text.withoutControls (← Value.toText m.heap v)]
  let watches := if rows.isEmpty then [] else [Shown.table "Watches" ["Name", "Value"] rows]
  let calls := m.callStack.reverse.map fun view =>
    [Text.withoutControls view.name, view.line.repr]
  return watches ++ [.table "Call stack" ["Frame", "Line"] calls]

def finished : List Shown := [.markup "[bold green]Program finished[/bold green]"]

/-- Goes from breakpoint to breakpoint, at most `fuel` times. The machine has just run, `printed` of
its lines were shown before, and `shown` is all that was shown, the latest first. -/
def debugFrom (file source : String) :
    Nat → List Shown → Nat → Driven (StepReport × Bool) × Machine → Outcome
  | _, shown, _, (.error failure, _) =>
    { shown := shown.reverse, ending := .unhandled (.host failure) }
  | fuel, shown, printed, (.ok (_, hit), m) =>
    let shown := (newLines m.toEngine printed).reverse ++ shown
    let shown := if hit then stopLine m :: shown else shown
    match if hit then stopTables m else .ok [] with
    | .error failure => { shown := shown.reverse, ending := .unhandled failure }
    | .ok tables =>
      let shown := tables.reverse ++ shown
      match fuel with
      | 0 => conclude m.toEngine file source shown.reverse finished
      | fuel + 1 =>
        if m.status.isFinal then conclude m.toEngine file source shown.reverse finished
        else debugFrom file source fuel shown m.world.output.size m.continueRun

def runFile (file source : String) (kind : EngineKind) (maxSteps : Option Int) (trace : Bool) :
    Outcome :=
  let prepared : Except Failure Runner := do
    let settings ← (Settings.ofSource source {}).mapError Failure.host
    let settings := match maxSteps with
      | some n => if n = 0 then settings else { settings with maxSteps := some n }
      | none => settings
    prepare file source kind settings
  match prepared with
  | .error failure => stop failure source []
  | .ok runner => stepThrough file source trace runner.engine.stepsLeft [] runner

/-- Between two stops at least one step is taken, which bounds the stops. -/
def debugFile (file source : String) (breakpoints : List Int) (watches : List String) : Outcome :=
  let prepared : Except Failure Machine := do
    let settings ← (Settings.ofSource source {}).mapError Failure.host
    let program ← Program.parse source file
    let code ← program.compile file
    return (Machine.new settings).load code
  match prepared with
  | .error failure => stop failure source []
  | .ok m =>
    let m := breakpoints.foldl Machine.addBreakpoint m
    let m := watches.foldl (fun m name => m.addWatch name) m
    debugFrom file source (m.stepsLeft + 1) [] 0 m.runUntilBreakpoint

def compiled (file source : String) : Except Failure Code := do
  let program ← Program.parse source file
  program.compile file

def checkFile (file source : String) : Outcome :=
  match compiled file source with
  | .error failure => stop failure source []
  | .ok _ => { shown := [.markup "[bold green]Syntax is valid![/bold green]"] }

def showTree (file source : String) : Outcome :=
  match Program.parse source file with
  | .error failure => stop failure source []
  | .ok program =>
    match written program.outline.render? with
    | .error failure => stop failure source []
    | .ok text =>
      { shown := [framed text "[bold blue]Abstract Syntax Tree[/bold blue]" "blue"] }

def tokenRow (token : Token) : List String :=
  [token.kind.name, Text.withoutControls token.literal.literal, Token.placeText token.line,
   Token.placeText token.column]

/-- The tokens before the end of the text. -/
def showTokens (file source : String) : Outcome :=
  match Token.scan source file with
  | (_, some failure) => stop failure source []
  | (found, none) =>
    let rows := (found.filter fun token => token.kind ≠ .eof).map tokenRow
    { shown := [.table "Tokens" ["Type", "Literal", "Line", "Column"] rows] }

def showListing (file source : String) : Outcome :=
  match (compiled file source).bind (Code.listing {}) with
  | .error failure => stop failure source []
  | .ok text => { shown := [plainLine text] }

/-- Carries out a command on the text of its file, in which every kind of line break counts as
one. -/
def perform (command : Command) (text : String) : Outcome :=
  let source := String.ofList (Text.normalizeBreaks text.toList)
  match command with
  | .run file kind maxSteps trace => runFile file source kind maxSteps trace
  | .check file => checkFile file source
  | .tree file => showTree file source
  | .tokens file => showTokens file source
  | .listing file => showListing file source
  | .debug file breakpoints watches => debugFile file source breakpoints watches
  | .version => { shown := [.line versionLine] }

end Command

/-- A text without its markup, which stands in square brackets. -/
def withoutMarkup (inside : Bool) : List Char → List Char
  | [] => []
  | c :: cs =>
    if inside then withoutMarkup (c ≠ ']') cs
    else if c = '[' then withoutMarkup true cs
    else c :: withoutMarkup false cs

def plainMarkup (s : String) : String := String.ofList (withoutMarkup false s.toList)

def Shown.plain : Shown → String
  | .line text => text
  | .markup text => plainMarkup text
  | .panel text title _ => Text.joinLines [plainMarkup title, text]
  | .table title columns rows =>
    Text.joinLines (title :: (columns :: rows).map (String.intercalate "  "))

end Stepwise
