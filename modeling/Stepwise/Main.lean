import Stepwise.Command
import Stepwise.Command.Arguments

/-!
The program itself: reads a file, carries out a command and prints what it shows. A wrong use exits
with 2, a reported fault and a failure that nobody handled with 1.
-/
namespace Stepwise.Command

def usage : String :=
  "usage: stepwise [--version] (run | check | ast | tokens | disasm | debug) [options] FILE"

def readSource (command : Command) : IO (Option String) :=
  match command.fileName? with
  | none => return some ""
  | some file => do
    match ← (IO.FS.readFile file).toBaseIO with
    | .ok text => return some text
    | .error _ => return none

def failureText : Failure → String
  | .fault fault => fault.summary
  | .host (.handler message) => message
  | .host _ => "The program was stopped by its surroundings"

end Stepwise.Command

open Stepwise in
def main (args : List String) : IO UInt32 := do
  match Command.ofArgs? args with
  | none =>
    IO.eprintln Command.usage
    return 2
  | some command =>
    match ← command.readSource with
    | none =>
      IO.eprintln Command.usage
      return 2
    | some text =>
      let outcome := command.perform text
      for shown in outcome.shown do
        IO.println shown.plain
      match outcome.ending with
      | .fine => return 0
      | .reported => return 1
      | .unhandled failure =>
        IO.eprintln (Command.failureText failure)
        return 1
