import Stepwise.Bindings
import Stepwise.Tree.Parse
import Stepwise.Tree.Node

/-!
Libraries that a host writes in the language itself. Their statements run in front of a learner's
program and have no positions, so that lines and breakpoints are those of the learner's text alone.
-/
namespace Stepwise

structure LibraryFunction where
  name : String
  chineseName : String
  code : String
  description : String := ""
  params : List String := []
  category : String := "helper"
  deriving Inhabited

structure Library where
  name : String
  functions : Bindings LibraryFunction := []
  /-- Constants and setup, in front of the functions. -/
  preamble : String := ""
  /-- Further code behind the functions. -/
  aliases : String := ""
  deriving Inhabited

namespace Library

/-- The name under which faults in a library are reported. -/
def sourceName : String := "<stdlib>"

/-- Adds a function; one of the same name gives up its place to it. -/
def add (library : Library) (f : LibraryFunction) : Library :=
  { library with functions := library.functions.put f.name f }

def byCategory (library : Library) (category : String) : List LibraryFunction :=
  (library.functions.map Prod.snd).filter fun f => f.category = category

/-- A text without the line breaks around it. -/
def trimBreaks (s : String) : String :=
  let isBreak (c : Char) : Bool := c = '\n'
  String.ofList ((s.toList.dropWhile isBreak).reverse.dropWhile isBreak).reverse

/-- The source of a library: its parts with an empty line between them. -/
def source (library : Library) : String :=
  let preamble := if library.preamble.isEmpty then [] else [library.preamble]
  let aliases := if library.aliases.isEmpty then [] else [trimBreaks library.aliases]
  String.intercalate "\n\n" (preamble ++ library.functions.map (fun f => f.2.code) ++ aliases)

end Library

/-- Number of lines of a source; the empty source has one. -/
def lineCount (source : String) : Nat := (Text.splitAtChar '\n' [] source.toList).length

/-- Reads a program with the statements of a library in front of it. Faults of the program come
first. -/
def Program.parseWith (source : String) (library : Option Library) : Except Failure Program := do
  let program ← Program.parse source unnamedSource
  match library with
  | none => return program
  | some library =>
    let front ← Program.parse library.source Library.sourceName
    return { body := front.stripped.body ++ program.body }

end Stepwise
