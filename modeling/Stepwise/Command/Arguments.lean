import Stepwise.Command
import Stepwise.Decimal.Read

/-!
Reading the words of a command line. The options of a command may stand before or behind its file,
an option takes the next word or what follows an equals sign, and two dashes end the options.
-/
namespace Stepwise.Command

/-- An option and whether it takes a value. -/
structure OptionSpec where
  name : String
  takesValue : Bool

/-- The options and the other words of a command line, in order. -/
structure Words where
  options : List (String × String) := []
  others : List String := []

/-- An option word, split at its first equals sign. -/
def splitOption (word : String) : String × Option String :=
  let cs := word.toList
  match cs.dropWhile (· ≠ '=') with
  | [] => (word, none)
  | _ :: value => (String.ofList (cs.takeWhile (· ≠ '=')), some (String.ofList value))

/-- A dash alone is not an option. -/
def looksLikeOption (word : String) : Bool :=
  match word.toList with
  | '-' :: _ :: _ => true
  | _ => false

def Words.addOption (words : Words) (name value : String) : Words :=
  { words with options := words.options ++ [(name, value)] }

def Words.addOthers (words : Words) (others : List String) : Words :=
  { words with others := words.others ++ others }

/-- Sorts words into options and others. With `mixed`, options may stand behind other words. There
is no result for an option that is unknown, lacks its value or has one too many. -/
def sortWords (specs : List OptionSpec) (mixed : Bool) : Words → List String → Option Words
  | found, [] => some found
  | found, word :: rest =>
    if word = "--" then some (found.addOthers rest)
    else if looksLikeOption word then
      let (name, value) := splitOption word
      match specs.find? fun spec => spec.name = name with
      | none => none
      | some spec =>
        match spec.takesValue, value with
        | true, some value => sortWords specs mixed (found.addOption name value) rest
        | true, none =>
          match rest with
          | [] => none
          | value :: rest => sortWords specs mixed (found.addOption name value) rest
        | false, some _ => none
        | false, none => sortWords specs mixed (found.addOption name "") rest
    else if mixed then sortWords specs mixed (found.addOthers [word]) rest
    else some (found.addOthers (word :: rest))

namespace Words

def all (words : Words) (name : String) : List String :=
  (words.options.filter fun option => option.1 = name).map Prod.snd

/-- The last value counts. -/
def last? (words : Words) (name : String) : Option String := (words.all name).getLast?

def has (words : Words) (name : String) : Bool := !(words.all name).isEmpty

/-- The one word that is not an option. -/
def file? (words : Words) : Option String :=
  match words.others with
  | [file] => some file
  | _ => none

end Words

def engineOption : OptionSpec := ⟨"--engine", true⟩

def maxStepsOption : OptionSpec := ⟨"--max-steps", true⟩

def traceOption : OptionSpec := ⟨"--trace", false⟩

def breakOption : OptionSpec := ⟨"--break", true⟩

def watchOption : OptionSpec := ⟨"--watch", true⟩

def versionOption : OptionSpec := ⟨"--version", false⟩

def debugOption : OptionSpec := ⟨"--debug", false⟩

def engineKind? : String → Option EngineKind
  | "vm" => some .machine
  | "interp" => some .walker
  | _ => none

def number? (word : String) : Option Int := Decimal.readInt? word.toList

def run? (args : List String) : Option Command := do
  let words ← sortWords [engineOption, maxStepsOption, traceOption] true {} args
  let kind ← engineKind? ((words.last? engineOption.name).getD "vm")
  let maxSteps ← match words.last? maxStepsOption.name with
    | none => some none
    | some word => (number? word).map some
  some (.run (← words.file?) kind maxSteps (words.has traceOption.name))

def debug? (args : List String) : Option Command := do
  let words ← sortWords [breakOption, watchOption] true {} args
  let breakpoints ← (words.all breakOption.name).mapM number?
  some (.debug (← words.file?) breakpoints (words.all watchOption.name))

def onFile? (make : String → Command) (args : List String) : Option Command := do
  let words ← sortWords [] true {} args
  return make (← words.file?)

/-- Reads a command line; there is none for a wrong use. -/
def ofArgs? (args : List String) : Option Command := do
  let words ← sortWords [versionOption, debugOption] false {} args
  if words.has versionOption.name then some .version
  else match words.others with
    | "run" :: rest => run? rest
    | "check" :: rest => onFile? .check rest
    | "ast" :: rest => onFile? .tree rest
    | "tokens" :: rest => onFile? .tokens rest
    | "disasm" :: rest => onFile? .listing rest
    | "debug" :: rest => debug? rest
    | _ => none

end Stepwise.Command
