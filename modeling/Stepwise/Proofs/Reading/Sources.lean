import Stepwise.Proofs.Code.Placement
import Stepwise.Proofs.Reading.Tokens
import Stepwise.Tree.Parse
import Stepwise.Walker

/-!
From a text to what runs, for the concrete programs that a result is shown at: a check of the code is a
check of what reading and compiling gave. The walker has no code; it is given the program.
-/
namespace Stepwise

/-- Reads a program from the characters of its text. -/
def Program.ofChars (cs : List Char) (filename : String) : Except Failure Program := do
  ofTokens (← Token.ofChars cs filename) filename

theorem Program.parse_eq_ofChars {source : String} {cs : List Char} (chars : source = String.ofList cs)
    (filename : String) : parse source filename = ofChars cs filename := by
  rw [parse, Token.tokenize_eq_ofChars chars, ofChars]

namespace Machine

/-- Reads and compiles a text. -/
def codeOf (source : String) : Except Failure Code := do
  let program ← Program.parse source unnamedSource
  program.compile unnamedSource

theorem codeOf_eq_ofChars (source : String) {cs : List Char} (chars : source = String.ofList cs) :
    codeOf source = (do (← Program.ofChars cs unnamedSource).compile unnamedSource) := by
  rw [codeOf, Program.parse_eq_ofChars chars]

theorem exists_codeOf {source : String} {check : Code → Bool}
    (checked : (codeOf source).toOption.any check = true) :
    ∃ program code, Program.parse source unnamedSource = .ok program ∧
      program.compile unnamedSource = .ok code ∧ check code = true := by
  obtain ⟨code, result, checked⟩ := exists_ok checked
  obtain ⟨program, parsed, compiled⟩ := bind_eq_ok.mp result
  exact ⟨program, code, parsed, compiled, checked⟩

end Machine

namespace Walker

/-- Reads a text and loads the program. -/
def reading (w : Walker) (source : String) : Except Failure Walker := do
  let program ← Program.parse source unnamedSource
  w.load program

theorem reading_eq_ofChars (w : Walker) (source : String) {cs : List Char}
    (chars : source = String.ofList cs) :
    w.reading source = (do w.load (← Program.ofChars cs unnamedSource)) := by
  rw [reading, Program.parse_eq_ofChars chars]

theorem exists_reading {w : Walker} {source : String} {check : Walker → Bool}
    (checked : (w.reading source).toOption.any check = true) :
    ∃ program loaded, Program.parse source unnamedSource = .ok program ∧
      w.load program = .ok loaded ∧ check loaded = true := by
  obtain ⟨loaded, result, checked⟩ := exists_ok checked
  obtain ⟨program, parsed, done⟩ := bind_eq_ok.mp result
  exact ⟨program, loaded, parsed, done, checked⟩

end Walker

/-- Reads a text for both engines. -/
def readForBoth (w : Walker) (source : String) : Except Failure (Program × Code × Walker) := do
  let program ← Program.parse source unnamedSource
  return (program, ← program.compile unnamedSource, ← w.load program)

theorem readForBoth_eq_ofChars (w : Walker) (source : String) {cs : List Char}
    (chars : source = String.ofList cs) : readForBoth w source = (do
      let program ← Program.ofChars cs unnamedSource
      return (program, ← program.compile unnamedSource, ← w.load program)) := by
  rw [readForBoth, Program.parse_eq_ofChars chars]

theorem exists_readForBoth {w : Walker} {source : String} {check : Program × Code × Walker → Bool}
    (checked : (readForBoth w source).toOption.any check = true) :
    ∃ program code loaded, Program.parse source unnamedSource = .ok program ∧
      program.compile unnamedSource = .ok code ∧ w.load program = .ok loaded ∧
      check (program, code, loaded) = true := by
  obtain ⟨_, result, checked⟩ := exists_ok checked
  obtain ⟨program, parsed, result⟩ := bind_eq_ok.mp result
  obtain ⟨code, compiled, result⟩ := bind_eq_ok.mp result
  obtain ⟨loaded, done, result⟩ := bind_eq_ok.mp result
  cases result
  exact ⟨program, code, loaded, parsed, compiled, done, checked⟩

end Stepwise
