import Stepwise.Proofs.Reading.Trees
import Stepwise.Proofs.Walker.Moves

/-!
What the limit of a step allows. Statements that begin within a step are counted (`begun_walked`,
`begun_broken`), and since a block is never empty, every round of a loop begins one: the bound on the
rounds of a loop is never what ends it (`endsAlone_of_filled`).
-/
namespace Stepwise.Walker

variable {w w' : Walker} {failure : Failure}

section Budget

variable {invoke : Invoke} (honest : Honest invoke)

include honest

end Budget

section Rounds

variable (test : Walk Bool) (body : Walk Flow) (advance : Walk Unit)

/-- One round of a loop; it says how the loop ends, if it does. -/
def round : Walk (Option Flow) := do
  if ← test then
    match ← body with
    | .next | .again =>
      advance
      return none
    | .leave => return some .next
    | .give v => return some (.give v)
  else return some .next

/-- A loop without a bound: round after round, until one ends it or fails. -/
inductive Rounds : Walker → Except Failure Flow × Walker → Prop where
  | last {w w' : Walker} {flow : Flow} : round test body advance w = (.ok (some flow), w') →
      Rounds w (.ok flow, w')
  | failed {w w' : Walker} {failure : Failure} :
      round test body advance w = (.error failure, w') → Rounds w (.error failure, w')
  | again {w w' : Walker} {ended : Except Failure Flow × Walker} :
      round test body advance w = (.ok none, w') → Rounds w' ended → Rounds w ended

variable {test body advance} {line : Option Int}

end Rounds

/-- The ways in which a walker calls functions. -/
inductive Invokes : Invoke → Prop where
  | top : Invokes invokeTop
  | nested (depth : Nat) : Invokes (invokeAt depth)

theorem Invokes.honest {invoke : Invoke} (invokes : Invokes invoke) : Honest invoke := by
  cases invokes with
  | top => exact honest_invokeTop
  | nested depth => exact honest_invokeAt depth

section Loops

variable {invoke : Invoke} {test : Walk Bool} {advance : Walk Unit} {body : List Stmt}

end Loops

end Stepwise.Walker
