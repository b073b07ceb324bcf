import Stepwise.Proofs.Machine.Steps
import Stepwise.Proofs.Renaming.Instructions

/-!
Steps do not depend on how cells are numbered. Two machines in the same state under other numbers
step alike and stay so: `lockstep`.
-/
namespace Stepwise

/-- Code without references that draws numbers only where there may be chance. -/
def Code.Plain (chance : Prop) (code : Code) : Prop := ∀ i ∈ code.instructions, i.Plain chance

theorem Code.Plain.at {chance : Prop} {code : Code} (plain : code.Plain chance) {address : Int}
    {i : Instruction} (found : code.at? address = some i) : i.Plain chance := by
  simp only [Code.at?] at found
  generalize (if address < 0 then address + code.size else address) = position at found
  split at found
  · cases found
  · exact plain i (Array.mem_of_getElem? found)

namespace Machine

variable {ρ : Ref → Ref} {chance : Prop} {x x' m : Machine}

/-- A machine between steps, without what the next step sets anew. -/
def settled (m : Machine) : Machine := { m with status := .running, report := {} }

/-- Two machines between steps, in the same state under other numbers. -/
structure Pairs (ρ : Ref → Ref) (x m : Machine) : Prop where
  state : Embeds ρ x.settled m.settled
  status : m.status = x.status ∨ m.status.isFinal = false ∧ x.status.isFinal = false

/-- How a machine may differ from what it was before a step. -/
structure Advances (chance : Prop) (x x' : Machine) : Prop where
  world : x.world.Grows chance x'.world
  code : x'.code = x.code
  maxSteps : x'.maxSteps = x.maxSteps
  maxCallDepth : x'.maxCallDepth = x.maxCallDepth
  stepCount : x'.stepCount = x.stepCount + 1
  historyCap : x'.historyCap = x.historyCap
  history : x'.history = (x.snapshot :: x.history).take x.historyCap
  fault : x.fault = none → x'.fault = none ∨ x'.status = .error
  host : (∀ name, x.host.find? name = none) → x'.host = x.host

/-- Two steps that end alike. A step is done when its machine is. -/
def Stepped (ρ : Ref → Ref) (chance : Prop) (x : Machine) :
    Driven StepReport × Machine → Driven StepReport × Machine → Prop
  | (.ok report, x'), (.ok report', m') =>
    Pairs ρ x' m' ∧ Advances chance x x' ∧ report.done = x'.status.isFinal ∧
      report'.done = m'.status.isFinal
  | (.error failure, x'), (.error failure', m') =>
    failure = failure' ∧ Pairs ρ x' m' ∧ Advances chance x x'
  | _, _ => False

theorem Embeds.pairs (embeds : Embeds ρ x m) : Pairs ρ x m :=
  ⟨{ embeds with status := rfl, report := rfl }, .inl embeds.status⟩

namespace Pairs

theorem code (pairs : Pairs ρ x m) : m.code = x.code := pairs.state.code

theorem pc (pairs : Pairs ρ x m) : m.pc = x.pc := pairs.state.pc

theorem stepCount (pairs : Pairs ρ x m) : m.stepCount = x.stepCount := pairs.state.stepCount

theorem maxSteps (pairs : Pairs ρ x m) : m.maxSteps = x.maxSteps := pairs.state.maxSteps

theorem isFinal (pairs : Pairs ρ x m) : m.status.isFinal = x.status.isFinal := by
  rcases pairs.status with same | ⟨open', open_⟩
  · rw [same]
  · rw [open', open_]

theorem finished (pairs : Pairs ρ x m) : m.finished = x.finished := by
  rw [Machine.finished, Machine.finished, pairs.code, pairs.isFinal]

theorem isAstray (pairs : Pairs ρ x m) : m.isAstray = x.isAstray := by
  rw [Machine.isAstray, Machine.isAstray, pairs.code, pairs.pc]

theorem currentLine (pairs : Pairs ρ x m) : m.currentLine = x.currentLine := by
  rw [Machine.currentLine, Machine.currentLine, current?, current?, pairs.code, pairs.pc]

theorem begun (pairs : Pairs ρ x m) : Pairs ρ x.begun m.begun :=
  ⟨{ pairs.state with stepCount := congrArg (· + 1) pairs.stepCount }, .inl rfl⟩

theorem fetched (pairs : Pairs ρ x m) (i : Instruction) : Embeds ρ (x.fetched i) (m.fetched i) :=
  { pairs.state with
    stepCount := congrArg (· + 1) pairs.stepCount, pc := congrArg (· + 1) pairs.pc, report := rfl }

theorem stoppedAt (pairs : Pairs ρ x m) (pc : Int) (fault : Fault) :
    Pairs ρ (x.stoppedAt pc fault) (m.stoppedAt pc fault) :=
  ⟨{ pairs.state with pc := rfl, fault := rfl }, .inl rfl⟩

end Pairs

theorem advances_begun (x : Machine) : Advances chance x x.begun :=
  ⟨.refl _, rfl, rfl, rfl, rfl, rfl, rfl, .inl, fun _ => rfl⟩

theorem Advances.stoppedAt (advances : Advances chance x x') (pc : Int) (fault : Fault) :
    Advances chance x (x'.stoppedAt pc fault) :=
  { advances with fault := fun _ => .inr rfl }

theorem advances_of_after {i : Instruction} (after : (x.fetched i).After chance x') :
    Advances chance x x' where
  world := after.world
  code := congrArg Fixed.code after.fixed
  maxSteps := congrArg Fixed.maxSteps after.fixed
  maxCallDepth := congrArg Fixed.maxCallDepth after.fixed
  stepCount := congrArg Fixed.stepCount after.fixed
  historyCap := congrArg Fixed.historyCap after.fixed
  history := congrArg Fixed.history after.fixed
  fault := by
    intro clean
    have kept : x'.fault = x.fault := congrArg Fixed.fault after.fixed
    exact .inl (kept.trans clean)
  host := after.host

theorem step_eq (unfinished : m.finished = false) :
    m.step =
      if m.maxSteps < (m.stepCount + 1 : Nat) then
        if m.isAstray then (.error .outOfBounds, m.begun)
        else (.ok .ended, m.begun.stoppedAt m.pc (m.tooManySteps m.currentLine))
      else m.begun.advance := by
  rw [step, if_neg (by simp [unfinished])]
  rfl

theorem advanceBy_eq (m : Machine) (i : Instruction) :
    m.begun.advanceBy i =
      match execute i (m.fetched i) with
      | (.ok (), next) => (.ok next.report, next)
      | (.error (.fault fault), next) =>
        (.ok { done := true, highlightLine := i.line },
          next.stoppedAt m.pc (fault.withLine i.line))
      | (.error (.host failure), next) => (.error failure, next) := rfl

theorem lockstep_advanceBy (pairs : Pairs ρ x m) {i : Instruction} (plain : i.Plain chance) :
    Stepped ρ chance x (x.begun.advanceBy i) (m.begun.advanceBy i) := by
  have executed := mirrored_execute (pairs.fetched i) plain
  rw [advanceBy_eq, advanceBy_eq, pairs.pc]
  unfold Mirrored at executed
  generalize execute i (x.fetched i) = result at executed
  generalize execute i (m.fetched i) = result' at executed
  rcases result with ⟨failure | _, x'⟩ <;> rcases result' with ⟨failure' | _, m'⟩
  · obtain ⟨rfl, embeds, after⟩ := executed
    have advances := advances_of_after after
    cases failure with
    | fault fault =>
      exact ⟨embeds.pairs.stoppedAt _ _, advances.stoppedAt _ _, rfl, rfl⟩
    | host failure => exact ⟨rfl, embeds.pairs, advances⟩
  · exact executed.elim
  · exact executed.elim
  · obtain ⟨embeds, after, -⟩ := executed
    have done : x'.report.done = x'.status.isFinal := after.done rfl
    refine ⟨embeds.pairs, advances_of_after after, done, ?_⟩
    rw [embeds.report, embeds.status]
    exact done

/-- Machines in the same state under other numbers step alike. -/
theorem lockstep (pairs : Pairs ρ x m) (unfinished : x.finished = false)
    (plain : ∀ code, x.code = some code → code.Plain chance) :
    Stepped ρ chance x x.step m.step := by
  have unfinished' : m.finished = false := by rw [pairs.finished, unfinished]
  rw [step_eq unfinished, step_eq unfinished', pairs.maxSteps, pairs.stepCount, pairs.isAstray,
    pairs.currentLine, pairs.pc]
  split
  next =>
    split
    next => exact ⟨rfl, pairs.begun, advances_begun x⟩
    next =>
      have limit : m.toEngine.tooManySteps = x.toEngine.tooManySteps := by
        funext line
        rw [Engine.tooManySteps, Engine.tooManySteps, pairs.maxSteps]
      rw [limit]
      exact ⟨pairs.begun.stoppedAt _ _, (advances_begun x).stoppedAt _ _, rfl, rfl⟩
  next =>
    have loaded : m.begun.code = x.begun.code := pairs.code
    have place : m.begun.pc = x.begun.pc := pairs.pc
    unfold advance
    rw [loaded, place]
    split
    next empty =>
      have empty : x.code = none := empty
      simp [finished, empty] at unfinished
    next code here =>
      split
      next =>
        refine ⟨⟨{ pairs.begun.state with code := rfl, pc := rfl }, .inl rfl⟩, ?_, rfl, rfl⟩
        exact { advances_begun x with fault := .inl }
      next =>
        split
        next => exact ⟨rfl, pairs.begun, advances_begun x⟩
        next i found => exact lockstep_advanceBy pairs ((plain code here).at found)

end Machine

end Stepwise
