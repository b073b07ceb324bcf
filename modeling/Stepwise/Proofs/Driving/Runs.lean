import Stepwise.Machine.Debug
import Stepwise.Proofs.Driving.Courses
import Stepwise.Proofs.Host.Calls
import Stepwise.Proofs.Walker.Steps

/-!
The runs of both engines are drives: the run that gives the host its turn (`exists_run`), the run to
the end (`exists_runAll`) and the search for the next breakpoint (`exists_seek`).
-/
namespace Stepwise

namespace Walker

variable {w w' : Walker}

/-- What a step keeps of an engine besides its state. -/
theorem Walked.limits (walked : Walked w w') : w'.stepCount = w.stepCount ∧
    w'.maxSteps = w.maxSteps ∧ w'.maxCallDepth = w.maxCallDepth := by
  induction walked with
  | still still => exact ⟨still.stepCount, still.maxSteps, still.maxCallDepth⟩
  | begun | completed => exact ⟨rfl, rfl, rfl⟩
  | @asked w name args v engine called =>
    have spares := Engine.spares_call w.toEngine name args
    rw [called] at spares
    exact ⟨spares.stepCount, spares.maxSteps, spares.maxCallDepth⟩
  | trans _ _ first rest =>
    exact ⟨rest.1.trans first.1, rest.2.1.trans first.2.1, rest.2.2.trans first.2.2⟩

/-- A step that is not done leaves one step less, whatever the walker runs in it. -/
theorem dwindles_step : Dwindles Walker.step fun w => w.stepsLeft where
  pos _ := Nat.succ_pos _
  less w report next stepped undone := by
    cases steps_of_eq stepped with
    | ended | exhausted | stopped => cases undone
    | @went next goes done =>
      obtain ⟨count, limit, -⟩ := (walks_stepFrame.ok done).limits
      have count : next.stepCount = w.stepCount + 1 := count
      have limit : next.maxSteps = w.maxSteps := limit
      have within := goes.2
      show (w.maxSteps - w.stepCount).toNat + 1 = (next.maxSteps - next.stepCount).toNat + 1 + 1
      rw [limit, count]
      omega

theorem runFor_eq (fuel : Nat) (w : Walker) :
    w.runFor fuel = driveFor Walker.step (atTurn fun w => w.status) fuel w := by
  induction fuel generalizing w with
  | zero => rfl
  | succ fuel ih =>
    unfold runFor driveFor
    rcases w.step with ⟨failure | report, next⟩
    · rfl
    · dsimp only
      rw [ih]
      rfl

theorem runAllFor_eq (fuel : Nat) (acted : List StepReport) (w : Walker) :
    w.runAllFor fuel acted = gatherFor Walker.step fuel acted w := by
  induction fuel generalizing acted w with
  | zero => rfl
  | succ fuel ih =>
    unfold runAllFor gatherFor
    rcases w.step with ⟨failure | report, next⟩
    · rfl
    · dsimp only
      rw [ih]

/-- A run that gives the host its turn is a drive. -/
theorem exists_run (w : Walker) : ∃ before last,
    trail Walker.step (atTurn fun w => w.status) w.stepsLeft w = before ++ [last] ∧
      before.length < w.stepsLeft ∧ Course Walker.step (atTurn fun w => w.status) w before last ∧
      w.run = last.step := by
  obtain ⟨before, last, steps, short, course⟩ :=
    exists_course (s := w) dwindles_step (sane_atTurn _) (Nat.le_refl _)
  exact ⟨before, last, steps, short, course, (runFor_eq _ w).trans (course.driveFor short)⟩

/-- A run to the end is a drive. -/
theorem exists_runAll (w : Walker) : ∃ before last,
    trail Walker.step atEnd w.stepsLeft w = before ++ [last] ∧ before.length < w.stepsLeft ∧
      Course Walker.step atEnd w before last ∧
      w.runAll = (last.step.1.map fun _ => (before ++ [last]).filterMap (actedReport? Walker.step),
        last.step.2) := by
  obtain ⟨before, last, steps, short, course⟩ :=
    exists_course (s := w) dwindles_step sane_atEnd (Nat.le_refl _)
  exact ⟨before, last, steps, short, course,
    (runAllFor_eq _ [] w).trans (course.gatherFor short [])⟩

end Walker

namespace Machine

variable {m : Machine}

/-- A step that is not done leaves one step less, whatever the machine executes. -/
theorem dwindles_step : Dwindles Machine.step fun m => m.stepsLeft where
  pos _ := Nat.succ_pos _
  less m report next stepped undone := by
    cases steps_of_eq stepped with
    | ended | exhausted | behind | faulted => cases undone
    | @executed i _ goes _ done =>
      have spares := (spares_execute i (m.fetched i)).engine
      rw [done] at spares
      have count : next.stepCount = m.stepCount + 1 := spares.stepCount
      have limit : next.maxSteps = m.maxSteps := spares.maxSteps
      have within := goes.2
      rw [Engine.stepsLeft, Engine.stepsLeft, limit, count]
      omega

theorem runFor_eq (fuel : Nat) (m : Machine) :
    m.runFor fuel = driveFor Machine.step (atTurn fun m => m.status) fuel m := by
  induction fuel generalizing m with
  | zero => rfl
  | succ fuel ih =>
    unfold runFor driveFor
    rcases m.step with ⟨failure | report, next⟩
    · rfl
    · dsimp only
      rw [ih]
      rfl

theorem runAllFor_eq (fuel : Nat) (acted : List StepReport) (m : Machine) :
    m.runAllFor fuel acted = gatherFor Machine.step fuel acted m := by
  induction fuel generalizing acted m with
  | zero => rfl
  | succ fuel ih =>
    unfold runAllFor gatherFor
    rcases m.step with ⟨failure | report, next⟩
    · rfl
    · dsimp only
      rw [ih]

/-- A run to the next breakpoint stops where the program is over, behind a command, at a breakpoint,
and where the machine cannot say on which line it is. -/
def atBreak (m : Machine) (report : StepReport) (next : Machine) : Bool :=
  next.isAstray || report.done || report.acted || next.stopsAfter (lineBefore m next)

theorem sane_atBreak : Sane atBreak := fun _ _ _ done => by simp [atBreak, done]

/-- What a run to the next breakpoint answers behind its last step, and where it leads. -/
def landing (m : Machine) : Driven (StepReport × Bool) × Machine :=
  match m.step with
  | (.error failure, next) => (.error failure, next)
  | (.ok report, next) =>
    if next.isAstray then (.error .outOfBounds, next)
    else if !report.done && next.stopsAfter (lineBefore m next) then
      (.ok (report, true), { next with status := .paused })
    else (.ok (report, false), next)

theorem seekFor_eq {last : Machine} {before : List Machine}
    (course : Course Machine.step atBreak m before last) (short : before.length < fuel)
    (placed : m.isAstray = false) : m.seekFor fuel = last.landing := by
  induction course generalizing fuel with
  | @last m stop =>
    obtain ⟨fuel, rfl⟩ := Nat.exists_eq_add_of_lt short
    unfold Machine.seekFor landing
    rw [placed, if_neg Bool.false_ne_true]
    rcases stepped : m.step with ⟨failure | report, next⟩
    · rfl
    · have stop := stop report next stepped
      dsimp only
      split
      · rfl
      next there =>
        split
        · rfl
        next past =>
          refine if_pos ?_
          cases isOver : report.done with
          | true => rfl
          | false =>
            rw [isOver, Bool.not_false, Bool.true_and] at past
            simpa [atBreak, there, isOver, past] using stop
  | @more m next last report before stepped going _ ih =>
    obtain ⟨fuel, rfl⟩ := Nat.exists_eq_add_of_lt short
    simp only [atBreak, Bool.or_eq_false_iff] at going
    obtain ⟨⟨⟨there, undone⟩, silent⟩, passed⟩ := going
    unfold Machine.seekFor
    rw [placed, if_neg Bool.false_ne_true, stepped]
    simp only [there, undone, silent, passed, Bool.not_false, Bool.and_false, Bool.or_false,
      Bool.false_eq_true, if_false]
    exact ih (by rw [List.length_cons] at *; omega) there

/-- A run that gives the host its turn is a drive. -/
theorem exists_run (m : Machine) : ∃ before last,
    trail Machine.step (atTurn fun m => m.status) m.stepsLeft m = before ++ [last] ∧
      before.length < m.stepsLeft ∧ Course Machine.step (atTurn fun m => m.status) m before last ∧
      m.run = last.step := by
  obtain ⟨before, last, steps, short, course⟩ :=
    exists_course (s := m) dwindles_step (sane_atTurn _) (Nat.le_refl _)
  exact ⟨before, last, steps, short, course, (runFor_eq _ m).trans (course.driveFor short)⟩

/-- A run to the end is a drive. -/
theorem exists_runAll (m : Machine) : ∃ before last,
    trail Machine.step atEnd m.stepsLeft m = before ++ [last] ∧ before.length < m.stepsLeft ∧
      Course Machine.step atEnd m before last ∧
      m.runAll = (last.step.1.map fun _ => (before ++ [last]).filterMap (actedReport? Machine.step),
        last.step.2) := by
  obtain ⟨before, last, steps, short, course⟩ :=
    exists_course (s := m) dwindles_step sane_atEnd (Nat.le_refl _)
  exact ⟨before, last, steps, short, course,
    (runAllFor_eq _ [] m).trans (course.gatherFor short [])⟩

/-- The search for the next breakpoint is a drive, from wherever the machine can say on which line
it is. -/
theorem exists_seek (placed : m.isAstray = false) : ∃ before last,
    trail Machine.step atBreak m.stepsLeft m = before ++ [last] ∧ before.length < m.stepsLeft ∧
      Course Machine.step atBreak m before last ∧ m.seekFor m.stepsLeft = last.landing := by
  obtain ⟨before, last, steps, short, course⟩ :=
    exists_course (s := m) dwindles_step sane_atBreak (Nat.le_refl _)
  exact ⟨before, last, steps, short, course, seekFor_eq course short placed⟩

end Machine

end Stepwise
