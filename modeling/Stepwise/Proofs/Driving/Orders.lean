import Stepwise.Proofs.Driving.Runs
import Stepwise.Proofs.Machine.Moves

/-!
What the host can order an engine to do. Each order takes some steps, possibly none, and then stops
somewhere: at the machine of its last step, or at a breakpoint.
-/
namespace Stepwise

namespace Machine

/-- The orders that drive a machine on, and those that look at it or set up where to stop. -/
inductive Order where
  | step
  | run
  | runAll
  | runUntilBreakpoint
  | continueRun
  | pause
  | resume
  | addBreakpoint (line : Int)
  | removeBreakpoint (line : Int)
  | toggleBreakpoint (line : Int)
  | clearBreakpoints
  | addWatch (name : Name)
  | removeWatch (name : Name)
  | clearWatches
  /-- Reading off whatever the machine shows. -/
  | look
  deriving Inhabited

def obey (order : Order) (m : Machine) : Machine :=
  match order with
  | .step => m.step.2
  | .run => m.run.2
  | .runAll => m.runAll.2
  | .runUntilBreakpoint => m.runUntilBreakpoint.2
  | .continueRun => m.continueRun.2
  | .pause => m.paused
  | .resume => m.resumed
  | .addBreakpoint line => m.addBreakpoint line
  | .removeBreakpoint line => m.removeBreakpoint line
  | .toggleBreakpoint line => (m.toggleBreakpoint line).2
  | .clearBreakpoints => m.clearBreakpoints
  | .addWatch name => m.addWatch name
  | .removeWatch name => m.removeWatch name
  | .clearWatches => m.clearWatches
  | .look => m

/-- The machines on which a run to the next breakpoint takes its steps: none if it stops before the
first one. -/
def soughtSteps (m : Machine) : List Machine :=
  if (m.status = .ready && m.stopsAfter none) || m.isAstray then []
  else trail Machine.step atBreak m.stepsLeft m

/-- The machines on which an order takes steps, one after the other. -/
def stepsOf (order : Order) (m : Machine) : List Machine :=
  match order with
  | .step => [m]
  | .run => trail Machine.step (atTurn fun m => m.status) m.stepsLeft m
  | .runAll => trail Machine.step atEnd m.stepsLeft m
  | .runUntilBreakpoint => m.soughtSteps
  | .continueRun => m.resumed.soughtSteps
  | _ => []

/-- Whether an order stops at a breakpoint. -/
def hits (order : Order) (m : Machine) : Bool :=
  let hit : Driven (StepReport × Bool) → Bool
    | .ok (_, hit) => hit
    | .error _ => false
  match order with
  | .runUntilBreakpoint => hit m.runUntilBreakpoint.1
  | .continueRun => hit m.continueRun.1
  | _ => false

variable {m : Machine}

/-- Orders that neither take a step nor change the status. -/
def Order.isEdit : Order → Bool
  | .step | .run | .runAll | .runUntilBreakpoint | .continueRun | .pause | .resume => false
  | _ => true

theorem stepsOf_edit {order : Order} (edit : order.isEdit = true) : m.stepsOf order = [] := by
  cases order with
  | step | run | runAll | runUntilBreakpoint | continueRun => cases edit
  | _ => rfl

/-- All that such an order changes are breakpoints and watches. -/
theorem obey_edit {order : Order} (edit : order.isEdit = true) :
    ∃ breakpoints watches, m.obey order = m.watching breakpoints watches := by
  cases order with
  | step | run | runAll | runUntilBreakpoint | continueRun | pause | resume => cases edit
  | addBreakpoint line =>
    show ∃ _ _, m.addBreakpoint line = _
    unfold addBreakpoint
    split
    · exact ⟨m.breakpoints, m.watches, rfl⟩
    · exact ⟨_, m.watches, rfl⟩
  | toggleBreakpoint line =>
    show ∃ _ _, (m.toggleBreakpoint line).2 = _
    unfold toggleBreakpoint
    split
    · exact ⟨_, m.watches, rfl⟩
    next absent =>
      unfold addBreakpoint
      rw [if_neg absent]
      exact ⟨_, m.watches, rfl⟩
  | addWatch name =>
    show ∃ _ _, m.addWatch name = _
    unfold addWatch
    split
    · exact ⟨m.breakpoints, m.watches, rfl⟩
    · exact ⟨m.breakpoints, _, rfl⟩
  | removeBreakpoint | clearBreakpoints => exact ⟨_, m.watches, rfl⟩
  | removeWatch | clearWatches => exact ⟨m.breakpoints, _, rfl⟩
  | look => exact ⟨m.breakpoints, m.watches, rfl⟩

/-- How a run to the next breakpoint goes: it does not take a step, or it ends with its last one. -/
inductive Seeks (m : Machine) : Driven (StepReport × Bool) × Machine → List Machine → Prop where
  /-- The first line has a breakpoint. -/
  | atOnce : m.status = .ready →
      Seeks m (.ok ({ highlightLine := m.currentLine }, true), { m with status := .paused }) []
  | lost : m.isAstray = true → Seeks m (.error .outOfBounds, m) []
  | went {before : List Machine} {last : Machine} : before.length < m.stepsLeft →
      Course Machine.step atBreak m before last → Seeks m last.landing (before ++ [last])

theorem seeks (m : Machine) : Seeks m m.runUntilBreakpoint m.soughtSteps := by
  unfold runUntilBreakpoint soughtSteps
  by_cases first : (m.status = .ready && m.stopsAfter none) = true
  · rw [if_pos first, first, Bool.true_or, if_pos rfl]
    exact .atOnce (by simpa using (Bool.and_eq_true_iff.mp first).1)
  · rw [if_neg first, Bool.eq_false_iff.mpr first, Bool.false_or]
    cases placed : m.isAstray with
    | true =>
      have lost : m.seekFor m.stepsLeft = (.error .outOfBounds, m) := by
        show m.seekFor ((m.maxSteps - m.stepCount).toNat + 1) = _
        unfold seekFor
        rw [placed, if_pos rfl]
      rw [lost, if_pos rfl]
      exact .lost placed
    | false =>
      obtain ⟨before, last, steps, short, course, ends⟩ := exists_seek placed
      rw [ends, if_neg Bool.false_ne_true, steps]
      exact .went short course

/-- Where a run to the next breakpoint leads behind its last step: it pauses there if it hits one,
which happens only where the program goes on. -/
theorem landing_cases (m : Machine) : m.landing.2 = m.step.2 ∨
    ∃ report, m.step.1 = .ok report ∧ report.done = false ∧
      m.landing = (.ok (report, true), { m.step.2 with status := .paused }) := by
  unfold landing
  rcases m.step with ⟨failure | report, next⟩
  · exact .inl rfl
  · dsimp only
    split
    · exact .inl rfl
    · split
      next stops =>
        simp only [Bool.and_eq_true, Bool.not_eq_true'] at stops
        exact .inr ⟨report, rfl, stops.1, rfl⟩
      · exact .inl rfl

end Machine

namespace Walker

/-- The orders that drive a walker on, and those that look at it. -/
inductive Order where
  | step
  | run
  | runAll
  | pause
  | resume
  /-- Reading off whatever the walker shows. -/
  | look
  deriving Inhabited

def resumed (w : Walker) : Walker := { w with toEngine := w.toEngine.resume }

def paused (w : Walker) : Walker := { w with toEngine := w.toEngine.pause }

def obey (order : Order) (w : Walker) : Walker :=
  match order with
  | .step => w.step.2
  | .run => w.run.2
  | .runAll => w.runAll.2
  | .pause => w.paused
  | .resume => w.resumed
  | .look => w

/-- The walkers on which an order takes steps, one after the other. -/
def stepsOf (order : Order) (w : Walker) : List Walker :=
  match order with
  | .step => [w]
  | .run => trail Walker.step (atTurn fun w => w.status) w.stepsLeft w
  | .runAll => trail Walker.step atEnd w.stepsLeft w
  | _ => []

end Walker

end Stepwise
