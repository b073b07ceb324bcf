import Stepwise.Machine.Debug

/-!
Driving a machine, whatever fails on the way. What every step keeps, and every other call of the
debugger, holds wherever a machine can be driven to: `Stable.visited`.
-/
namespace Stepwise.Machine

/-- What can be reached from a machine by driving it. A failure of the host leaves the machine where
it was when it failed, and driving can go on from there. -/
inductive Visited (start : Machine) : Machine → Prop where
  | start : Visited start start
  | step {m : Machine} : Visited start m → Visited start m.step.2
  | run {m : Machine} : Visited start m → Visited start m.run.2
  | runAll {m : Machine} : Visited start m → Visited start m.runAll.2
  | runUntilBreakpoint {m : Machine} : Visited start m → Visited start m.runUntilBreakpoint.2
  | pause {m : Machine} : Visited start m → Visited start m.paused
  | resume {m : Machine} : Visited start m → Visited start m.resumed
  | stepBack {m : Machine} : Visited start m → Visited start m.stepBack.2
  | setGlobal {m : Machine} {name : Name} {v : Value} : Visited start m →
      Visited start { m with toEngine := m.toEngine.setGlobal name v }
  | evaluate {m : Machine} {source : String} : Visited start m →
      Visited start (m.evaluate source).2

/-- What steps keep, and what the calls keep that do more than stepping. -/
structure Stable (P : Machine → Prop) : Prop where
  step : ∀ m, P m → P m.step.2
  status : ∀ (m : Machine) (status : Status), P m → P { m with status }
  stepBack : ∀ m, P m → P m.stepBack.2
  setGlobal : ∀ (m : Machine) (name : Name) (v : Value), P m →
    P { m with toEngine := m.toEngine.setGlobal name v }
  evaluate : ∀ (m : Machine) (source : String), P m → P (m.evaluate source).2

namespace Stable

variable {P : Machine → Prop} {m : Machine}

theorem runFor (stable : Stable P) (fuel : Nat) (holds : P m) : P (m.runFor fuel).2 := by
  induction fuel generalizing m with
  | zero => exact holds
  | succ fuel ih =>
    have stepped := stable.step m holds
    unfold Machine.runFor
    split
    next failure next failed => rwa [failed] at stepped
    next report next done =>
      rw [done] at stepped
      split
      · exact stepped
      · exact ih stepped

theorem runAllFor (stable : Stable P) (fuel : Nat) (acted : List StepReport) (holds : P m) :
    P (m.runAllFor fuel acted).2 := by
  induction fuel generalizing m acted with
  | zero => exact holds
  | succ fuel ih =>
    have stepped := stable.step m holds
    unfold Machine.runAllFor
    split
    next failure next failed => rwa [failed] at stepped
    next report next done =>
      rw [done] at stepped
      dsimp only
      split
      · exact stepped
      · exact ih _ stepped

theorem seekFor (stable : Stable P) (fuel : Nat) (holds : P m) : P (m.seekFor fuel).2 := by
  induction fuel generalizing m with
  | zero => exact holds
  | succ fuel ih =>
    have stepped := stable.step m holds
    unfold Machine.seekFor
    split
    · exact holds
    · split
      next failure next failed => rwa [failed] at stepped
      next report next done =>
        rw [done] at stepped
        split
        · exact stepped
        · split
          · exact stable.status next .paused stepped
          · split
            · exact stepped
            · exact ih stepped

theorem runUntilBreakpoint (stable : Stable P) (holds : P m) : P m.runUntilBreakpoint.2 := by
  unfold Machine.runUntilBreakpoint
  split
  · exact stable.status m .paused holds
  · exact stable.seekFor _ holds

theorem paused (stable : Stable P) (holds : P m) : P m.paused := by
  unfold Machine.paused Engine.pause
  split
  · exact stable.status m .paused holds
  · exact holds

theorem resumed (stable : Stable P) (holds : P m) : P m.resumed := by
  unfold Machine.resumed Engine.resume
  split
  · exact stable.status m .running holds
  · exact holds

theorem visited (stable : Stable P) {start : Machine} (fresh : P start)
    (visited : Visited start m) : P m := by
  induction visited with
  | start => exact fresh
  | step _ ih => exact stable.step _ ih
  | run _ ih => exact stable.runFor _ ih
  | runAll _ ih => exact stable.runAllFor _ _ ih
  | runUntilBreakpoint _ ih => exact stable.runUntilBreakpoint ih
  | pause _ ih => exact stable.paused ih
  | resume _ ih => exact stable.resumed ih
  | stepBack _ ih => exact stable.stepBack _ ih
  | setGlobal _ ih => exact stable.setGlobal _ _ _ ih
  | evaluate _ ih => exact stable.evaluate _ _ ih

end Stable

end Stepwise.Machine
