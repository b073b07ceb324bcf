import Stepwise.Proofs.Agreement.Engines
import Stepwise.Proofs.Driving.Runs
import Stepwise.Proofs.Machine.Steps
import Stepwise.Proofs.Stack.Discipline

/-!
Where a machine gets by its steps, as long as it has steps left: `Reaches` leaves open what
happens behind the limit. A run to the end can be followed from any machine that it goes through.
-/
namespace Stepwise

/-- A fault that says that there were too many steps. -/
def Fault.IsExhaustion (fault : Fault) : Prop :=
  ∃ limit : Int,
    fault.message = s!"Too many steps ({limit}), the program may contain an infinite loop"

/-- The program was stopped because it took too many steps. -/
def Engine.OutOfSteps (engine : Engine) : Prop :=
  ∃ fault, engine.fault = some fault ∧ fault.IsExhaustion

theorem Engine.isExhaustion_tooManySteps (engine : Engine) (line : Option Int) :
    (engine.tooManySteps line).IsExhaustion := ⟨engine.maxSteps, rfl⟩

theorem Engine.enough_of_faultless {engine : Engine} (faultless : engine.fault.isNone = true) :
    ¬ engine.OutOfSteps := by
  rintro ⟨fault, there, -⟩
  rw [there] at faultless
  cases faultless

/-- A run to the end ends as a step does that ends the program, wherever steps led before. -/
theorem Travels.runAll_done {along : Machine → Prop} {m m' last : Machine}
    (travels : Travels Machine.step along m m') {report : StepReport}
    (stepped : m'.step = (.ok report, last)) (done : report.done = true) :
    ∃ reports, m.runAll = (.ok reports, last) := by
  obtain ⟨fuel, acted, enough, same⟩ := travels.gatherFor Machine.dwindles_step (Nat.le_refl _) []
  obtain ⟨fuel, rfl⟩ : ∃ k, fuel = k + 1 := ⟨fuel - 1, by unfold Engine.stepsLeft at enough; omega⟩
  rw [Machine.runAll, Machine.runAllFor_eq, same, Stepwise.gatherFor, stepped]
  dsimp only
  rw [done, if_pos rfl]
  exact ⟨_, rfl⟩

theorem Travels.runAll_broken {along : Machine → Prop} {m m' last : Machine}
    (travels : Travels Machine.step along m m') {failure : HostFailure}
    (stepped : m'.step = (.error failure, last)) : m.runAll = (.error failure, last) := by
  obtain ⟨fuel, acted, enough, same⟩ := travels.gatherFor Machine.dwindles_step (Nat.le_refl _) []
  obtain ⟨fuel, rfl⟩ : ∃ k, fuel = k + 1 := ⟨fuel - 1, by unfold Engine.stepsLeft at enough; omega⟩
  rw [Machine.runAll, Machine.runAllFor_eq, same, Stepwise.gatherFor, stepped]

namespace Machine

/-- Steps behind which the program is still under way, wherever they are taken. -/
abbrev Onward : Machine → Machine → Prop := Travels Machine.step fun _ => True

/-- A machine whose next step is one too many. -/
def Spent (m : Machine) : Prop := ∃ m', m.step = (.ok .ended, m') ∧ m'.OutOfSteps

/-- A machine gets to where something holds, unless it runs out of steps before. -/
def Reaches (m : Machine) (goal : Machine → Prop) : Prop :=
  ∃ m', Onward m m' ∧ (goal m' ∨ m'.Spent)

variable {m m' : Machine} {goal goal' : Machine → Prop}

theorem Reaches.here (holds : goal m) : m.Reaches goal := ⟨m, .here m, .inl holds⟩

theorem Reaches.spent (spent : m.Spent) : m.Reaches goal := ⟨m, .here m, .inr spent⟩

theorem Reaches.bind (first : m.Reaches goal) (rest : ∀ m', goal m' → m'.Reaches goal') :
    m.Reaches goal' := by
  obtain ⟨next, onward, holds | spent⟩ := first
  · obtain ⟨last, further, ends⟩ := rest next holds
    exact ⟨last, onward.trans further, ends⟩
  · exact ⟨next, onward, .inr spent⟩

theorem Reaches.mono (reaches : m.Reaches goal) (implies : ∀ m', goal m' → goal' m') :
    m.Reaches goal' :=
  reaches.bind fun m' holds => .here (implies m' holds)

/-- A step of a program under way. -/
theorem step_unfinished {code : Code} (loaded : m.code = some code) (unfinished : m.status.isFinal = false) :
    m.step = if m.maxSteps < (m.stepCount + 1 : Nat) then
        if m.begun.isAstray then (.error .outOfBounds, m.begun)
        else (.ok .ended, m.begun.stoppedAt m.pc (m.begun.tooManySteps m.begun.currentLine))
      else m.begun.advance := by
  have under : m.finished = false := by simp [finished, loaded, unfinished]
  unfold step
  rw [under, if_neg (by decide)]
  rfl

/-- A step within the limit executes the instruction at its address. -/
theorem step_within {code : Code} {pc : Nat} {i : Instruction} (loaded : m.code = some code)
    (unfinished : m.status.isFinal = false) (here : m.pc = pc) (has : code.Has pc i)
    (within : ¬ m.maxSteps < (m.stepCount + 1 : Nat)) : m.step = m.begun.advanceBy i := by
  have inside := lt_size_of_has has
  have advanced : m.begun.advance = m.begun.advanceBy i := by
    unfold advance
    rw [show m.begun.code = some code from loaded]
    dsimp only
    rw [show m.begun.pc = pc from here, if_neg (by omega), at?_of_has has]
  rw [step_unfinished loaded unfinished, if_neg within, advanced]

/-- A step that goes well, or that is one too many. -/
theorem step_at {code : Code} {pc : Nat} {i : Instruction} (loaded : m.code = some code)
    (unfinished : m.status.isFinal = false) (here : m.pc = pc) (has : code.Has pc i) :
    m.Spent ∨ m.step = m.begun.advanceBy i := by
  by_cases exceeds : m.maxSteps < (m.stepCount + 1 : Nat)
  · have found : ¬ m.begun.isAstray = true := by
      rw [isAstray, show m.begun.code = some code from loaded, Option.any_some,
        show m.begun.pc = pc from here, decide_eq_true_eq]
      omega
    have stepped := step_unfinished loaded unfinished
    rw [if_pos exceeds, if_neg found] at stepped
    exact .inl ⟨_, stepped, _, rfl, Engine.isExhaustion_tooManySteps ..⟩
  · exact .inr (step_within loaded unfinished here has exceeds)

/-- A run that does not run out of steps gets where the machine gets. -/
theorem Reaches.unspent (reaches : m.Reaches goal) (enough : ¬ m.runAll.2.OutOfSteps) :
    ∃ m', Onward m m' ∧ goal m' := by
  obtain ⟨m', onward, holds | ⟨last, stepped, spent⟩⟩ := reaches
  · exact ⟨m', onward, holds⟩
  · obtain ⟨reports, ran⟩ := onward.runAll_done stepped rfl
    rw [ran] at enough
    exact absurd spent enough

end Machine

end Stepwise
