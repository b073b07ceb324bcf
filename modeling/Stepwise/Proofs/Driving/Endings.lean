import Stepwise.Proofs.Control.Flow
import Stepwise.Proofs.Driving.Schedules
import Stepwise.Proofs.Walker.Loops

/-!
Every run ends. The steps of an engine that do something are counted, and there is only one more of
them than the limit; the statements that begin within one step of the walker are counted as well
(`runs_end`). A run ends with what its last step answers, which may be a failure of the host.
-/
namespace Stepwise

section Counting

variable {σ Order : Type} {inner after : σ → σ} {isOver : σ → Bool} {count : σ → Nat} {s s' : σ}
  {steps : List σ}

theorem count_iterate (counted : ∀ x, count (after x) = if isOver x then count x else count x + 1)
    (n : Nat) (x : σ) : count (after^[n] x) =
      count x + ((List.range n).map fun i => after^[i] x).countP fun k => !isOver k := by
  induction n with
  | zero => rfl
  | succ n ih =>
    rw [Function.iterate_succ_apply', counted, ih, List.range_succ, List.map_append,
      List.countP_append, List.map_singleton, List.countP_singleton]
    cases isOver (after^[n] x) <;> rfl

/-- What is driven counts the steps that were taken before the program was over. -/
theorem LeadsOn.counts (leads : LeadsOn inner after s steps s') (count : σ → Nat)
    (counted : ∀ x, count (after x) = if isOver x then count x else count x + 1)
    (same : ∀ x, count (inner x) = count x) (shown : ∀ x, isOver (inner x) = isOver x) :
    count s' = count s + steps.countP fun k => !isOver k := by
  have seen : (fun k => !isOver k) ∘ inner = fun k => !isOver k :=
    funext fun k => congrArg not (shown k)
  rw [← same s', leads.ends, count_iterate counted, same, ← leads.starts, List.countP_map, seen]

/-- What steps keep holds wherever an order leads. -/
theorem LeadsOn.keeps {P : σ → Prop} (leads : LeadsOn inner after s steps s')
    (kept : ∀ x, P x → P (after x)) (shown : ∀ x, P (inner x) ↔ P x) (holds : P s) : P s' := by
  have iterated (n : Nat) : P (after^[n] (inner s)) := by
    induction n with
    | zero => exact (shown s).mpr holds
    | succ n ih =>
      rw [Function.iterate_succ_apply']
      exact kept _ ih
  exact (shown s').mp (leads.ends ▸ iterated _)

variable {obey : Order → σ → σ} {stepsOf : Order → σ → List σ} {good : Order → Prop}
  {orders : List Order}

end Counting

/-- The count of an engine is within the limit, or one more when the program is over. -/
def WithinLimit (limit : Int) (count : Nat) (isOver : Bool) : Prop :=
  count ≤ limit.toNat ∨ count = limit.toNat + 1 ∧ isOver = true

theorem WithinLimit.le {limit : Int} {count : Nat} {isOver : Bool}
    (within : WithinLimit limit count isOver) : count ≤ limit.toNat + 1 := by
  rcases within with under | ⟨same, -⟩
  · omega
  · omega

/-- One more step keeps it so, if a step over the limit ends the program. -/
theorem WithinLimit.step {limit : Int} {count : Nat} {isOver : Bool}
    (within : WithinLimit limit count false)
    (ends : limit < (count + 1 : Nat) → isOver = true) : WithinLimit limit (count + 1) isOver := by
  have under : count ≤ limit.toNat := within.resolve_right fun ended => nomatch ended.2
  by_cases exceeds : limit < (count + 1 : Nat)
  · exact .inr ⟨by omega, ends exceeds⟩
  · exact .inl (by omega)

namespace Machine

variable {m next : Machine} {code : Code} {program : Program} {scope : Scope} {keepResult : Bool}
  {main : Segment} {bodies : List Segment} {limit : Int}

/-- Whether the run under way goes on: it is neither begun anew nor taken back. -/
def Use.goesOn : Use → Bool
  | .reset | .load _ | .stepBack => false
  | .order _ | .setGlobal _ _ | .evaluate _ => true

/-- The machines on which the steps of a run are taken. -/
def Use.steps (use : Use) (m : Machine) : List Machine :=
  match use with
  | .order given => m.stepsOf given
  | .reset | .load _ | .setGlobal _ _ | .stepBack | .evaluate _ => []

/-- How a run to the next breakpoint ends: before its first step, or with the answer of its last one,
which fails only if the step fails. -/
def Sought (m : Machine) (result : Driven (StepReport × Bool) × Machine) : Prop :=
  result = (.ok ({ highlightLine := m.currentLine }, true), { m with status := .paused }) ∨
    ∃ before last, Course Machine.step atBreak m before last ∧ result = last.landing ∧
      ∀ failure, result.1 = .error failure → last.step.1 = .error failure

/-- The runs of a machine end. -/
structure Ends (m : Machine) : Prop where
  run : ∃ before last, Course Machine.step (atTurn fun m => m.status) m before last ∧
    m.run = last.step
  runAll : ∃ before last, Course Machine.step atEnd m before last ∧ m.runAll =
    (last.step.1.map fun _ => (before ++ [last]).filterMap (actedReport? Machine.step), last.step.2)
  /-- A run to the end that returns leaves the program completed or in a fault. -/
  completes : ∀ answer next, m.runAll = (.ok answer, next) → next.status.isFinal = true
  runUntilBreakpoint : m.Sought m.runUntilBreakpoint
  continueRun : m.resumed.Sought m.continueRun

/-- A machine in its code, with a count of steps that the limit allows. -/
structure Contained (code : Code) (main : Segment) (bodies : List Segment) (limit : Int)
    (m : Machine) : Prop where
  guarded : Guarded code main bodies m
  maxSteps : m.maxSteps = limit
  within : WithinLimit limit m.stepCount m.finished

theorem Guarded.placed (divided : code.Divided program scope keepResult main bodies)
    (guarded : Guarded code main bodies m) : m.isAstray = false := by
  obtain ⟨s, member, here, -, -⟩ := guarded.place.top
  obtain ⟨a, pc, bound⟩ := divided.lt_size member here
  rw [isAstray, guarded.loaded, pc]
  exact decide_eq_false (by omega)

theorem contained_inner (m : Machine) :
    Contained code main bodies limit m.inner ↔ Contained code main bodies limit m := by
  have finished := finished_inner m
  constructor
  · rintro ⟨guarded, maxSteps, within⟩
    exact ⟨⟨guarded.loaded, guarded.classes, guarded.place, guarded.history⟩, maxSteps,
      finished ▸ within⟩
  · rintro ⟨guarded, maxSteps, within⟩
    exact ⟨⟨guarded.loaded, guarded.classes, guarded.place, guarded.history⟩, maxSteps,
      finished.symm ▸ within⟩

/-- A step that counts over the limit ends the program, since the machine is still in its code. -/
theorem Contained.step (divided : code.Divided program scope keepResult main bodies)
    (contained : Contained code main bodies limit m) :
    Contained code main bodies limit m.step.2 := by
  obtain ⟨-, maxSteps, count⟩ := step_frame m
  refine ⟨step_guarded divided contained.guarded, maxSteps.trans contained.maxSteps, ?_⟩
  have within := contained.within
  cases isOver : m.finished with
  | true =>
    rw [blind.rests m isOver]
    exact within
  | false =>
    rw [isOver] at within count
    rw [count, if_neg Bool.false_ne_true]
    refine within.step fun exceeds => ?_
    have exceeds : m.maxSteps < (m.stepCount + 1 : Nat) := contained.maxSteps ▸ exceeds
    rw [step_eq isOver, if_pos exceeds, contained.guarded.placed divided, if_neg Bool.false_ne_true]
    exact Bool.or_true _

theorem Contained.apply (divided : code.Divided program scope keepResult main bodies) (use : Use)
    (goesOn : use.goesOn = true) (contained : Contained code main bodies limit m) :
    Contained code main bodies limit (m.apply use) := by
  cases use with
  | order order =>
    refine (leads_obey order m).keeps (fun x contained => ?_) contained_inner contained
    exact (contained_inner _).mpr (contained.step divided)
  | setGlobal name v =>
    exact ⟨(stable_guarded divided).setGlobal m name v contained.guarded, contained.maxSteps,
      contained.within⟩
  | evaluate source =>
    have guarded := evaluate_guarded contained.guarded source
    obtain ⟨_, _, _, _, -, same⟩ := evaluate_machine m source
    show Contained code main bodies limit (m.evaluate source).2
    rw [same] at guarded ⊢
    exact ⟨guarded, contained.maxSteps, contained.within⟩
  | reset | load | stepBack => cases goesOn

theorem Contained.course (divided : code.Divided program scope keepResult main bodies)
    {stops : Machine → StepReport → Machine → Bool} {before : List Machine} {last : Machine}
    (contained : Contained code main bodies limit m)
    (course : Course Machine.step stops m before last) : Contained code main bodies limit last :=
  (course.keeps (fun _ contained => contained.step divided) contained).2

theorem landing_error {failure : HostFailure} (placed : m.step.2.isAstray = false)
    (failed : m.landing.1 = .error failure) : m.step.1 = .error failure := by
  unfold landing at failed
  rcases stepped : m.step with ⟨failure' | report, next⟩
  · rw [stepped] at failed
    cases failed
    rfl
  · rw [stepped] at placed failed
    dsimp only at placed failed
    rw [placed, if_neg Bool.false_ne_true] at failed
    split at failed <;> cases failed

theorem Contained.sought (divided : code.Divided program scope keepResult main bodies)
    (contained : Contained code main bodies limit m) : m.Sought m.runUntilBreakpoint := by
  have seeks := Machine.seeks m
  generalize m.runUntilBreakpoint = result at seeks ⊢
  generalize m.soughtSteps = taken at seeks
  cases seeks with
  | atOnce => exact .inl rfl
  | lost astray => cases astray.symm.trans (contained.guarded.placed divided)
  | @went before last _ course =>
    have placed := ((contained.course divided course).step divided).guarded.placed divided
    exact .inr ⟨before, last, course, rfl, fun _ failed => landing_error placed failed⟩

theorem Contained.ends (divided : code.Divided program scope keepResult main bodies)
    (contained : Contained code main bodies limit m) : m.Ends where
  run := by
    obtain ⟨before, last, -, -, course, run⟩ := exists_run m
    exact ⟨before, last, course, run⟩
  runAll := runsThrough m
  completes answer next returned := by
    obtain ⟨before, last, course, run⟩ := runsThrough m
    rw [run] at returned
    rcases stepped : last.step with ⟨failure | report, k⟩
    · rw [stepped] at returned
      cases returned
    · rw [stepped] at returned
      cases returned
      have behind := (contained.course divided course).step divided
      rw [stepped] at behind
      have isOver := finished_of_done stepped (course.stop stepped)
      rw [finished, behind.guarded.loaded] at isOver
      exact isOver
  runUntilBreakpoint := contained.sought divided
  continueRun := (contained.apply divided (.order .resume) rfl).sought divided

theorem contained_load (divided : code.Divided program scope keepResult main bodies)
    (machine : Machine) : Contained code main bodies machine.maxSteps (machine.load code) :=
  ⟨load_guarded divided machine, rfl, .inl (Nat.zero_le _)⟩

end Machine

namespace Walker

variable {w : Walker} {limit : Int}

/-- Whether the run under way goes on: it is not begun anew. -/
def Use.goesOn : Use → Bool
  | .reset | .load _ => false
  | .order _ | .setGlobal _ _ => true

/-- The walkers on which the steps of a run are taken. -/
def Use.steps (use : Use) (w : Walker) : List Walker :=
  match use with
  | .order given => w.stepsOf given
  | .reset | .load _ | .setGlobal _ _ => []

/-- The runs of a walker end. -/
structure Ends (w : Walker) : Prop where
  run : ∃ before last, Course Walker.step (atTurn fun w => w.status) w before last ∧
    w.run = last.step
  runAll : ∃ before last, Course Walker.step atEnd w before last ∧ w.runAll =
    (last.step.1.map fun _ => (before ++ [last]).filterMap (actedReport? Walker.step), last.step.2)
  /-- A run to the end that returns leaves the program completed or in a fault. -/
  completes : ∀ answer next, w.runAll = (.ok answer, next) → next.status.isFinal = true

/-- A walker with a program, and a count of steps that the limit allows. -/
structure Contained (limit : Int) (w : Walker) : Prop where
  loaded : w.program.isSome = true
  maxSteps : w.maxSteps = limit
  within : WithinLimit limit w.stepCount w.finished

theorem contained_inner (w : Walker) : Contained limit w.inner ↔ Contained limit w := by
  have finished := finished_inner w
  exact ⟨fun ⟨loaded, maxSteps, within⟩ => ⟨loaded, maxSteps, finished ▸ within⟩,
    fun ⟨loaded, maxSteps, within⟩ => ⟨loaded, maxSteps, finished.symm ▸ within⟩⟩

/-- A step that counts over the limit ends the program. -/
theorem Contained.step (contained : Contained limit w) : Contained limit w.step.2 := by
  obtain ⟨program, maxSteps, count⟩ := step_frame w
  refine ⟨program ▸ contained.loaded, maxSteps.trans contained.maxSteps, ?_⟩
  have within := contained.within
  cases isOver : w.finished with
  | true =>
    rw [blind.rests w isOver]
    exact within
  | false =>
    rw [isOver] at within count
    rw [count, if_neg Bool.false_ne_true]
    refine within.step fun exceeds => ?_
    have exceeds : w.maxSteps < (w.stepCount + 1 : Nat) := contained.maxSteps ▸ exceeds
    unfold Walker.step
    rw [isOver, if_neg Bool.false_ne_true, if_pos exceeds]
    exact Bool.or_true _

theorem Contained.apply (use : Use) (goesOn : use.goesOn = true) (contained : Contained limit w) :
    Contained limit (w.apply use) := by
  cases use with
  | order order =>
    refine (leads_obey order w).keeps (fun x contained => ?_) contained_inner contained
    exact (contained_inner _).mpr contained.step
  | setGlobal name v => exact ⟨contained.loaded, contained.maxSteps, contained.within⟩
  | reset | load => cases goesOn

theorem Contained.ends (contained : Contained limit w) : w.Ends where
  run := by
    obtain ⟨before, last, -, -, course, run⟩ := exists_run w
    exact ⟨before, last, course, run⟩
  runAll := runsThrough w
  completes answer next returned := by
    obtain ⟨before, last, course, run⟩ := runsThrough w
    rw [run] at returned
    rcases stepped : last.step with ⟨failure | report, k⟩
    · rw [stepped] at returned
      cases returned
    · rw [stepped] at returned
      cases returned
      have contained := (course.keeps (fun _ contained => contained.step) contained).2
      rw [← step_done contained.loaded stepped]
      exact course.stop stepped

theorem contained_load {loaded : Walker} {program : Program} (done : w.load program = .ok loaded) :
    Contained w.maxSteps loaded ∧ loaded.stepCount = 0 := by
  obtain ⟨_, -, done⟩ := bind_eq_ok.mp done
  obtain ⟨_, -, done⟩ := bind_eq_ok.mp done
  cases done
  exact ⟨⟨rfl, rfl, .inl (Nat.zero_le _)⟩, rfl⟩

end Walker

end Stepwise
