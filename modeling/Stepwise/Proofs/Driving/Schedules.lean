import Mathlib.Logic.Function.Iterate
import Stepwise.Proofs.Driving.Statuses
import Stepwise.Proofs.Renaming.Steps

/-!
How an engine is driven does not matter to what its program does. Every schedule of orders passes
through the states that single steps pass through, in their order, as far as the program can tell
them apart; and every schedule that ends the program ends where runs to the end do
(`schedules_agree`).
-/
namespace Stepwise

section Leading

variable {σ : Type} {inner next after : σ → σ}

/-- What is driven from a state to another one: the states in which steps are taken, each of them
where the step before it leads, as far as `inner` shows them. -/
structure LeadsOn (inner after : σ → σ) (s : σ) (steps : List σ) (s' : σ) : Prop where
  starts : steps.map inner = (List.range steps.length).map fun i => after^[i] (inner s)
  ends : inner s' = after^[steps.length] (inner s)

namespace LeadsOn

variable {s s' s'' : σ} {steps more : List σ}

theorem none (same : inner s' = inner s) : LeadsOn inner after s [] s' := ⟨rfl, same⟩

theorem one (blind : Function.Semiconj inner next after) : LeadsOn inner after s [s] (next s) :=
  ⟨rfl, blind s⟩

theorem trans (first : LeadsOn inner after s steps s') (rest : LeadsOn inner after s' more s'') :
    LeadsOn inner after s (steps ++ more) s'' := by
  constructor
  · rw [List.map_append, first.starts, rest.starts, List.length_append, List.range_add,
      List.map_append, List.map_map]
    refine congrArg _ (List.map_congr_left fun i _ => ?_)
    rw [first.ends, ← Function.iterate_add_apply]
    exact congrArg (fun n => after^[n] (inner s)) (Nat.add_comm ..)
  · rw [rest.ends, first.ends, ← Function.iterate_add_apply, List.length_append, Nat.add_comm]

theorem end_congr (leads : LeadsOn inner after s steps s') (same : inner s'' = inner s') :
    LeadsOn inner after s steps s'' :=
  ⟨leads.starts, same.trans leads.ends⟩

theorem start_congr (leads : LeadsOn inner after s steps s') (same : inner s = inner s'') :
    LeadsOn inner after s'' steps s' :=
  ⟨same ▸ leads.starts, same ▸ leads.ends⟩

/-- The states behind the steps. -/
theorem passes (leads : LeadsOn inner after s steps s') (blind : Function.Semiconj inner next after) :
    steps.map (fun k => inner (next k)) =
      (List.range steps.length).map fun i => after^[i + 1] (inner s) := by
  calc steps.map (fun k => inner (next k))
    _ = (steps.map inner).map after := by
      rw [List.map_map]
      exact List.map_congr_left fun k _ => blind k
    _ = (List.range steps.length).map fun i => after^[i + 1] (inner s) := by
      rw [leads.starts, List.map_map]
      exact List.map_congr_left fun i _ => (Function.iterate_succ_apply' after i _).symm

end LeadsOn

/-- Behind a state that steps do not leave, all states are the same. -/
theorem iterate_of_fixed {x : σ} {n m : Nat} (fixed : after (after^[n] x) = after^[n] x)
    (le : n ≤ m) : after^[m] x = after^[n] x := by
  obtain ⟨k, rfl⟩ := Nat.exists_eq_add_of_le le
  rw [Nat.add_comm, Function.iterate_add_apply]
  exact Function.iterate_fixed fixed k

/-- Two places that steps do not leave are the same place. -/
theorem iterate_unique {x : σ} {n m : Nat} (fixed : after (after^[n] x) = after^[n] x)
    (fixed' : after (after^[m] x) = after^[m] x) : after^[n] x = after^[m] x := by
  rcases Nat.le_total n m with le | le
  · exact (iterate_of_fixed fixed le).symm
  · exact iterate_of_fixed fixed' le

end Leading

section Scheduling

variable {σ Order : Type}

/-- The state behind a step, whatever the step answers. -/
def nextOf (step : σ → Driven StepReport × σ) (s : σ) : σ := (step s).2

/-- A step does not look at what `inner` leaves out, and a program that is over stays as it is. -/
structure Blind (step : σ → Driven StepReport × σ) (inner : σ → σ) (isOver : σ → Bool) : Prop where
  semiconj : Function.Semiconj inner (nextOf step) (inner ∘ nextOf step)
  rests : ∀ s, isOver s = true → step s = (.ok .ended, s)
  ends : ∀ s report next, step s = (.ok report, next) → report.done = true → isOver next = true
  shown : ∀ s, isOver (inner s) = isOver s

/-- Runs to the end, one behind the other as long as a failure of the host leaves them. -/
inductive RunsOut (runAll : σ → Driven (List StepReport) × σ) : σ → σ → Prop where
  | returned {s s' : σ} {answer : List StepReport} : runAll s = (.ok answer, s') →
      RunsOut runAll s s'
  | escaped {s next s' : σ} {failure : HostFailure} : runAll s = (.error failure, next) →
      RunsOut runAll next s' → RunsOut runAll s s'

/-- Where a schedule of orders leads. -/
def driven (obey : Order → σ → σ) (orders : List Order) (s : σ) : σ :=
  orders.foldl (fun s order => obey order s) s

/-- Every run to the end is a drive. -/
def RunsThrough (step : σ → Driven StepReport × σ)
    (runAll : σ → Driven (List StepReport) × σ) : Prop :=
  ∀ s, ∃ before last, Course step atEnd s before last ∧ runAll s =
    ((step last).1.map fun _ => (before ++ [last]).filterMap (actedReport? step), (step last).2)

/-- The states in which the orders of a schedule take their steps. -/
def scheduled (obey : Order → σ → σ) (stepsOf : Order → σ → List σ) : List Order → σ → List σ
  | [], _ => []
  | order :: rest, s => stepsOf order s ++ scheduled obey stepsOf rest (obey order s)

/-- What a schedule passes through and where it ends, compared to single steps and to runs to the
end from the state where it starts. -/
structure Unswayed (step : σ → Driven StepReport × σ) (runAll : σ → Driven (List StepReport) × σ)
    (inner : σ → σ) (isOver : σ → Bool) (s : σ) (passed : List σ) (s' : σ) : Prop where
  /-- What is passed through is what single steps pass through, in order and from the first one on. -/
  passes : passed.map inner =
    (List.range passed.length).map fun i => inner ((nextOf step)^[i + 1] s)
  ends : inner s' = inner ((nextOf step)^[passed.length] s)
  /-- At the end of the program it ends where a run to the end returns. -/
  returns : isOver s' = true → ∀ answer final, runAll s = (.ok answer, final) → inner final = inner s'
  /-- If the run does not return, the program ends there in a later one. -/
  finishes : isOver s' = true → ∃ final, RunsOut runAll s final ∧ inner final = inner s'

variable {step : σ → Driven StepReport × σ} {inner : σ → σ} {isOver : σ → Bool}
  {runAll : σ → Driven (List StepReport) × σ} {s s' t last : σ} {before : List σ}

/-- The steps of a course lead on from each other. -/
theorem Course.leads {stops : σ → StepReport → σ → Bool} (blind : Blind step inner isOver)
    (course : Course step stops s before last) :
    LeadsOn inner (inner ∘ nextOf step) s (before ++ [last]) (nextOf step last) := by
  induction course with
  | last => exact .one blind.semiconj
  | @more s next _ _ _ stepped _ _ ih =>
    have first := LeadsOn.one blind.semiconj (s := s)
    rw [show nextOf step s = next from congrArg Prod.snd stepped] at first
    exact first.trans ih

theorem leads_scheduled {obey : Order → σ → σ} {stepsOf : Order → σ → List σ}
    {after : σ → σ} (each : ∀ order s, LeadsOn inner after s (stepsOf order s) (obey order s))
    (orders : List Order) (s : σ) :
    LeadsOn inner after s (scheduled obey stepsOf orders s) (driven obey orders s) := by
  induction orders generalizing s with
  | nil => exact .none rfl
  | cons order rest ih => exact (each order s).trans (ih (obey order s))

namespace Blind

theorem fixed (blind : Blind step inner isOver) (ended : isOver s = true) :
    (inner ∘ nextOf step) (inner s) = inner s := by
  rw [← blind.semiconj s]
  exact congrArg (fun stepped => inner stepped.2) (blind.rests s ended)

theorem over_congr (blind : Blind step inner isOver) (same : inner s = inner t) :
    isOver s = isOver t := by
  rw [← blind.shown s, same, blind.shown]

theorem runsOut_over (blind : Blind step inner isOver) (through : RunsThrough step runAll)
    (ended : isOver s = true) : RunsOut runAll s s := by
  obtain ⟨before, last, course, run⟩ := through s
  have rests := blind.rests s ended
  cases course with
  | last =>
    rw [rests] at run
    exact .returned run
  | more stepped going _ =>
    cases rests.symm.trans stepped
    cases going

/-- Runs to the end come to the end if single steps do: they do not miss it, and they do not go on
behind it. -/
theorem exists_runsOut (blind : Blind step inner isOver) (through : RunsThrough step runAll)
    (ended : isOver t = true) {n : Nat} (s : σ)
    (reached : inner t = (inner ∘ nextOf step)^[n] (inner s)) :
    ∃ s', RunsOut runAll s s' ∧ inner s' = inner t := by
  induction n using Nat.strongRecOn generalizing s with
  | ind n ih =>
    obtain ⟨before, last, course, run⟩ := through s
    have leads := (course.leads blind).ends
    have fixed := blind.fixed ended
    rw [reached] at fixed
    rcases stepped : step last with ⟨failure | report, next⟩
    · have escaped : runAll s = (.error failure, next) := by
        rw [run, stepped]
        rfl
      have behind : nextOf step last = next := congrArg Prod.snd stepped
      rw [behind, List.length_append, List.length_singleton] at leads
      rcases Nat.lt_or_ge before.length n with short | long
      · have rest : inner t = (inner ∘ nextOf step)^[n - (before.length + 1)] (inner next) := by
          rw [leads, ← Function.iterate_add_apply, reached]
          congr 2
          omega
        obtain ⟨s', out, same⟩ := ih (n - (before.length + 1)) (by omega) next rest
        exact ⟨s', .escaped escaped out, same⟩
      · have same : inner next = inner t :=
          leads.trans ((iterate_of_fixed fixed (by omega)).trans reached.symm)
        exact ⟨next, .escaped escaped (blind.runsOut_over through (blind.over_congr same ▸ ended)),
          same⟩
    · rw [stepped] at run
      have behind : nextOf step last = next := congrArg Prod.snd stepped
      have isOver := blind.ends last report next stepped (course.stop stepped)
      have fixed' := blind.fixed isOver
      rw [behind] at leads
      rw [leads] at fixed'
      exact ⟨next, .returned run,
        leads.trans ((iterate_unique fixed' fixed).trans reached.symm)⟩

theorem unswayed (blind : Blind step inner isOver) (through : RunsThrough step runAll)
    {steps : List σ} (leads : LeadsOn inner (inner ∘ nextOf step) s steps s') :
    Unswayed step runAll inner isOver s (steps.map (nextOf step)) s' := by
  have repeated (n : Nat) : inner ((nextOf step)^[n] s) = (inner ∘ nextOf step)^[n] (inner s) :=
    blind.semiconj.iterate_right n s
  have finishes (ended : isOver s' = true) : ∃ final, RunsOut runAll s final ∧ inner final = inner s' :=
    blind.exists_runsOut through ended s leads.ends
  refine ⟨?_, ?_, fun ended answer final returned => ?_, finishes⟩
  · simp only [List.map_map, List.length_map, repeated]
    exact leads.passes blind.semiconj
  · rw [List.length_map, repeated]
    exact leads.ends
  · obtain ⟨final', out, same⟩ := finishes ended
    cases out with
    | returned returned' =>
      cases returned.symm.trans returned'
      exact same
    | escaped escaped _ => cases returned.symm.trans escaped

end Blind

end Scheduling

/-- The status as far as a step looks at it: whether the program is over, and how. -/
def Status.inner (status : Status) : Status := if status.isFinal then status else .running

theorem Status.isFinal_inner (status : Status) : status.inner.isFinal = status.isFinal := by
  cases status <;> rfl

theorem Status.inner_inner (status : Status) : status.inner.inner = status.inner := by
  cases status <;> rfl

theorem Status.inner_going {status : Status} (going : status.isFinal = false) :
    status.inner = .running := by
  rw [inner, going]
  rfl

namespace Machine

variable {m m' : Machine} {report : StepReport}

/-- What the program can tell of a machine: all but breakpoints, watches, and whether it is ready,
running or paused. -/
def inner (m : Machine) : Machine :=
  { m with status := m.status.inner, breakpoints := [], watches := [] }

theorem finished_inner (m : Machine) : m.inner.finished = m.finished :=
  congrArg (m.code.isNone || ·) (Status.isFinal_inner m.status)

theorem inner_paused (m : Machine) : m.paused.inner = m.inner := by
  unfold paused Engine.pause
  split
  next running => rw [inner, inner, running]; rfl
  next => rfl

theorem inner_resumed (m : Machine) : m.resumed.inner = m.inner := by
  unfold resumed Engine.resume
  split
  next paused => rw [inner, inner, paused]; rfl
  next => rfl

theorem advanceBy_watching (m : Machine) (breakpoints : List Int) (watches : List Name)
    (i : Instruction) : (m.watching breakpoints watches).begun.advanceBy i =
      ((m.begun.advanceBy i).1, (m.begun.advanceBy i).2.watching breakpoints watches) := by
  have blind := (works_execute i).blind (m.fetched i) breakpoints watches
  have fetched : (m.watching breakpoints watches).fetched i =
    (m.fetched i).watching breakpoints watches := rfl
  rw [advanceBy_eq, advanceBy_eq, fetched, blind]
  rcases execute i (m.fetched i) with ⟨(_ | _) | _, next⟩ <;> rfl

theorem advance_watching (m : Machine) (breakpoints : List Int) (watches : List Name) :
    (m.watching breakpoints watches).begun.advance =
      (m.begun.advance.1, m.begun.advance.2.watching breakpoints watches) := by
  have code : (m.watching breakpoints watches).begun.code = m.begun.code := rfl
  have pc : (m.watching breakpoints watches).begun.pc = m.begun.pc := rfl
  unfold advance
  rw [code, pc]
  split
  · rfl
  next code _ =>
    split
    · rfl
    · split
      · rfl
      next i _ => exact advanceBy_watching m breakpoints watches i

/-- A step does not look at breakpoints and watches. -/
theorem step_watching (m : Machine) (breakpoints : List Int) (watches : List Name) :
    (m.watching breakpoints watches).step = (m.step.1, m.step.2.watching breakpoints watches) := by
  cases ended : m.finished with
  | true =>
    have ended' : (m.watching breakpoints watches).finished = true := ended
    rw [step, step, ended, ended']
    rfl
  | false =>
    have ended' : (m.watching breakpoints watches).finished = false := ended
    rw [step_eq ended, step_eq ended']
    show (if m.maxSteps < (m.stepCount + 1 : Nat) then if m.isAstray then _ else _ else _) = _
    split
    · split <;> rfl
    · exact advance_watching m breakpoints watches

/-- A step begins in the same way whether the program is ready, running or paused. -/
theorem step_status (unfinished : m.finished = false) (status : Status)
    (going : status.isFinal = false) : { m with status }.step = m.step := by
  have loaded : m.code.isNone = false := (Bool.or_eq_false_iff.mp unfinished).1
  have unfinished' : { m with status }.finished = false := Bool.or_eq_false_iff.mpr ⟨loaded, going⟩
  rw [step_eq unfinished, step_eq unfinished']
  rfl

theorem finished_of_done (stepped : m.step = (.ok report, m')) (done : report.done = true) :
    m'.finished = true := by
  have code : m'.code = m.code := by
    have frame := (step_frame m).1
    rwa [stepped] at frame
  rw [finished, code]
  cases loaded : m.code with
  | none => rfl
  | some code => exact (step_done (by rw [loaded]; rfl) stepped).symm.trans done

theorem going_of_undone (stepped : m.step = (.ok report, m')) (undone : report.done = false) :
    m'.status.isFinal = false := by
  cases loaded : m.code with
  | some code => exact (step_done (by rw [loaded]; rfl) stepped).symm.trans undone
  | none =>
    have ended : m.finished = true := by rw [finished, loaded]; rfl
    rw [step, ended] at stepped
    cases stepped
    cases undone

theorem blind : Blind Machine.step inner finished where
  semiconj m := by
    show m.step.2.inner = m.inner.step.2.inner
    cases ended : m.finished with
    | true =>
      have ended' : m.inner.finished = true := (finished_inner m).trans ended
      rw [step, step, ended, ended']
      show m.inner = m.inner.inner
      rw [inner, inner, Status.inner_inner]
    | false =>
      have running : m.inner = { m with status := .running }.watching [] [] := by
        rw [inner, Status.inner_going (not_final_of_unfinished ended)]
        rfl
      rw [running, step_watching, step_status ended .running rfl]
      rfl
  rests m ended := by
    unfold step
    rw [ended]
    rfl
  ends _ _ _ := finished_of_done
  shown := finished_inner

theorem runsThrough : RunsThrough Machine.step runAll := fun m => by
  obtain ⟨before, last, -, -, course, run⟩ := exists_runAll m
  exact ⟨before, last, course, run⟩

theorem leads_course {stops : Machine → StepReport → Machine → Bool} {last : Machine}
    {before : List Machine} (course : Course Machine.step stops m before last) :
    LeadsOn inner (inner ∘ nextOf Machine.step) m (before ++ [last])
      last.step.2 := course.leads blind

/-- A run to the next breakpoint leads on, also where it pauses. -/
theorem leads_seek (m : Machine) :
    LeadsOn inner (inner ∘ nextOf Machine.step) m m.soughtSteps
      m.runUntilBreakpoint.2 := by
  have seeks := seeks m
  generalize m.runUntilBreakpoint = result at seeks ⊢
  generalize m.soughtSteps = taken at seeks ⊢
  cases seeks with
  | atOnce ready =>
    refine .none ?_
    rw [inner, inner, ready]
    rfl
  | lost => exact .none rfl
  | @went before last _ course =>
    refine (leads_course course).end_congr ?_
    rcases landing_cases last with same | ⟨report, answered, undone, paused⟩
    · rw [same]
    · rw [paused, inner, inner, Status.inner_going (going_of_undone (Prod.ext answered rfl) undone)]
      rfl

/-- Every order leads on from where it starts. -/
theorem leads_obey (order : Order) (m : Machine) :
    LeadsOn inner (inner ∘ nextOf Machine.step) m (m.stepsOf order)
      (m.obey order) := by
  cases edit : order.isEdit with
  | true =>
    obtain ⟨breakpoints, watches, changed⟩ := obey_edit (m := m) edit
    rw [stepsOf_edit edit, changed]
    exact .none rfl
  | false =>
    cases order with
    | step => exact .one blind.semiconj
    | run =>
      obtain ⟨before, last, taken, -, course, run⟩ := exists_run m
      rw [stepsOf, taken, obey, run]
      exact leads_course course
    | runAll =>
      obtain ⟨before, last, taken, -, course, run⟩ := exists_runAll m
      rw [stepsOf, taken, obey, run]
      exact leads_course course
    | runUntilBreakpoint => exact leads_seek m
    | continueRun => exact (leads_seek m.resumed).start_congr (inner_resumed m)
    | pause => exact .none (inner_paused m)
    | resume => exact .none (inner_resumed m)
    | _ => cases edit

end Machine

namespace Walker

variable {w w' : Walker} {report : StepReport}

/-- What the program can tell of a walker: all but whether it is ready, running or paused. -/
def inner (w : Walker) : Walker := { w with status := w.status.inner }

theorem finished_inner (w : Walker) : w.inner.finished = w.finished :=
  congrArg (w.program.isNone || ·) (Status.isFinal_inner w.status)

theorem inner_paused (w : Walker) : w.paused.inner = w.inner := by
  unfold paused Engine.pause
  split
  next running => rw [inner, inner, running]; rfl
  next => rfl

theorem inner_resumed (w : Walker) : w.resumed.inner = w.inner := by
  unfold resumed Engine.resume
  split
  next paused => rw [inner, inner, paused]; rfl
  next => rfl

/-- A step begins in the same way whether the program is ready, running or paused. -/
theorem step_status (unfinished : w.finished = false) (status : Status)
    (going : status.isFinal = false) : { w with status }.step = w.step := by
  have loaded : w.program.isNone = false := (Bool.or_eq_false_iff.mp unfinished).1
  have unfinished' : { w with status }.finished = false := Bool.or_eq_false_iff.mpr ⟨loaded, going⟩
  unfold step
  rw [unfinished, unfinished']
  rfl

theorem finished_of_done (stepped : w.step = (.ok report, w')) (done : report.done = true) :
    w'.finished = true := by
  have program : w'.program = w.program := by
    have frame := (step_frame w).1
    rwa [stepped] at frame
  rw [finished, program]
  cases loaded : w.program with
  | none => rfl
  | some => exact (step_done (by rw [loaded]; rfl) stepped).symm.trans done

theorem blind : Blind Walker.step inner finished where
  semiconj w := by
    show w.step.2.inner = w.inner.step.2.inner
    cases ended : w.finished with
    | true =>
      have ended' : w.inner.finished = true := (finished_inner w).trans ended
      rw [step, step, ended, ended']
      show w.inner = w.inner.inner
      rw [inner, inner, Status.inner_inner]
    | false =>
      rw [inner.eq_1 w, Status.inner_going (not_final_of_unfinished ended),
        step_status ended .running rfl]
  rests w ended := by
    unfold step
    rw [ended]
    rfl
  ends _ _ _ := finished_of_done
  shown := finished_inner

theorem runsThrough : RunsThrough Walker.step runAll := fun w => by
  obtain ⟨before, last, -, -, course, run⟩ := exists_runAll w
  exact ⟨before, last, course, run⟩

/-- Every order leads on from where it starts. -/
theorem leads_obey (order : Order) (w : Walker) :
    LeadsOn inner (inner ∘ nextOf Walker.step) w (w.stepsOf order)
      (w.obey order) := by
  cases order with
  | step => exact .one blind.semiconj
  | run =>
    obtain ⟨before, last, taken, -, course, run⟩ := exists_run w
    rw [stepsOf, taken, obey, run]
    exact course.leads blind
  | runAll =>
    obtain ⟨before, last, taken, -, course, run⟩ := exists_runAll w
    rw [stepsOf, taken, obey, run]
    exact course.leads blind
  | pause => exact .none (inner_paused w)
  | resume => exact .none (inner_resumed w)
  | look => exact .none rfl

end Walker

/-- How an engine is driven does not change what its program does, whatever the program, the limits,
the handlers of the host and the source of random numbers, which is the same for all schedules: it is
part of the state that they start from. -/
theorem schedules_agree :
    (∀ (m : Machine) (orders : List Machine.Order),
      Unswayed Machine.step Machine.runAll Machine.inner Machine.finished m
        ((scheduled Machine.obey Machine.stepsOf orders m).map (nextOf Machine.step))
        (driven Machine.obey orders m)) ∧
    ∀ (w : Walker) (orders : List Walker.Order),
      Unswayed Walker.step Walker.runAll Walker.inner Walker.finished w
        ((scheduled Walker.obey Walker.stepsOf orders w).map (nextOf Walker.step))
        (driven Walker.obey orders w) :=
  ⟨fun m orders => Machine.blind.unswayed Machine.runsThrough
      (leads_scheduled Machine.leads_obey orders m),
    fun w orders => Walker.blind.unswayed Walker.runsThrough
      (leads_scheduled Walker.leads_obey orders w)⟩

/-- Orders that stop the machine at a breakpoint, pause it and go on. -/
def Machine.wayside : List Machine.Order :=
  [.step, .pause, .toggleBreakpoint 2, .continueRun, .look, .addWatch (.text "x"), .resume, .run,
    .clearBreakpoints, .run, .step, .runAll, .resume]

/-- Orders that pause the walker and go on. -/
def Walker.wayside : List Walker.Order := [.step, .pause, .look, .resume, .run, .pause, .runAll, .run]

/-- Both engines stop on the way and end where a run to the end does. -/
theorem schedules_agree_wayside : ∃ program code loaded,
    Program.parse "x = 1\nrest()\nx = x + 1\n" unnamedSource = .ok program ∧
      program.compile unnamedSource = .ok code ∧
      Walker.load { Walker.new {} with host := resting } program = .ok loaded ∧
      (let m := Machine.load { Machine.new {} with host := resting } code
       (driven Machine.obey Machine.wayside m).finished = true ∧
        ∃ final, RunsOut Machine.runAll m final ∧
          final.inner = (driven Machine.obey Machine.wayside m).inner) ∧
      (driven Walker.obey Walker.wayside loaded).finished = true ∧
      ∃ final, RunsOut Walker.runAll loaded final ∧
        final.inner = (driven Walker.obey Walker.wayside loaded).inner := by
  have both : (readForBoth { Walker.new {} with host := resting }
      "x = 1\nrest()\nx = x + 1\n").toOption.any (fun (_, code, loaded) =>
        (driven Machine.obey Machine.wayside
          (Machine.load { Machine.new {} with host := resting } code)).finished &&
        (driven Walker.obey Walker.wayside loaded).finished) = true := by
    rw [readForBoth_eq_ofChars _ "x = 1\nrest()\nx = x + 1\n" rfl]
    decide +kernel
  obtain ⟨program, code, loaded, parsed, compiled, done, checked⟩ := exists_readForBoth both
  obtain ⟨machine, walker⟩ := Bool.and_eq_true_iff.mp checked
  exact ⟨program, code, loaded, parsed, compiled, done,
    ⟨machine, (schedules_agree.1 _ Machine.wayside).finishes machine⟩,
    walker, (schedules_agree.2 loaded Walker.wayside).finishes walker⟩

/-- A list that contains itself cannot be printed. The failure of the host leaves the run to the end
in the middle of the program, which single steps bring to its end. -/
theorem escaped_run_unfinished : ∃ program code,
    Program.parse "a = []\nappend(a, a)\nprint(a)\nx = 1\n" unnamedSource = .ok program ∧
      program.compile unnamedSource = .ok code ∧
      (let m := (Machine.new {}).load code
       let schedule := List.replicate 9 Machine.Order.step
       (driven Machine.obey schedule m).finished = true ∧ m.runAll.2.finished = false ∧
        m.runAll.2.inner ≠ (driven Machine.obey schedule m).inner) := by
  have ran : (Machine.codeOf "a = []\nappend(a, a)\nprint(a)\nx = 1\n").toOption.any (fun code =>
      (driven Machine.obey (List.replicate 9 Machine.Order.step)
        ((Machine.new {}).load code)).finished &&
      !((Machine.new {}).load code).runAll.2.finished) = true := by
    rw [Machine.codeOf_eq_ofChars "a = []\nappend(a, a)\nprint(a)\nx = 1\n" rfl]
    decide +kernel
  obtain ⟨program, code, parsed, compiled, checked⟩ := Machine.exists_codeOf ran
  simp only [Bool.and_eq_true, Bool.not_eq_true'] at checked
  obtain ⟨ended, going⟩ := checked
  refine ⟨program, code, parsed, compiled, ended, going, fun same => ?_⟩
  have isOver := Machine.blind.over_congr same
  rw [ended, going] at isOver
  cases isOver

end Stepwise
