import Stepwise.Proofs.Driving.Runs
import Stepwise.Proofs.Machine.Moves

/-!
The status of an engine, its fault and the mark that a report is done, in one step. A step of a loaded
program is done exactly if the status behind it is final (`Machine.step_done`, `Walker.step_done`);
it leaves the engine paused only if a handler asked for it (`step_pausing`), and keeps the fault and
the status in accord (`step_inAccord`).
-/
namespace Stepwise

/-- A fault is there exactly if the status says so. -/
def Engine.InAccord (engine : Engine) : Prop := engine.fault.isSome = true ↔ engine.status = .error

theorem Engine.InAccord.none {engine : Engine} (accord : engine.InAccord) (fine : engine.status ≠ .error) :
    engine.fault = none := by
  cases fault : engine.fault with
  | none => rfl
  | some => exact absurd (accord.mp (by rw [fault]; rfl)) fine

theorem Engine.inAccord_fine {engine : Engine} (fault : engine.fault = none)
    (fine : engine.status ≠ .error) : engine.InAccord :=
  ⟨fun some => by simp [fault] at some, fun same => absurd same fine⟩

theorem Engine.inAccord_fail (engine : Engine) (fault : Fault) : (engine.fail fault).InAccord :=
  ⟨fun _ => rfl, fun _ => rfl⟩

theorem Engine.done_call (engine : Engine) (name : Name) (args : List Value) :
    (engine.call name args).2.report.done = engine.report.done := by
  cases found : engine.host.find? name with
  | none => rw [(call_unbound found args).report]
  | some entry =>
    obtain ⟨role, bound⟩ := entry
    rw [(call_bound found args).2.2]
    split
    · cases role <;> rfl
    · rfl

namespace Machine

variable {m m' : Machine} {report : StepReport}

theorem Worked.fault (worked : Worked m m') : m'.fault = m.fault := by
  induction worked with
  | still still => exact still.fault
  | called name args => exact Engine.fault_call ..
  | completed => rfl
  | trans _ _ first rest => exact rest.trans first

theorem Worked.calls (worked : Worked m m') : m.host.calls <:+ m'.host.calls := by
  induction worked with
  | still still => exact still.host ▸ List.suffix_refl _
  | called name args => exact (Engine.spares_call ..).host.calls
  | completed => exact List.suffix_refl _
  | trans _ _ first rest => exact first.trans rest

theorem Worked.fine (worked : Worked m m') (fine : m.status ≠ .error) : m'.status ≠ .error := by
  induction worked with
  | still still => exact still.status ▸ fine
  | @called m name args =>
    show (m.toEngine.call name args).2.status ≠ .error
    rw [Engine.status_call]
    split
    · exact fun same => nomatch same
    · exact fine
  | completed => exact fun same => nomatch same
  | trans _ _ first rest => exact rest (first fine)

/-- The report is marked as done together with the status. -/
theorem Worked.done (worked : Worked m m') (accord : m.report.done = m.status.isFinal) :
    m'.report.done = m'.status.isFinal := by
  induction worked with
  | still still => rw [still.report, still.status, ← accord]
  | @called m name args =>
    show (m.toEngine.call name args).2.report.done = (m.toEngine.call name args).2.status.isFinal
    rw [Engine.done_call, Engine.status_call, accord]
    split
    next asked => rw [asked.1]; rfl
    next => rfl
  | completed => rfl
  | trans _ _ first rest => exact rest (first accord)

/-- A machine that gets paused within a step was asked to by a handler, while it ran. -/
theorem Worked.pausing (worked : Worked m m') (awake : m.status ≠ .paused)
    (paused : m'.status = .paused) :
    ∃ during call, Worked m during ∧ during.toEngine.Pausing m'.toEngine call := by
  induction worked with
  | still still => exact absurd (still.status.symm.trans paused) awake
  | @called m name args =>
    obtain ⟨call, pausing⟩ := Engine.pausing_of_call awake paused
    exact ⟨m, call, .refl m, pausing⟩
  | completed => cases paused
  | @trans m middle m' first rest early late =>
    by_cases before : middle.status = .paused
    · obtain ⟨during, call, worked, pausing⟩ := early awake before
      exact ⟨during, call, worked, pausing.grown rest.calls⟩
    · obtain ⟨during, call, worked, pausing⟩ := late before paused
      exact ⟨during, call, first.trans worked, pausing⟩

/-- What was done within a step that executed an instruction, however it ended. -/
theorem worked_fetched {i : Instruction} {result : Except Failure Unit} {next : Machine}
    (ran : execute i (m.fetched i) = (result, next)) : Worked (m.fetched i) next := by
  have worked := (works_execute i).worked (m.fetched i)
  rwa [ran] at worked

theorem spares_fetched {i : Instruction} {result : Except Failure Unit} {next : Machine}
    (ran : execute i (m.fetched i) = (result, next)) : Spares (m.fetched i) next := by
  have spares := spares_execute i (m.fetched i)
  rwa [ran] at spares

/-- A step leaves the host its handlers. -/
theorem step_grows (m : Machine) : m.host.Grows m.step.2.host := by
  have stepped := steps m
  generalize m.step.1 = result at stepped
  generalize m.step.2 = next at stepped ⊢
  cases stepped with
  | ended | lost | exhausted | behind | nowhere => exact .refl _
  | executed _ _ ran | faulted _ _ ran | broken _ _ ran => exact (spares_fetched ran).engine.host

theorem not_final_of_unfinished (unfinished : m.finished = false) : m.status.isFinal = false :=
  (Bool.or_eq_false_iff.mp unfinished).2

/-- A step of a loaded program is done exactly if the status behind it is final. -/
theorem step_done (loaded : m.code.isSome = true) (stepped : m.step = (.ok report, m')) :
    report.done = m'.status.isFinal := by
  cases steps_of_eq stepped with
  | ended ended =>
    rw [finished, Option.isNone_eq_false_iff.mpr loaded, Bool.false_or] at ended
    exact ended.symm
  | exhausted | behind | faulted => rfl
  | executed _ _ ran => exact (worked_fetched ran).done rfl

/-- A step keeps the fault and the status in accord. -/
theorem step_inAccord (accord : m.toEngine.InAccord) : m.step.2.toEngine.InAccord := by
  have clean (unfinished : m.finished = false) : m.fault = none := by
    refine accord.none fun same => ?_
    have awake := not_final_of_unfinished unfinished
    rw [same] at awake
    cases awake
  have stepped := steps m
  generalize m.step.1 = result at stepped
  generalize m.step.2 = next at stepped ⊢
  cases stepped with
  | ended => exact accord
  | lost unfinished => exact Engine.inAccord_fine (clean unfinished) fun same => nomatch same
  | exhausted | faulted => exact Engine.inAccord_fail ..
  | behind goes | nowhere goes => exact Engine.inAccord_fine (clean goes.1) fun same => nomatch same
  | executed goes _ ran | broken goes _ ran =>
    have worked := worked_fetched ran
    exact Engine.inAccord_fine (worked.fault.trans (clean goes.1))
      (worked.fine fun same => nomatch same)

/-- A step counts, unless the program is over, and leaves the code and the limit alone. -/
theorem step_frame (m : Machine) : m.step.2.code = m.code ∧ m.step.2.maxSteps = m.maxSteps ∧
    m.step.2.stepCount = if m.finished then m.stepCount else m.stepCount + 1 := by
  have stepped := steps m
  generalize m.step.1 = result at stepped
  generalize m.step.2 = next at stepped ⊢
  cases stepped with
  | ended ended => exact ⟨rfl, rfl, (if_pos ended).symm⟩
  | lost unfinished | exhausted unfinished =>
    exact ⟨rfl, rfl, (if_neg (Bool.eq_false_iff.mp unfinished)).symm⟩
  | behind goes | nowhere goes => exact ⟨rfl, rfl, (if_neg (Bool.eq_false_iff.mp goes.1)).symm⟩
  | executed goes _ ran | broken goes _ ran | faulted goes _ ran =>
    rw [if_neg (Bool.eq_false_iff.mp goes.1)]
    have spares := spares_fetched ran
    exact ⟨spares.code, spares.engine.maxSteps, spares.engine.stepCount⟩

/-- A handler paused the machine in the course of its next step. -/
def PausedByHandler (m : Machine) : Prop :=
  ∃ (i : Instruction) (during : Machine) (call : HostCall), m.current? = some i ∧
    Worked (m.fetched i) during ∧ during.toEngine.Pausing m.step.2.toEngine call

/-- A step leaves a machine paused only if a handler asked for it in the course of the step. -/
theorem step_pausing (loaded : m.code.isSome = true) (paused : m.step.2.status = .paused) :
    m.PausedByHandler := by
  unfold PausedByHandler
  have stepped := steps m
  generalize m.step.1 = result at stepped
  generalize m.step.2 = next at stepped paused ⊢
  cases stepped with
  | ended ended =>
    rw [finished, Option.isNone_eq_false_iff.mpr loaded, Bool.false_or, paused] at ended
    cases ended
  | lost | exhausted | behind | nowhere | faulted => cases paused
  | @executed i _ _ current ran | @broken i _ _ _ current ran =>
    obtain ⟨during, call, worked, pausing⟩ :=
      (worked_fetched ran).pausing (fun same => by cases same) paused
    exact ⟨i, during, call, current, worked, pausing⟩

end Machine

namespace Walker

variable {w w' : Walker} {report : StepReport} {failure : Failure}

theorem Walked.calls (walked : Walked w w') : w.host.calls <:+ w'.host.calls := by
  induction walked with
  | still still => exact still.host ▸ List.suffix_refl _
  | begun | completed => exact List.suffix_refl _
  | @asked w name args _ engine called =>
    have kept := (Engine.spares_call w.toEngine name args).host.calls
    rwa [called] at kept
  | trans _ _ first rest => exact first.trans rest

theorem Walked.fault (walked : Walked w w') : w'.fault = w.fault := by
  induction walked with
  | still still => exact still.fault
  | begun | completed => rfl
  | @asked w name args _ engine called =>
    have kept := Engine.fault_call w.toEngine name args
    rwa [called] at kept
  | trans _ _ first rest => exact rest.trans first

theorem Broken.fault (broken : Broken failure w w') : w'.fault = w.fault := by
  obtain ⟨k, k', locals, walked, stumbles, rfl⟩ := broken
  refine Eq.trans ?_ walked.fault
  cases stumbles with
  | failed | exceeded => rfl
  | @refused _ _ name args engine called =>
    have kept := Engine.fault_call k.toEngine name args
    rwa [called] at kept

theorem fine_of_call {name : Name} {args : List Value} {result : Except Failure Value}
    {engine : Engine} (called : w.toEngine.call name args = (result, engine))
    (fine : w.status ≠ .error) : engine.status ≠ .error := by
  have status := Engine.status_call w.toEngine name args
  rw [called] at status
  rw [status]
  split
  · exact fun same => nomatch same
  · exact fine

theorem pausing_of_outside {name : Name} {args : List Value} {result : Except Failure Value}
    {engine : Engine} (called : w.toEngine.call name args = (result, engine))
    (awake : w.status ≠ .paused) (paused : engine.status = .paused) :
    ∃ call, w.toEngine.Pausing engine call := by
  obtain rfl : (w.toEngine.call name args).2 = engine := by rw [called]
  exact Engine.pausing_of_call awake paused

/-- Nothing within a step stops the program in a fault as long as all goes well. -/
theorem Walked.fine (walked : Walked w w') (fine : w.status ≠ .error) : w'.status ≠ .error := by
  induction walked with
  | still still => exact still.status ▸ fine
  | begun => exact fine
  | completed => exact fun same => nomatch same
  | asked called => exact fine_of_call called fine
  | trans _ _ first rest => exact rest (first fine)

theorem Broken.fine (broken : Broken failure w w') (fine : w.status ≠ .error) :
    w'.status ≠ .error := by
  obtain ⟨k, k', locals, walked, stumbles, rfl⟩ := broken
  have fine := walked.fine fine
  cases stumbles with
  | failed | exceeded => exact fine
  | refused called => exact fine_of_call called fine

/-- A walker that gets paused within a step was asked to by a handler, while it ran. -/
theorem Walked.pausing (walked : Walked w w') (awake : w.status ≠ .paused)
    (paused : w'.status = .paused) :
    ∃ during call, Walked w during ∧ during.toEngine.Pausing w'.toEngine call := by
  induction walked with
  | still still => exact absurd (still.status.symm.trans paused) awake
  | begun => exact absurd paused awake
  | completed => cases paused
  | @asked w name args _ engine called =>
    obtain ⟨call, pausing⟩ := pausing_of_outside called awake paused
    exact ⟨w, call, .refl w, pausing⟩
  | @trans w middle w' first rest early late =>
    by_cases before : middle.status = .paused
    · obtain ⟨during, call, walked, pausing⟩ := early awake before
      exact ⟨during, call, walked, pausing.grown rest.calls⟩
    · obtain ⟨during, call, walked, pausing⟩ := late before paused
      exact ⟨during, call, first.trans walked, pausing⟩

theorem Broken.pausing (broken : Broken failure w w') (awake : w.status ≠ .paused)
    (paused : w'.status = .paused) :
    ∃ during call, Walked w during ∧ during.toEngine.Pausing w'.toEngine call := by
  obtain ⟨k, k', locals, walked, stumbles, rfl⟩ := broken
  by_cases before : k.status = .paused
  · obtain ⟨during, call, walked, pausing⟩ := walked.pausing awake before
    refine ⟨during, call, walked, pausing.grown ?_⟩
    cases stumbles with
    | failed | exceeded => exact List.suffix_refl _
    | @refused _ _ name args engine called =>
      have kept := (Engine.spares_call k.toEngine name args).host.calls
      rwa [called] at kept
  · cases stumbles with
    | failed | exceeded => exact absurd paused before
    | refused called =>
      obtain ⟨call, pausing⟩ := pausing_of_outside called before paused
      exact ⟨k, call, walked, pausing⟩

theorem not_final_of_unfinished (unfinished : w.finished = false) : w.status.isFinal = false :=
  (Bool.or_eq_false_iff.mp unfinished).2

theorem ending_fine (fine : w.status ≠ .error) : w.ending ≠ .error := by
  unfold ending
  split
  · exact fun same => nomatch same
  · exact fine

/-- A step of a loaded program is done exactly if the status behind it is final. -/
theorem step_done (loaded : w.program.isSome = true) (stepped : w.step = (.ok report, w')) :
    report.done = w'.status.isFinal := by
  cases steps_of_eq stepped with
  | ended ended =>
    rw [finished, Option.isNone_eq_false_iff.mpr loaded, Bool.false_or] at ended
    exact ended.symm
  | exhausted | stopped => rfl
  | @went next _ ran =>
    have fine := ending_fine ((walks_stepFrame.ok ran).fine fun same => nomatch same)
    show decide (next.ending = .completed) = next.ending.isFinal
    simp [Status.isFinal, fine]

/-- A step keeps the fault and the status in accord. -/
theorem step_inAccord (accord : w.toEngine.InAccord) : w.step.2.toEngine.InAccord := by
  have clean (unfinished : w.finished = false) : w.fault = none := by
    refine accord.none fun same => ?_
    have awake := not_final_of_unfinished unfinished
    rw [same] at awake
    cases awake
  have stepped := steps w
  generalize w.step.1 = result at stepped
  generalize w.step.2 = next at stepped ⊢
  cases stepped with
  | ended => exact accord
  | exhausted => exact ⟨fun _ => rfl, fun _ => rfl⟩
  | stopped => exact Engine.inAccord_fail ..
  | went goes ran =>
    have walked := walks_stepFrame.ok ran
    exact Engine.inAccord_fine (walked.fault.trans (clean goes.1))
      (ending_fine (walked.fine fun same => nomatch same))
  | broken goes ran =>
    have broken := walks_stepFrame.error ran
    exact Engine.inAccord_fine (broken.fault.trans (clean goes.1))
      (broken.fine fun same => nomatch same)

theorem Walked.program (walked : Walked w w') : w'.program = w.program := by
  induction walked with
  | still | begun | completed | asked => rfl
  | trans _ _ first rest => exact rest.trans first

/-- What no computation within a step changes. -/
theorem Broken.limits (broken : Broken failure w w') : w'.stepCount = w.stepCount ∧
    w'.maxSteps = w.maxSteps ∧ w'.program = w.program := by
  obtain ⟨k, k', locals, walked, stumbles, rfl⟩ := broken
  obtain ⟨count, limit, -⟩ := walked.limits
  have program := walked.program
  cases stumbles with
  | failed | exceeded => exact ⟨count, limit, program⟩
  | @refused _ _ name args engine called =>
    have spares := Engine.spares_call k.toEngine name args
    rw [called] at spares
    exact ⟨spares.stepCount.trans count, spares.maxSteps.trans limit, program⟩

/-- A step counts, unless the program is over, and leaves the program and the limit alone. -/
theorem step_frame (w : Walker) : w.step.2.program = w.program ∧ w.step.2.maxSteps = w.maxSteps ∧
    w.step.2.stepCount = if w.finished then w.stepCount else w.stepCount + 1 := by
  have stepped := steps w
  generalize w.step.1 = result at stepped
  generalize w.step.2 = next at stepped ⊢
  cases stepped with
  | ended ended => exact ⟨rfl, rfl, (if_pos ended).symm⟩
  | exhausted unfinished =>
    exact ⟨rfl, rfl, (if_neg (Bool.eq_false_iff.mp unfinished)).symm⟩
  | went goes ran =>
    rw [if_neg (Bool.eq_false_iff.mp goes.1)]
    have walked := walks_stepFrame.ok ran
    exact ⟨walked.program, walked.limits.2.1, walked.limits.1⟩
  | stopped goes ran | broken goes ran =>
    rw [if_neg (Bool.eq_false_iff.mp goes.1)]
    obtain ⟨count, limit, program⟩ := (walks_stepFrame.error ran).limits
    exact ⟨program, limit, count⟩

/-- A handler paused the walker in the course of its next step. -/
def PausedByHandler (w : Walker) : Prop :=
  ∃ (during : Walker) (call : HostCall), Walked w.started during ∧
    during.toEngine.Pausing w.step.2.toEngine call

/-- A step leaves a walker paused only if a handler asked for it in the course of the step. -/
theorem step_pausing (loaded : w.program.isSome = true) (paused : w.step.2.status = .paused) :
    w.PausedByHandler := by
  unfold PausedByHandler
  have stepped := steps w
  generalize w.step.1 = result at stepped
  generalize w.step.2 = next at stepped paused ⊢
  cases stepped with
  | ended ended =>
    rw [finished, Option.isNone_eq_false_iff.mpr loaded, Bool.false_or, paused] at ended
    cases ended
  | exhausted | stopped => cases paused
  | @went next _ ran =>
    have paused : next.ending = .paused := paused
    unfold ending at paused
    split at paused
    · cases paused
    · obtain ⟨during, call, walked, pausing⟩ :=
        (walks_stepFrame.ok ran).pausing (fun same => by cases same) paused
      exact ⟨during, call, walked, pausing.grown (List.suffix_refl _)⟩
  | broken _ ran => exact (walks_stepFrame.error ran).pausing (fun same => by cases same) paused

end Walker

end Stepwise
