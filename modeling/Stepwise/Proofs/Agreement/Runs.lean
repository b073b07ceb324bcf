import Stepwise.Proofs.Agreement.Stepping

/-!
Runs of both engines to the end. The machine follows the walker step by step, so that the runs end
alike unless one of them takes too many steps.
-/
namespace Stepwise

open Machine (Onward Reaches Completes Faults Breaks)

/-- Two runs to the end agree: both end the program alike, or the same failure of the host leaves
both. -/
def Agree (walked : Driven (List StepReport) × Walker) (ran : Driven (List StepReport) × Machine) :
    Prop :=
  walked.2.toEngine.Shares ran.2.toEngine ∧
    match walked.1, ran.1 with
    | .ok _, .ok _ => walked.2.status = ran.2.status ∧ walked.2.status.isFinal = true
    | .error failure, .error failure' => failure = failure'
    | _, _ => False

/-- What a step of the walker says about the run of a machine to the end. -/
inductive Progress (S : Setting) (start : Machine) (w : Walker) : Driven StepReport × Walker → Prop
  | exhausted {report : StepReport} {w' : Walker} : report.done = true → w'.OutOfSteps →
      Progress S start w (.ok report, w')
  | ended {report : StepReport} {w' : Walker} {reports : List StepReport} {last : Machine} :
      report.done = true → start.runAll = (.ok reports, last) → w'.status = last.status →
      w'.status.isFinal = true → w'.toEngine.Shares last.toEngine →
      Progress S start w (.ok report, w')
  | broken {failure : HostFailure} {w' : Walker} {last : Machine} :
      start.runAll = (.error failure, last) → w'.toEngine.Shares last.toEngine →
      Progress S start w (.error failure, w')
  | onward {report : StepReport} {w' : Walker} {m' : Machine} : report.done = false →
      w.stepsLeft = w'.stepsLeft + 1 → w'.program = w.program → start.Onward m' →
      Abreast S w' m' → Progress S start w (.ok report, w')

variable {S : Setting} {start m : Machine} {w w' : Walker}

theorem Machine.Onward.unspent {goal : Machine → Prop} (onward : start.Onward m)
    (reaches : m.Reaches goal) (enough : ¬ start.runAll.2.OutOfSteps) :
    ∃ m', start.Onward m' ∧ goal m' := by
  obtain ⟨m', further, ends⟩ := reaches
  have reaches : start.Reaches goal := ⟨m', onward.trans further, ends⟩
  exact reaches.unspent enough

section Ends

theorem progress_completes {report : StepReport} {engine : Engine} (onward : start.Onward m)
    (completes : m.Completes engine) (done : report.done = true)
    (completed : w'.status = .completed) (same : w'.toEngine.Shares engine) :
    Progress S start w (.ok report, w') := by
  obtain ⟨report', last, stepped, ends, status, shares⟩ := completes
  obtain ⟨reports, ran⟩ := onward.runAll_done stepped ends
  exact .ended done ran (completed.trans status.symm) (completed ▸ rfl) (same.trans shares)

theorem progress_failStep {fault : Fault} (onward : start.Onward m)
    (faults : m.Faults fault w'.toEngine) : Progress S start w (w'.failStep fault) := by
  obtain ⟨report', last, stepped, ends, status, shares⟩ := faults
  obtain ⟨reports, ran⟩ := onward.runAll_done stepped ends
  exact .ended rfl ran status.symm rfl ⟨shares.world, shares.host, shares.globals, shares.message⟩

theorem progress_exhausted {fault : Fault} (exhausted : fault.IsExhaustion) :
    Progress S start w (w'.failStep fault) :=
  .exhausted rfl ⟨_, rfl, exhausted⟩

/-- A step that went well completes the program, or both go on. -/
theorem progress_endStep (enough : ¬ start.runAll.2.OutOfSteps) (onward : start.Onward m)
    (left : w.stepsLeft = w'.stepsLeft + 1) (program : w'.program = w.program)
    (settled : Settled S w' m) : Progress S start w w'.endStep := by
  rcases settled with ⟨frames, status, completes⟩ | abreast
  · have still : w'.unwind.status = .completed := status
    refine progress_completes onward completes ?_ ?_ ⟨rfl, rfl, rfl, rfl⟩
    · simp [still]
    · simp [still]
  obtain ⟨m', onward, abreast⟩ := onward.unspent abreast.unwind enough
  obtain ⟨pc, stack, here, under⟩ := abreast
  unfold Walker.endStep
  dsimp only
  by_cases none : w'.unwind.frames = [] ∧ w'.unwind.status = .running
  · obtain ⟨frames, status⟩ := none
    rw [frames] at under
    cases under with | rest rest =>
    cases rest with | halt has =>
    have halts : m'.Reaches (Completes w'.unwind.toEngine) := here.halts has ⟨rfl, rfl, rfl, rfl⟩
    obtain ⟨m', onward, completes⟩ := onward.unspent halts enough
    refine progress_completes onward completes ?_ ?_ ⟨rfl, rfl, rfl, rfl⟩
    · simp [frames, status]
    · simp [frames, status]
  · have same : (if (w'.unwind.frames.isEmpty && decide (w'.unwind.status = .running)) = true
        then Status.completed else w'.unwind.status) = w'.unwind.status := by
      rw [if_neg]
      simpa using none
    have awake := here.awake
    rw [same]
    refine .onward ?_ left program onward ⟨pc, stack, ?_, under⟩
    · simp only [Status.isFinal, Bool.or_eq_false_iff, decide_eq_false_iff_not] at awake
      exact decide_eq_false awake.1
    · exact here.own _ _ _ _ _ awake

end Ends

theorem progress_step (sound : S.Sound) (room : S.Roomy) (onward : start.Onward m)
    (loaded : w.program.isSome = true) (abreast : Abreast S w m)
    (enough : ¬ start.runAll.2.OutOfSteps) (finite : start.runAll.1 ≠ .error .endless) :
    Progress S start w w.step := by
  obtain ⟨pc, stack, here, under⟩ := abreast
  have unfinished : w.finished = false := by
    rw [Walker.finished, here.awake, Option.isNone_eq_false_iff.mpr loaded]
    rfl
  unfold Walker.step
  rw [unfinished, if_neg Bool.false_ne_true]
  dsimp only
  split
  next => exact .exhausted rfl ⟨_, rfl, Engine.isExhaustion_tooManySteps ..⟩
  next within =>
    have within : ¬ w.maxSteps < (w.stepCount + 1 : Nat) := within
    have started := here.own w.frames .running {} (w.stepCount + 1) 0 rfl
    have follows := follows_stepFrame sound room ⟨pc, stack, started, under⟩
    unfold Follows Simulates at follows
    split
    next w' walked =>
      rw [walked] at follows
      obtain ⟨m', onward, settled, steers⟩ := onward.unspent follows enough
      refine progress_endStep enough onward ?_ steers.program settled
      rw [Engine.stepsLeft, Engine.stepsLeft, steers.maxSteps, steers.stepCount]
      show (w.maxSteps - w.stepCount).toNat + 1 =
        (w.maxSteps - (w.stepCount + 1 : Nat)).toNat + 1 + 1
      omega
    next fault w' walked =>
      rw [walked] at follows
      rcases follows with exhausted | faults
      · exact progress_exhausted exhausted
      · obtain ⟨m', onward, faults⟩ := onward.unspent faults enough
        exact progress_failStep onward faults
    next w' walked =>
      rw [walked] at follows
      obtain ⟨m', onward, last, stepped, shares⟩ := onward.unspent follows enough
      rw [onward.runAll_broken stepped] at finite
      exact absurd rfl finite
    next failure w' _ walked =>
      rw [walked] at follows
      obtain ⟨m', onward, last, stepped, shares⟩ := onward.unspent follows enough
      exact .broken (onward.runAll_broken stepped) shares

/-- From wherever the walker and the machine go together, the run of the walker ends as that of the
machine. -/
theorem agree_runAllFor (sound : S.Sound) (room : S.Roomy)
    (enough : ¬ start.runAll.2.OutOfSteps) (finite : start.runAll.1 ≠ .error .endless)
    (fuel : Nat) :
    ∀ (acted : List StepReport) {w : Walker} {m : Machine}, w.stepsLeft ≤ fuel → start.Onward m →
      w.program.isSome = true → Abreast S w m →
      (w.runAllFor fuel acted).2.OutOfSteps ∨ Agree (w.runAllFor fuel acted) start.runAll := by
  induction fuel with
  | zero =>
    intro acted w m left
    exact absurd left (Nat.not_succ_le_zero _)
  | succ fuel ih =>
    intro acted w m left onward loaded abreast
    have progress := progress_step sound room onward loaded abreast enough finite
    unfold Walker.runAllFor
    generalize w.step = stepped at progress
    cases progress with
    | exhausted done exhausted =>
      dsimp only
      rw [if_pos done]
      exact .inl exhausted
    | ended done ran status final shares =>
      dsimp only
      rw [if_pos done, ran]
      exact .inr ⟨shares, status, final⟩
    | broken ran shares =>
      rw [ran]
      exact .inr ⟨shares, rfl⟩
    | onward going less program onward abreast =>
      dsimp only
      rw [going, if_neg Bool.false_ne_true]
      exact ih _ (by omega) onward (program ▸ loaded) abreast

end Stepwise
