import Stepwise.Proofs.Debug.Evaluation
import Stepwise.Proofs.Driving.Marks
import Stepwise.Proofs.Driving.Orders
import Stepwise.Proofs.Reading.Sources

/-!
The status machine of both engines. Whatever the host does with an engine that was given a program, the
fault and the status are in accord, a final status is left only for another run or by undoing a step,
and an engine is paused only where it was asked to (`statuses_governed`).
-/
namespace Stepwise

namespace Machine

/-- What the host can do with a machine. -/
inductive Use where
  | order (order : Order)
  | reset
  | load (code : Code)
  | setGlobal (name : Name) (v : Value)
  | stepBack
  | evaluate (source : String)
  deriving Inhabited

def apply (use : Use) (m : Machine) : Machine :=
  match use with
  | .order order => m.obey order
  | .reset => m.reset
  | .load code => m.load code
  | .setGlobal name v => { m with toEngine := m.toEngine.setGlobal name v }
  | .stepBack => m.stepBack.2
  | .evaluate source => (m.evaluate source).2

/-- What the status of a machine says, and how it changes. -/
structure Governed (m : Machine) : Prop where
  /-- The status is error exactly if there is a fault, with its message and its place. -/
  accord : m.fault.isSome = true ↔ m.status = .error
  done : ∀ report next, m.step = (.ok report, next) →
    (report.done = true ↔ next.status.isFinal = true)
  /-- Nothing goes on behind the end of a program. -/
  still : m.status.isFinal = true → m.step = (.ok .ended, m) ∧ m.run = (.ok .ended, m) ∧
    m.runAll = (.ok [], m) ∧ m.paused = m ∧ m.resumed = m
  /-- A machine that is paused was asked to by the host or by a handler, while it ran, or it hit a
  breakpoint or undid a step; else it was paused before, and has taken no step. -/
  paused : ∀ use, (m.apply use).status = .paused →
    use = .order .pause ∧ m.status = .running ∨
    (∃ order, use = .order order ∧
      (m.hits order = true ∨ ∃ k ∈ m.stepsOf order, k.PausedByHandler)) ∨
    use = .stepBack ∧ m.stepBack.1 = true ∨
    m.status = .paused ∧ ∀ order, use = .order order → m.stepsOf order = []
  left : ∀ use, m.status.isFinal = true → (m.apply use).status ≠ m.status →
    use = .reset ∨ (∃ code, use = .load code) ∨ use = .stepBack

variable {m : Machine}

/-- A program is loaded, and the fault and the status are in accord. -/
structure Primed (m : Machine) : Prop where
  loaded : m.code.isSome = true
  accord : m.toEngine.InAccord

theorem Primed.step (primed : m.Primed) : m.step.2.Primed :=
  ⟨(step_frame m).1 ▸ primed.loaded, step_inAccord primed.accord⟩

/-- Another status that is not final, while there is no fault. -/
theorem Primed.awake (primed : m.Primed) (awake : m.status.isFinal = false) {status : Status}
    (fine : status ≠ .error) : Primed { m with status } := by
  refine ⟨primed.loaded, Engine.inAccord_fine (primed.accord.none fun same => ?_) fine⟩
  rw [same] at awake
  cases awake

theorem Primed.course {stops : Machine → StepReport → Machine → Bool} {before : List Machine}
    {last : Machine} (primed : m.Primed) (course : Course Machine.step stops m before last) :
    last.Primed :=
  (course.keeps (fun _ primed => primed.step) primed).2

theorem Primed.landing (primed : m.Primed) : m.landing.2.Primed := by
  rcases landing_cases m with same | ⟨report, stepped, undone, same⟩
  · exact same ▸ primed.step
  · have awake : m.step.2.status.isFinal = false :=
      (step_done primed.loaded (Prod.ext stepped rfl)).symm.trans undone
    exact same ▸ primed.step.awake awake fun same => nomatch same

theorem Primed.seeks (primed : m.Primed) : m.runUntilBreakpoint.2.Primed := by
  have seeks := Machine.seeks m
  generalize m.runUntilBreakpoint = result at seeks ⊢
  generalize m.soughtSteps = steps at seeks
  cases seeks with
  | atOnce first => exact primed.awake (first ▸ rfl) fun same => nomatch same
  | lost => exact primed
  | went _ course => exact (primed.course course).landing

theorem Primed.paused (primed : m.Primed) : m.paused.Primed := by
  unfold Machine.paused Engine.pause
  split
  next running => exact primed.awake (running ▸ rfl) fun same => nomatch same
  next => exact primed

theorem Primed.resumed (primed : m.Primed) : m.resumed.Primed := by
  unfold Machine.resumed Engine.resume
  split
  next paused => exact primed.awake (paused ▸ rfl) fun same => nomatch same
  next => exact primed

theorem Primed.obey (primed : m.Primed) (order : Order) : (m.obey order).Primed := by
  by_cases edit : order.isEdit = true
  · obtain ⟨breakpoints, watches, same⟩ := obey_edit (m := m) edit
    rw [same]
    exact ⟨primed.loaded, primed.accord⟩
  cases order with
  | step => exact primed.step
  | run =>
    obtain ⟨before, last, -, -, course, ran⟩ := exists_run m
    show m.run.2.Primed
    rw [ran]
    exact (primed.course course).step
  | runAll =>
    obtain ⟨before, last, -, -, course, ran⟩ := exists_runAll m
    show m.runAll.2.Primed
    rw [ran]
    exact (primed.course course).step
  | runUntilBreakpoint => exact primed.seeks
  | continueRun => exact primed.resumed.seeks
  | pause => exact primed.paused
  | resume => exact primed.resumed
  | _ => exact absurd rfl edit

theorem primed_load (m : Machine) (code : Code) : (m.load code).Primed :=
  ⟨rfl, Engine.inAccord_fine rfl fun same => nomatch same⟩

/-- Whatever the host does, the fault and the status stay in accord. -/
theorem Primed.apply (primed : m.Primed) (use : Use) : (m.apply use).Primed := by
  cases use with
  | order order => exact primed.obey order
  | reset => exact ⟨primed.loaded, Engine.inAccord_fine rfl fun same => nomatch same⟩
  | load code => exact primed_load m code
  | setGlobal => exact ⟨primed.loaded, primed.accord⟩
  | evaluate source =>
    obtain ⟨_, _, _, _, -, same⟩ := evaluate_machine m source
    show (m.evaluate source).2.Primed
    rw [same]
    exact ⟨primed.loaded, primed.accord⟩
  | stepBack =>
    show m.stepBack.2.Primed
    unfold stepBack
    split
    · exact primed
    · exact ⟨primed.loaded, Engine.inAccord_fine rfl fun same => nomatch same⟩

section Stillness

/-- Nothing goes on behind the end of a program. -/
theorem step_final (isOver : m.status.isFinal = true) : m.step = (.ok .ended, m) := by
  unfold step finished
  rw [isOver, Bool.or_true, if_pos rfl]

theorem run_final (isOver : m.status.isFinal = true) : m.run = (.ok .ended, m) := by
  show m.runFor ((m.maxSteps - m.stepCount).toNat + 1) = _
  unfold runFor
  rw [step_final isOver]
  rfl

theorem runAll_final (isOver : m.status.isFinal = true) : m.runAll = (.ok [], m) := by
  show m.runAllFor ((m.maxSteps - m.stepCount).toNat + 1) [] = _
  unfold runAllFor
  rw [step_final isOver]
  rfl

theorem paused_final (isOver : m.status.isFinal = true) : m.paused = m := by
  unfold paused Engine.pause
  rw [if_neg]
  rintro running
  rw [running] at isOver
  cases isOver

theorem resumed_final (isOver : m.status.isFinal = true) : m.resumed = m := by
  unfold resumed Engine.resume
  rw [if_neg]
  rintro paused
  rw [paused] at isOver
  cases isOver

theorem seek_final (isOver : m.status.isFinal = true) : m.runUntilBreakpoint.2 = m := by
  unfold runUntilBreakpoint
  rw [if_neg fun first => by
    rw [of_decide_eq_true (Bool.and_eq_true_iff.mp first).1] at isOver
    cases isOver]
  show (m.seekFor ((m.maxSteps - m.stepCount).toNat + 1)).2 = m
  unfold seekFor
  split
  · rfl
  next placed =>
    rw [step_final isOver]
    dsimp only
    rw [if_neg placed]
    rfl

theorem obey_final (isOver : m.status.isFinal = true) (order : Order) :
    (m.obey order).status = m.status := by
  by_cases edit : order.isEdit = true
  · obtain ⟨breakpoints, watches, same⟩ := obey_edit (m := m) edit
    rw [same]
    rfl
  cases order with
  | step => exact congrArg (fun result => result.2.status) (step_final isOver)
  | run => exact congrArg (fun result => result.2.status) (run_final isOver)
  | runAll => exact congrArg (fun result => result.2.status) (runAll_final isOver)
  | runUntilBreakpoint => exact congrArg (fun m => m.status) (seek_final isOver)
  | continueRun =>
    show m.resumed.runUntilBreakpoint.2.status = m.status
    rw [resumed_final isOver, seek_final isOver]
  | pause => exact congrArg (fun m => m.status) (paused_final isOver)
  | resume => exact congrArg (fun m => m.status) (resumed_final isOver)
  | _ => exact absurd rfl edit

end Stillness

section Pauses

theorem resumed_awake (m : Machine) : m.resumed.status ≠ .paused := by
  unfold resumed Engine.resume
  split
  · exact fun same => nomatch same
  next awake => exact awake

/-- A run to the next breakpoint leaves a machine paused only at a breakpoint, or where a handler
asked for it, or if it did not take a step. -/
theorem seek_paused (primed : m.Primed) (paused : m.runUntilBreakpoint.2.status = .paused) :
    (∃ report, m.runUntilBreakpoint.1 = .ok (report, true)) ∨
      (∃ k ∈ m.soughtSteps, k.PausedByHandler) ∨ m.status = .paused ∧ m.soughtSteps = [] := by
  have seeks := Machine.seeks m
  generalize m.runUntilBreakpoint = result at seeks paused ⊢
  generalize m.soughtSteps = steps at seeks ⊢
  cases seeks with
  | atOnce => exact .inl ⟨_, rfl⟩
  | lost => exact .inr (.inr ⟨paused, rfl⟩)
  | @went before last _ course =>
    rcases landing_cases last with same | ⟨report, -, -, same⟩
    · rw [same] at paused
      exact .inr (.inl ⟨last, List.mem_append_right _ List.mem_cons_self,
        step_pausing (primed.course course).loaded paused⟩)
    · exact .inl ⟨report, congrArg Prod.fst same⟩

theorem obey_paused (primed : m.Primed) (order : Order) (paused : (m.obey order).status = .paused) :
    order = .pause ∧ m.status = .running ∨
      (m.hits order = true ∨ ∃ k ∈ m.stepsOf order, k.PausedByHandler) ∨
      m.status = .paused ∧ m.stepsOf order = [] := by
  by_cases edit : order.isEdit = true
  · obtain ⟨breakpoints, watches, same⟩ := obey_edit (m := m) edit
    rw [same] at paused
    exact .inr (.inr ⟨paused, stepsOf_edit edit⟩)
  cases order with
  | step => exact .inr (.inl (.inr ⟨m, List.mem_cons_self, step_pausing primed.loaded paused⟩))
  | run =>
    obtain ⟨before, last, steps, -, course, ran⟩ := exists_run m
    have paused : m.run.2.status = .paused := paused
    rw [ran] at paused
    refine .inr (.inl (.inr ⟨last, ?_, step_pausing (primed.course course).loaded paused⟩))
    show last ∈ trail Machine.step (atTurn fun m => m.status) m.stepsLeft m
    exact steps ▸ List.mem_append_right _ List.mem_cons_self
  | runAll =>
    obtain ⟨before, last, steps, -, course, ran⟩ := exists_runAll m
    have paused : m.runAll.2.status = .paused := paused
    rw [ran] at paused
    refine .inr (.inl (.inr ⟨last, ?_, step_pausing (primed.course course).loaded paused⟩))
    show last ∈ trail Machine.step atEnd m.stepsLeft m
    exact steps ▸ List.mem_append_right _ List.mem_cons_self
  | runUntilBreakpoint =>
    rcases seek_paused primed paused with ⟨report, hit⟩ | asked | still
    · refine .inr (.inl (.inl ?_))
      unfold hits
      dsimp only
      rw [hit]
    · exact .inr (.inl (.inr asked))
    · exact .inr (.inr still)
  | continueRun =>
    rcases seek_paused primed.resumed paused with ⟨report, hit⟩ | asked | ⟨still, -⟩
    · refine .inr (.inl (.inl ?_))
      unfold hits continueRun
      dsimp only
      rw [hit]
    · exact .inr (.inl (.inr asked))
    · exact absurd still (resumed_awake m)
  | pause =>
    have paused : m.paused.status = .paused := paused
    unfold Machine.paused Engine.pause at paused
    split at paused
    next running => exact .inl ⟨rfl, running⟩
    next => exact .inr (.inr ⟨paused, rfl⟩)
  | resume => exact absurd paused (resumed_awake m)
  | _ => exact absurd rfl edit

end Pauses

theorem evaluate_status (m : Machine) (source : String) : (m.evaluate source).2.status = m.status := by
  obtain ⟨_, _, _, _, -, same⟩ := evaluate_machine m source
  rw [same]

/-- A machine that was given a program is governed. -/
theorem Primed.governed (primed : m.Primed) : m.Governed where
  accord := primed.accord
  done report next stepped := by rw [step_done primed.loaded stepped]
  still isOver := ⟨step_final isOver, run_final isOver, runAll_final isOver, paused_final isOver,
    resumed_final isOver⟩
  paused use paused := by
    cases use with
    | order order =>
      rcases obey_paused primed order paused with ⟨rfl, running⟩ | asked | ⟨still, none⟩
      · exact .inl ⟨rfl, running⟩
      · exact .inr (.inl ⟨order, rfl, asked⟩)
      · refine .inr (.inr (.inr ⟨still, ?_⟩))
        rintro _ ⟨⟩
        exact none
    | reset | load => cases paused
    | setGlobal => exact .inr (.inr (.inr ⟨paused, fun _ same => nomatch same⟩))
    | evaluate source =>
      have paused : (m.evaluate source).2.status = .paused := paused
      rw [evaluate_status] at paused
      exact .inr (.inr (.inr ⟨paused, fun _ same => nomatch same⟩))
    | stepBack =>
      have paused : m.stepBack.2.status = .paused := paused
      cases kept : m.history with
      | nil =>
        unfold stepBack at paused
        rw [kept] at paused
        exact .inr (.inr (.inr ⟨paused, fun _ same => nomatch same⟩))
      | cons s older =>
        refine .inr (.inr (.inl ⟨rfl, ?_⟩))
        unfold stepBack
        rw [kept]
  left use isOver left := by
    cases use with
    | order order => exact absurd (obey_final isOver order) left
    | reset => exact .inl rfl
    | load code => exact .inr (.inl ⟨code, rfl⟩)
    | setGlobal => exact absurd rfl left
    | evaluate source => exact absurd (evaluate_status m source) left
    | stepBack => exact .inr (.inr rfl)

end Machine

namespace Walker

/-- What the host can do with a walker. -/
inductive Use where
  | order (order : Order)
  | reset
  /-- Loading a program whose functions, classes and methods have names. -/
  | load (program : Program)
  | setGlobal (name : Name) (v : Value)
  deriving Inhabited

def apply (use : Use) (w : Walker) : Walker :=
  match use with
  | .order order => w.obey order
  | .reset => w.reset
  | .load program => Walker.reset { w with program := some program }
  | .setGlobal name v => { w with toEngine := w.toEngine.setGlobal name v }

/-- What the status of a walker says, and how it changes. -/
structure Governed (w : Walker) : Prop where
  /-- The status is error exactly if there is a fault, with its message and its place. -/
  accord : w.fault.isSome = true ↔ w.status = .error
  done : ∀ report next, w.step = (.ok report, next) →
    (report.done = true ↔ next.status.isFinal = true)
  /-- Nothing goes on behind the end of a program. -/
  still : w.status.isFinal = true → w.step = (.ok .ended, w) ∧ w.run = (.ok .ended, w) ∧
    w.runAll = (.ok [], w) ∧ w.paused = w ∧ w.resumed = w
  /-- A walker that is paused was asked to by the host or by a handler, while it ran; else it was
  paused before, and has taken no step. -/
  paused : ∀ use, (w.apply use).status = .paused →
    use = .order .pause ∧ w.status = .running ∨
    (∃ order, use = .order order ∧ ∃ k ∈ w.stepsOf order, k.PausedByHandler) ∨
    w.status = .paused ∧ ∀ order, use = .order order → w.stepsOf order = []
  left : ∀ use, w.status.isFinal = true → (w.apply use).status ≠ w.status →
    use = .reset ∨ ∃ program, use = .load program

variable {w : Walker}

/-- A program is loaded, and the fault and the status are in accord. -/
structure Primed (w : Walker) : Prop where
  loaded : w.program.isSome = true
  accord : w.toEngine.InAccord

theorem Primed.step (primed : w.Primed) : w.step.2.Primed :=
  ⟨(step_frame w).1 ▸ primed.loaded, step_inAccord primed.accord⟩

/-- Another status that is not final, while there is no fault. -/
theorem Primed.awake (primed : w.Primed) (awake : w.status.isFinal = false) {status : Status}
    (fine : status ≠ .error) : Primed { w with status } := by
  refine ⟨primed.loaded, Engine.inAccord_fine (primed.accord.none fun same => ?_) fine⟩
  rw [same] at awake
  cases awake

theorem Primed.course {stops : Walker → StepReport → Walker → Bool} {before : List Walker}
    {last : Walker} (primed : w.Primed) (course : Course Walker.step stops w before last) :
    last.Primed :=
  (course.keeps (fun _ primed => primed.step) primed).2

theorem Primed.obey (primed : w.Primed) (order : Order) : (w.obey order).Primed := by
  cases order with
  | step => exact primed.step
  | run =>
    obtain ⟨before, last, -, -, course, ran⟩ := exists_run w
    show w.run.2.Primed
    rw [ran]
    exact (primed.course course).step
  | runAll =>
    obtain ⟨before, last, -, -, course, ran⟩ := exists_runAll w
    show w.runAll.2.Primed
    rw [ran]
    exact (primed.course course).step
  | pause =>
    show w.paused.Primed
    unfold paused Engine.pause
    split
    next running => exact primed.awake (running ▸ rfl) fun same => nomatch same
    next => exact primed
  | resume =>
    show w.resumed.Primed
    unfold resumed Engine.resume
    split
    next paused => exact primed.awake (paused ▸ rfl) fun same => nomatch same
    next => exact primed
  | look => exact primed

theorem primed_reset (loaded : w.program.isSome = true) : w.reset.Primed := by
  unfold reset
  obtain ⟨program, found⟩ := Option.isSome_iff_exists.mp loaded
  dsimp only
  rw [found]
  exact ⟨rfl, Engine.inAccord_fine rfl fun same => nomatch same⟩

/-- Whatever the host does, the fault and the status stay in accord. -/
theorem Primed.apply (primed : w.Primed) (use : Use) : (w.apply use).Primed := by
  cases use with
  | order order => exact primed.obey order
  | reset => exact primed_reset primed.loaded
  | load program => exact primed_reset (w := { w with program := some program }) rfl
  | setGlobal => exact ⟨primed.loaded, primed.accord⟩

theorem primed_load {program : Program} {loaded : Walker} (done : w.load program = .ok loaded) :
    loaded.Primed := by
  obtain ⟨_, -, done⟩ := bind_eq_ok.mp done
  obtain ⟨_, -, done⟩ := bind_eq_ok.mp done
  cases done
  exact primed_reset rfl

section Stillness

/-- Nothing goes on behind the end of a program. -/
theorem step_final (isOver : w.status.isFinal = true) : w.step = (.ok .ended, w) := by
  unfold step finished
  rw [isOver, Bool.or_true, if_pos rfl]

theorem run_final (isOver : w.status.isFinal = true) : w.run = (.ok .ended, w) := by
  show w.runFor ((w.maxSteps - w.stepCount).toNat + 1) = _
  unfold runFor
  rw [step_final isOver]
  rfl

theorem runAll_final (isOver : w.status.isFinal = true) : w.runAll = (.ok [], w) := by
  show w.runAllFor ((w.maxSteps - w.stepCount).toNat + 1) [] = _
  unfold runAllFor
  rw [step_final isOver]
  rfl

theorem paused_final (isOver : w.status.isFinal = true) : w.paused = w := by
  unfold paused Engine.pause
  rw [if_neg]
  rintro running
  rw [running] at isOver
  cases isOver

theorem resumed_final (isOver : w.status.isFinal = true) : w.resumed = w := by
  unfold resumed Engine.resume
  rw [if_neg]
  rintro paused
  rw [paused] at isOver
  cases isOver

theorem obey_final (isOver : w.status.isFinal = true) (order : Order) : w.obey order = w := by
  cases order with
  | step => exact congrArg Prod.snd (step_final isOver)
  | run => exact congrArg Prod.snd (run_final isOver)
  | runAll => exact congrArg Prod.snd (runAll_final isOver)
  | pause => exact paused_final isOver
  | resume => exact resumed_final isOver
  | look => rfl

end Stillness

theorem obey_paused (primed : w.Primed) (order : Order) (paused : (w.obey order).status = .paused) :
    order = .pause ∧ w.status = .running ∨ (∃ k ∈ w.stepsOf order, k.PausedByHandler) ∨
      w.status = .paused ∧ w.stepsOf order = [] := by
  cases order with
  | step => exact .inr (.inl ⟨w, List.mem_cons_self, step_pausing primed.loaded paused⟩)
  | run =>
    obtain ⟨before, last, steps, -, course, ran⟩ := exists_run w
    have paused : w.run.2.status = .paused := paused
    rw [ran] at paused
    refine .inr (.inl ⟨last, ?_, step_pausing (primed.course course).loaded paused⟩)
    show last ∈ trail Walker.step (atTurn fun w => w.status) w.stepsLeft w
    exact steps ▸ List.mem_append_right _ List.mem_cons_self
  | runAll =>
    obtain ⟨before, last, steps, -, course, ran⟩ := exists_runAll w
    have paused : w.runAll.2.status = .paused := paused
    rw [ran] at paused
    refine .inr (.inl ⟨last, ?_, step_pausing (primed.course course).loaded paused⟩)
    show last ∈ trail Walker.step atEnd w.stepsLeft w
    exact steps ▸ List.mem_append_right _ List.mem_cons_self
  | pause =>
    have paused : w.paused.status = .paused := paused
    unfold Walker.paused Engine.pause at paused
    split at paused
    next running => exact .inl ⟨rfl, running⟩
    next => exact .inr (.inr ⟨paused, rfl⟩)
  | resume =>
    have paused : w.resumed.status = .paused := paused
    unfold resumed Engine.resume at paused
    split at paused
    next => cases paused
    next awake => exact absurd paused awake
  | look => exact .inr (.inr ⟨paused, rfl⟩)

/-- A walker that was given a program is governed. -/
theorem Primed.governed (primed : w.Primed) : w.Governed where
  accord := primed.accord
  done report next stepped := by rw [step_done primed.loaded stepped]
  still isOver := ⟨step_final isOver, run_final isOver, runAll_final isOver, paused_final isOver,
    resumed_final isOver⟩
  paused use paused := by
    have fresh {w : Walker} : w.reset.status ≠ .paused := by
      unfold reset
      dsimp only
      split <;> exact fun same => nomatch same
    cases use with
    | order order =>
      rcases obey_paused primed order paused with ⟨rfl, running⟩ | asked | ⟨still, none⟩
      · exact .inl ⟨rfl, running⟩
      · exact .inr (.inl ⟨order, rfl, asked⟩)
      · refine .inr (.inr ⟨still, ?_⟩)
        rintro _ ⟨⟩
        exact none
    | reset | load => exact absurd paused fresh
    | setGlobal => exact .inr (.inr ⟨paused, fun _ same => nomatch same⟩)
  left use isOver left := by
    cases use with
    | order order => exact absurd (congrArg (fun w => w.status) (obey_final isOver order)) left
    | reset => exact .inl rfl
    | load program => exact .inr ⟨program, rfl⟩
    | setGlobal => exact absurd rfl left

end Walker

/-- The status machine of both engines. Whatever the host does with an engine that was given a
program, and whatever its handlers do, the engine is governed: the fault and the status are in accord,
a step is done exactly if the status behind it is final, nothing changes behind the end of a program
until another run begins or a step is undone, and an engine gets paused only where it was asked to, at
a breakpoint, or by undoing a step. -/
theorem statuses_governed :
    (∀ (m : Machine) (code : Code) (uses : List Machine.Use),
      (uses.foldl (fun m use => m.apply use) (m.load code)).Governed) ∧
    ∀ (w loaded : Walker) (program : Program) (uses : List Walker.Use),
      w.load program = .ok loaded → (uses.foldl (fun w use => w.apply use) loaded).Governed := by
  constructor
  · intro m code uses
    have primed : ∀ m : Machine, m.Primed → (uses.foldl (fun m use => m.apply use) m).Primed := by
      induction uses with
      | nil => exact fun _ primed => primed
      | cons use uses ih => exact fun m primed => ih _ (primed.apply use)
    exact (primed _ (Machine.primed_load m code)).governed
  · intro w loaded program uses done
    have primed : ∀ w : Walker, w.Primed → (uses.foldl (fun w use => w.apply use) w).Primed := by
      induction uses with
      | nil => exact fun _ primed => primed
      | cons use uses ih => exact fun w primed => ih _ (primed.apply use)
    exact (primed _ (Walker.primed_load done)).governed

/-- A host whose command `rest` pauses the engine. -/
def resting : Host := Host.register {} .command (.text "rest") (.pausing .null)

/-- Both engines are paused by a handler, in the last step of the walker. -/
theorem statuses_governed_resting : ∃ program code loaded,
    Program.parse "rest()\n" unnamedSource = .ok program ∧
      program.compile unnamedSource = .ok code ∧
      Walker.load { Walker.new {} with host := resting } program = .ok loaded ∧
      (Machine.apply (.order .run)
        (Machine.load { Machine.new {} with host := resting } code)).status = .paused ∧
      (Machine.apply (.order .run)
        (Machine.load { Machine.new {} with host := resting } code)).Governed ∧
      (Walker.apply (.order .run) loaded).status = .paused ∧
      (Walker.apply (.order .run) loaded).Governed := by
  have both : (readForBoth { Walker.new {} with host := resting } "rest()\n").toOption.any
      (fun (_, code, loaded) =>
        (Machine.apply (.order .run)
          (Machine.load { Machine.new {} with host := resting } code)).status = .paused &&
        (Walker.apply (.order .run) loaded).status = .paused) = true := by
    decide +kernel
  obtain ⟨program, code, loaded, parsed, compiled, done, checked⟩ := exists_readForBoth both
  simp only [Bool.and_eq_true, decide_eq_true_eq] at checked
  obtain ⟨machine, walker⟩ := checked
  exact ⟨program, code, loaded, parsed, compiled, done, machine,
    statuses_governed.1 _ code [.order .run], walker,
    statuses_governed.2 _ loaded program [.order .run] done⟩

end Stepwise
