import Stepwise.Proofs.Walker.Moves

/-!
What one step of the walker can do, said once: `Walker.Steps` lists the ways a step can go, and what
happens to the walker on the way is described by `Walked` and `Broken`.
-/
namespace Stepwise.Walker

variable {w w' : Walker}

section Frames

theorem walks_modifyFrame (f : Frame → Frame) : Walks (modifyFrame f) := by
  intro w
  simp only [modifyFrame, Act.modify_apply]
  split
  · exact .refl w
  · exact .still (.refl _)

theorem walks_openLoop (kind : LoopKind) (line : Option Int) (body : List Stmt) :
    Walks (openLoop kind line body) := walks_modifyFrame _

theorem walks_nextRound (kind : LoopKind) (again : Bool) : Walks (nextRound kind again) :=
  walks_modifyFrame _

theorem walks_setPosition (position : Nat) : Walks (setPosition position) := walks_modifyFrame _

theorem walks_enterBranch (body : List Stmt) : Walks (enterBranch body) :=
  .ite (walks_pure ()) fun _ => .still (.refl _)

theorem walks_finishProgram : Walks finishProgram := by
  intro w
  have emptied : Walked w { w with frames := [] } := .still (.refl _)
  exact emptied.trans .completed

theorem walks_highlight (line : Option Int) : Walks (highlight line) := fun w =>
  .still (Engine.still_work w.toEngine w.globals w.world line)

theorem walks_unwind : Walks (modify unwind) := fun _ => .still (.refl _)

theorem walks_makeRoom : Walks makeRoom := by
  have tight (levels : Int) :
      Walks (if levels < leastLevels then throw (.host .endless) else pure ()) :=
    .ite (walks_throw _) (walks_pure ())
  refine walks_get.bind fun w => ?_
  exact .ite ((walks_throw _).bind fun _ => .ite ((walks_throw _).bind fun _ => tight _) (tight _))
    (.ite ((walks_throw _).bind fun _ => tight _) (tight _))

theorem walks_chooseElif (otherwise : Option (List Stmt)) (es : List Elif) :
    Walks (chooseElif otherwise es) := by
  induction es with
  | nil => exact walks_pure _
  | cons e es ih => exact (walks_test honest_invokeTop e.test).bind fun _ => .ite (walks_pure _) ih

/-- A statement of the main program begins without a count against the limit of the step. -/
theorem walks_stepStatement (s : Stmt) : Walks (stepStatement s) := by
  have honest := honest_invokeTop
  have straight : Walks (do
      let _ ← exec invokeTop false s
      modifyFrame Frame.next) :=
    (walks_exec honest s false).bind fun _ => walks_modifyFrame _
  cases s with
  | branch pos condition body elifs otherwise =>
    refine (walks_modifyFrame _).bind fun _ => (walks_test honest condition).bind fun holds => ?_
    exact .ite (walks_enterBranch body)
      ((walks_chooseElif otherwise elifs).bind walks_enterBranch)
  | loopTimes pos count body =>
    exact (walks_countOf honest pos.line count).bind fun limit =>
      .ite (walks_modifyFrame _) (walks_openLoop _ _ _)
  | loopWhile pos condition body =>
    exact (walks_test honest condition).bind fun holds =>
      .ite (walks_openLoop _ _ _) (walks_modifyFrame _)
  | loopRange pos var start stop step body =>
    exact (walks_boundsOf honest pos.line start stop step).bind fun bounds =>
      (walks_lift _).bind fun name => (walks_store name _).bind fun _ =>
      (walks_inRange honest _ _ _).bind fun inside => .ite (walks_openLoop _ _ _) (walks_modifyFrame _)
  | loopEach pos var items body =>
    refine (walks_itemsOf honest pos.line items).bind fun items => ?_
    cases items with
    | nil => exact walks_modifyFrame _
    | cons item rest =>
      exact (walks_lift _).bind fun name => (walks_store name item).bind fun _ =>
        walks_openLoop _ _ _
  | give pos value =>
    exact (walks_evalOption honest value).bind fun _ => walks_finishProgram
  | _ => exact straight

theorem walks_advanceLoop (kind : LoopKind) : Walks (advanceLoop kind) := by
  cases kind with
  | times counter limit => exact walks_nextRound _ _
  | whileTrue condition =>
    exact (walks_test honest_invokeTop condition).bind fun _ => walks_nextRound _ _
  | range var stop step =>
    exact (walks_lift _).bind fun name => (walks_advanceRange honest_invokeTop name step).bind fun v =>
      (walks_inRange honest_invokeTop v stop step).bind fun _ => walks_nextRound _ _
  | each var items index =>
    unfold advanceLoop
    dsimp only
    split
    · exact walks_nextRound _ _
    · exact (walks_lift _).bind fun name => (walks_store name _).bind fun _ => walks_nextRound _ _

theorem walks_stepLoop (loop : OpenLoop) : Walks (stepLoop loop) := by
  unfold stepLoop
  split
  next s _ =>
    refine (walks_setPosition _).bind fun _ => (walks_highlight s.line).bind fun _ =>
      (walks_exec honest_invokeTop s true).bind fun flow => ?_
    cases flow with
    | next => exact walks_pure ()
    | leave => exact walks_modifyFrame _
    | again => exact walks_setPosition _
    | give => exact walks_finishProgram
  next =>
    exact (walks_highlight loop.line).bind fun _ => (walks_setLine loop.line).bind fun _ =>
      walks_advanceLoop loop.kind

theorem walks_stepFrame : Walks stepFrame := by
  refine walks_makeRoom.bind fun _ => walks_unwind.bind fun _ => walks_get.bind fun w => ?_
  split
  next => exact fun _ => .completed
  next frame outer _ =>
    split
    next loop _ => exact walks_stepLoop loop
    next =>
      split
      next => exact walks_pure ()
      next s _ =>
        exact (walks_highlight s.line).bind fun _ => (walks_setLine s.line).bind fun _ =>
          walks_stepStatement s

end Frames

/-- A walker at the beginning of a step. -/
def started (w : Walker) : Walker :=
  { w with status := .running, stepCount := w.stepCount + 1, report := {}, begun := 0 }

/-- A step goes ahead: the program is not over and the limit is not reached. -/
def Goes (w : Walker) : Prop := w.finished = false ∧ ¬ w.maxSteps < (w.stepCount + 1 : Nat)

instance (w : Walker) : Decidable w.Goes := inferInstanceAs (Decidable (_ ∧ _))

/-- A walker stopped by a fault, which happened on the line it is at unless it says otherwise. -/
def stoppedBy (w : Walker) (fault : Fault) : Walker :=
  { w with toEngine := w.toEngine.fail (fault.withLine w.line) }

/-- A walker whose step exceeds the limit of steps. -/
def outOfSteps (w : Walker) : Walker :=
  { w with
    stepCount := w.stepCount + 1
    fault := some (w.tooManySteps w.currentLine)
    status := .error }

/-- The fault that a failure ends a step in; other failures of the host leave the step. -/
def caught? : Failure → Option Fault
  | .fault fault => some fault
  | .host .endless => some depthExceeded
  | .host _ => none

/-- The status behind a step that went well. -/
def ending (w : Walker) : Status :=
  if w.unwind.frames.isEmpty && w.status = .running then .completed else w.status

/-- A walker behind a step that went well, without the frames that have nothing left to run. -/
def settled (w : Walker) : Walker :=
  { w.unwind with status := w.ending, report := { w.report with done := w.ending = .completed } }

inductive Steps (w : Walker) : Driven StepReport → Walker → Prop where
  | ended : w.finished = true → Steps w (.ok .ended) w
  | exhausted : w.finished = false → w.maxSteps < (w.stepCount + 1 : Nat) →
      Steps w (.ok .ended) w.outOfSteps
  | went {next : Walker} : w.Goes → stepFrame w.started = (.ok (), next) →
      Steps w (.ok next.settled.report) next.settled
  | stopped {failure : Failure} {fault : Fault} {next : Walker} : w.Goes →
      stepFrame w.started = (.error failure, next) → caught? failure = some fault →
      Steps w (.ok { done := true, highlightLine := (fault.withLine next.line).line })
        (next.stoppedBy fault)
  | broken {failure : HostFailure} {next : Walker} : w.Goes →
      stepFrame w.started = (.error (.host failure), next) → caught? (.host failure) = none →
      Steps w (.error failure) next

theorem steps (w : Walker) : Steps w w.step.1 w.step.2 := by
  unfold step
  split
  next ended => exact .ended ended
  next under =>
    have unfinished : w.finished = false := by simpa using under
    dsimp only
    split
    next exceeds => exact .exhausted unfinished exceeds
    next within =>
      have goes : w.Goes := ⟨unfinished, within⟩
      split
      next next done => exact .went goes done
      next fault next failed => exact .stopped goes failed rfl
      next next failed => exact .stopped goes failed rfl
      next failure next finite failed =>
        refine .broken goes failed ?_
        cases failure with
        | endless => exact absurd rfl finite
        | _ => rfl

theorem steps_of_eq {result : Driven StepReport} (stepped : w.step = (result, w')) :
    Steps w result w' := by
  have taken := steps w
  rwa [stepped] at taken

end Stepwise.Walker
