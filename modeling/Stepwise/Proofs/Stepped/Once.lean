import Stepwise.Proofs.Stepped.Runs

/-!
A program that is one loop with a single round. The loop is stepped, and each statement of its body is
run within one step: `concludes_once`. The body may stand elsewhere than the statements it is compared
with.
-/
namespace Stepwise.Walker

variable {u w last : Walker} {before : List Walker} {body : List Stmt}

/-- A loop that runs its body once. -/
def once (pos countPos : Pos) (body : List Stmt) : Stmt :=
  .loopTimes pos (.literal countPos .number (.scalar (.number (.int 1)))) body

/-- The frame of a program that is one loop with a single round, in the middle of its body. -/
def onceAround (pos countPos : Pos) (body : List Stmt) (position : Nat) : Frame where
  statements := [once pos countPos body]
  loop := some { kind := .times 0 1, line := pos.line, body, position }

/-- A walker that has come as far as another one, between two steps. -/
structure Level (u w : Walker) : Prop where
  engine : u.toEngine.Resembles w.toEngine
  functions : u.functions = w.functions
  classes : u.classes = w.classes
  locals : u.locals = w.locals
  stepCount : u.stepCount = w.stepCount

/-- A walker in a step that runs a statement of the body. -/
def inBody (w : Walker) (frame : Frame) (line : Option Int) : Walker :=
  { w.started with frames := [frame], report := { highlightLine := line } }

variable {pos countPos : Pos}

/-- What a step does with the innermost frame, if that has something left to run. -/
theorem stepFrame_started {frame : Frame} {outer : List Frame} (frames : w.frames = frame :: outer)
    (unfinished : frame.finished = false) (room : (makeRoom w).1 = .ok ()) :
    stepFrame w.started = (match frame.loop with
      | some loop => stepLoop loop
      | none =>
        match frame.statements[frame.index]? with
        | none => pure ()
        | some s => do
          highlight s.line
          setLine s.line
          stepStatement s) w.started := by
  have roomy : makeRoom w.started = (.ok (), w.started) :=
    (makeRoom_congr (u := w.started) (w := w) rfl).trans (by rw [room])
  have still : w.started.unwind = w.started := by
    show { w.started with frames := w.frames.dropWhile Frame.finished } =
      { w.started with frames := w.frames }
    rw [frames, List.dropWhile_cons_of_neg (by simp [unfinished])]
  have unwound : (modify unwind : Walk Unit) w.started = (.ok (), w.started) :=
    congrArg (Prod.mk (Except.ok ())) still
  have here : w.started.frames = frame :: outer := frames
  rw [stepFrame, Act.bind_ok roomy, Act.bind_ok unwound, Act.bind_ok (Act.get_apply _)]
  exact here ▸ rfl

theorem modifyFrame_cons {frame : Frame} {outer : List Frame} (here : w.frames = frame :: outer)
    (f : Frame → Frame) : modifyFrame f w = (.ok (), { w with frames := f frame :: outer }) := by
  simp only [modifyFrame, Act.modify_apply, here]

section Open

variable {frame : Frame} {outer : List Frame} {loop : OpenLoop}

/-- A walker in a step that runs a statement in the body of an open loop. -/
def inLoop (w : Walker) (frame : Frame) (outer : List Frame) (loop : OpenLoop) (line : Option Int) :
    Walker :=
  { w.started with
    frames := { frame with loop := some { loop with position := loop.position + 1 } } :: outer
    report := { highlightLine := line } }

/-- What a step does with the next statement in the body of an open loop. -/
theorem stepFrame_within {s : Stmt} (frames : w.frames = { frame with loop := some loop } :: outer)
    (room : (makeRoom w).1 = .ok ()) (there : loop.body[loop.position]? = some s) :
    stepFrame w.started = (do
      match ← exec invokeTop true s with
      | .next => pure ()
      | .leave => modifyFrame Frame.closeLoop
      | .again => setPosition loop.body.length
      | .give _ => finishProgram) (w.inLoop frame outer loop s.line) := by
  have started : w.started = { w.started with frames := { frame with loop := some loop } :: outer } := by
    rw [← frames]
    rfl
  rw [stepFrame_started frames rfl room, started]
  show stepLoop loop _ = _
  unfold stepLoop
  dsimp only
  rw [there]
  rfl

/-- What a step does behind the body of an open loop. -/
theorem stepFrame_behind (frames : w.frames = { frame with loop := some loop } :: outer)
    (room : (makeRoom w).1 = .ok ()) (behind : loop.body.length ≤ loop.position) :
    stepFrame w.started = advanceLoop loop.kind { w.started with
      report := { highlightLine := loop.line }
      line := loop.line } := by
  rw [stepFrame_started frames rfl room]
  show stepLoop loop _ = _
  unfold stepLoop
  dsimp only
  rw [List.getElem?_eq_none behind]
  rfl

end Open

theorem stepFrame_inside {i : Nat} {s : Stmt} (frames : w.frames = [onceAround pos countPos body i])
    (room : (makeRoom w).1 = .ok ()) (there : body[i]? = some s) :
    stepFrame w.started = (do
      match ← exec invokeTop true s with
      | .next => pure ()
      | .leave => modifyFrame Frame.closeLoop
      | .again => setPosition body.length
      | .give _ => finishProgram) (w.inBody (onceAround pos countPos body (i + 1)) s.line) :=
  @stepFrame_within w (onceAround pos countPos body i) [] _ s frames room there

/-- Behind the body the loop has no further round. -/
theorem stepFrame_round (frames : w.frames = [onceAround pos countPos body body.length])
    (room : (makeRoom w).1 = .ok ()) :
    stepFrame w.started = (.ok (), { w.started with
      frames := [{ onceAround pos countPos body body.length with index := 1, loop := none }]
      report := { highlightLine := pos.line }
      line := pos.line }) := by
  rw [@stepFrame_behind w (onceAround pos countPos body body.length) [] _ frames room (Nat.le_refl _)]
  have here : ({ w.started with report := { highlightLine := pos.line }, line := pos.line } :
      Walker).frames = [onceAround pos countPos body body.length] := frames
  exact modifyFrame_cons here _

/-- The first step opens the loop. -/
theorem stepFrame_opening (frames : w.frames = [{ onceAround pos countPos body 0 with loop := none }])
    (room : (makeRoom w).1 = .ok ()) :
    stepFrame w.started = (.ok (), { w.started with
      frames := [onceAround pos countPos body 0]
      report := { highlightLine := pos.line }
      line := pos.line }) := by
  have started : w.started =
      { w.started with frames := [{ onceAround pos countPos body 0 with loop := none }] } := by
    rw [← frames]
    rfl
  rw [stepFrame_started frames rfl room, started]
  rfl

section Steps

variable {next : Walker}

/-- A walker whose next step ends a drive to the end. -/
def IsLast (w : Walker) : Prop := ∀ report next, w.step = (.ok report, next) → report.done = true

theorem step_ok (goes : w.Goes) (ran : stepFrame w.started = (.ok (), next)) :
    w.step = (.ok next.settled.report, next.settled) := by
  have steps := steps w
  generalize w.step = result at steps ⊢
  obtain ⟨result, after⟩ := result
  cases steps with
  | ended isOver => exact absurd isOver (by simp [goes.1])
  | exhausted _ exceeds => exact absurd exceeds goes.2
  | went _ ran' =>
    cases ran.symm.trans ran'
    rfl
  | stopped _ ran' | broken _ ran' => cases ran.symm.trans ran'

theorem eq_host_of_unlined {failure : Failure} {own : HostFailure}
    (same : failure.unlined = Failure.unlined (.host own)) : failure = .host own := by
  cases failure with
  | fault => cases same
  | host => cases same; rfl

/-- A step that fails ends a drive. -/
theorem concludes_failure (goes : w.Goes) {failure : Failure}
    {failure' : Failure} (same : failure.unlined = failure'.unlined)
    (ran : stepFrame w.started = (.error failure', next))
    (resembles : u.toEngine.Resembles next.toEngine) :
    Concludes (.error failure, u) w.step ∧ w.IsLast := by
  have steps := steps w
  generalize stepped : w.step = result at steps ⊢
  obtain ⟨result, after⟩ := result
  cases steps with
  | ended isOver => exact absurd isOver (by simp [goes.1])
  | exhausted _ exceeds => exact absurd exceeds goes.2
  | went _ ran' => cases ran.symm.trans ran'
  | stopped _ ran' caught =>
    cases ran.symm.trans ran'
    refine ⟨.stopped same caught resembles, fun report after stepped' => ?_⟩
    cases stepped.symm.trans stepped'
    rfl
  | broken _ ran' escapes =>
    cases ran.symm.trans ran'
    obtain rfl := eq_host_of_unlined same
    exact ⟨.broken escapes resembles, fun report after stepped' =>
      nomatch stepped.symm.trans stepped'⟩

theorem step_exhausted (unfinished : w.finished = false)
    (exceeds : w.maxSteps < (w.stepCount + 1 : Nat)) : w.step = (.ok .ended, w.outOfSteps) := by
  have steps := steps w
  generalize w.step = result at steps ⊢
  obtain ⟨result, after⟩ := result
  cases steps with
  | ended isOver => exact absurd isOver (by simp [unfinished])
  | exhausted => rfl
  | went goes | stopped goes | broken goes => exact absurd exceeds goes.2

theorem outOfSteps_outOfSteps (w : Walker) : w.outOfSteps.OutOfSteps :=
  ⟨_, rfl, Engine.isExhaustion_tooManySteps ..⟩

end Steps

section Inside

variable {i : Nat} {next : Walker}

theorem enclosed_of_mem {s : Stmt} : ∀ {ss : List Stmt}, Stmt.EnclosedIn ss → s ∈ ss → s.Enclosed
  | [], _, member => nomatch member
  | t :: ss, ⟨first, others⟩, member => by
    rcases List.mem_cons.mp member with rfl | member
    · exact first
    · exact enclosed_of_mem others member

/-- The walker behind a statement of the body that went on. -/
theorem level_settled {w' : Walker}
    (resembles : Resembles True [onceAround pos countPos body i] u w')
    (count : u.stepCount = w'.stepCount) : w'.settled.report.done = false ∧
      w'.settled.status.isFinal = false ∧ w'.settled.frames = [onceAround pos countPos body i] ∧
      Level u w'.settled := by
  have frames : w'.settled.frames = [onceAround pos countPos body i] := by
    show w'.frames.dropWhile Frame.finished = _
    rw [resembles.frames]
    rfl
  have still : w'.ending = w'.status := by
    refine (ending_cases w').resolve_left fun done => ?_
    cases frames.symm.trans done.1
  have unfinished := resembles.unfinished
  refine ⟨decide_eq_false ?_, (congrArg Status.isFinal still).trans unfinished, frames,
    resembles.engine.driven _ _ _, resembles.functions, resembles.classes, resembles.locals, count⟩
  intro done
  rw [← still, done] at unfinished
  cases unfinished

variable {body' : List Stmt} (same : Stmt.unplacedAll body = Stmt.unplacedAll body')

include same

theorem length_eq_of_unplaced : body.length = body'.length := by
  have lengths := congrArg List.length same
  rwa [Stmt.unplacedAll_eq_map, Stmt.unplacedAll_eq_map, List.length_map, List.length_map] at lengths

theorem unplaced_getElem (within : i < body.length) (within' : i < body'.length) :
    body[i].unplaced = body'[i].unplaced := by
  have there := congrArg (fun ss => ss[i]?) same
  simpa [Stmt.unplacedAll_eq_map, within, within'] using there

/-- One step inside the loop: it ends the program, or it runs the next statement of the body. -/
theorem concludes_or_goes (unfinished : w.finished = false)
    (frames : w.frames = [onceAround pos countPos body' i]) (within : i ≤ body.length)
    (enclosed : Stmt.EnclosedIn body') (level : Level u w) (room : (makeRoom w).1 = .ok ()) :
    Concludes (paced (body.drop i) u) w.step ∧ w.IsLast ∨
      ∃ u' report next, w.step = (.ok report, next) ∧ report.done = false ∧
        next.finished = false ∧ next.frames = [onceAround pos countPos body' (i + 1)] ∧
        i + 1 ≤ body.length ∧ Level u' next ∧ (makeRoom next).1 = .ok () ∧
        paced (body.drop i) u = paced (body.drop (i + 1)) u' := by
  have length := length_eq_of_unplaced same
  by_cases exceeds : w.maxSteps < (w.stepCount + 1 : Nat)
  · have stepped := step_exhausted unfinished exceeds
    rw [stepped]
    refine .inl ⟨.spent (outOfSteps_outOfSteps w), fun report next stepped' => ?_⟩
    cases stepped.symm.trans stepped'
    rfl
  have goes : w.Goes := ⟨unfinished, exceeds⟩
  rcases Nat.eq_or_lt_of_le within with rfl | inside
  · refine .inl ?_
    have stepped := step_ok goes (stepFrame_round (length ▸ frames) room)
    rw [List.drop_length, stepped]
    refine ⟨.completed (level.engine.driven _ _ _) rfl, fun report next stepped' => ?_⟩
    cases stepped.symm.trans stepped'
    rfl
  have inside' : i < body'.length := length ▸ inside
  have there : body'[i]? = some body'[i] := List.getElem?_eq_getElem inside'
  have ran := stepFrame_inside frames room there
  have own : body'[i].Enclosed := enclosed_of_mem enclosed (List.getElem_mem inside')
  have begins : newStep u = (.ok (), u.started) := by
    rw [newStep, level.engine.maxSteps, level.stepCount, if_neg exceeds]
  have runs : paced (body.drop i) u =
      andThen (exec invokeTop false body[i]) (paced (body.drop (i + 1))) u.started := by
    rw [List.drop_eq_getElem_cons inside, paced, Act.bind_ok begins]
  rw [exec_enclosed invokeTop _ own] at ran
  rw [runs]
  have resembles : Resembles True [onceAround pos countPos body' (i + 1)] u.started
      (w.inBody (onceAround pos countPos body' (i + 1)) body'[i].line) :=
    ⟨((level.engine.driven _ _ _).symm.driven _ _ _).symm, level.functions, level.classes,
      level.locals, rfl, rfl, fun _ => rfl⟩
  have akin := akin_of_unplaced unseeing_invokeTop (unplaced_getElem same inside inside') false _ _ _
    resembles
  rw [andThen, Act.bind_apply]
  rw [Act.bind_apply] at ran
  generalize first : exec invokeTop false body[i] u.started = p at akin ⊢
  generalize second : exec invokeTop false body'[i] _ = q at akin ran
  cases akin with
  | fails unlined resembles => exact .inl (concludes_failure goes unlined ran resembles.engine)
  | @ends flow u' k resembles =>
      have walked {s : Stmt} {w : Walker} {flow : Flow} {w' : Walker}
          (ran : exec invokeTop false s w = (.ok flow, w')) : Walked w w' :=
        (walks_exec honest_invokeTop s false).ok ran
      rcases keepsLoop_exec invokeTop body[i] _ _ _ first with rfl | ⟨v, rfl⟩
      · have ran : stepFrame w.started = (.ok (), k) := ran
        obtain ⟨taken, -, -⟩ := (walked first).limits
        obtain ⟨taken', -, depth⟩ := (walked second).limits
        have count : u'.stepCount = k.stepCount := by
          rw [taken, taken']
          exact congrArg (· + 1) level.stepCount
        obtain ⟨undone, awake, frames, level⟩ := level_settled resembles count
        refine .inr ⟨u', _, _, step_ok goes ran, undone, ?_, frames, inside, level, ?_, rfl⟩
        · have loaded : k.settled.program = w.program := (walked second).program
          rw [Walker.finished, Bool.or_eq_false_iff] at unfinished ⊢
          exact ⟨loaded ▸ unfinished.1, awake⟩
        · exact room_of_depth (u := k.settled) (w := w) depth room
      · have ran : stepFrame w.started =
            (.ok (), { k with frames := [], status := .completed }) := ran
        have stepped := step_ok goes ran
        rw [stepped]
        refine .inl ⟨.completed (resembles.engine.driven _ _ _) rfl, fun report next again => ?_⟩
        cases stepped.symm.trans again
        rfl

theorem concludes_inside (course : Course Walker.step atEnd w before last)
    (unfinished : w.finished = false) (frames : w.frames = [onceAround pos countPos body' i])
    (within : i ≤ body.length) (enclosed : Stmt.EnclosedIn body') (level : Level u w)
    (room : (makeRoom w).1 = .ok ()) : Concludes (paced (body.drop i) u) last.step := by
  induction course generalizing u i with
  | @last w stop =>
    rcases concludes_or_goes same unfinished frames within enclosed level room with
      ⟨concludes, -⟩ | ⟨u', report, next, stepped, undone, -⟩
    · exact concludes
    · exact absurd (stop report next stepped) (by simp [atEnd, undone])
  | @more w next last report before stepped going course ih =>
    rcases concludes_or_goes same unfinished frames within enclosed level room with
      ⟨-, isLast⟩ |
      ⟨u', report', next', stepped', undone, unfinished, frames, within, level, room, rest⟩
    · exact absurd going (by simp [atEnd, isLast report next stepped])
    · cases stepped.symm.trans stepped'
      rw [rest]
      exact ih unfinished frames within level room

/-- A program that runs its body in a loop with a single round: each statement of the body is run in a
step of its own. -/
theorem concludes_once (unfinished : w.finished = false)
    (frames : w.frames = [{ statements := [once pos countPos body'] }])
    (enclosed : Stmt.EnclosedIn body') (room : (makeRoom w).1 = .ok ()) :
    w.runAll.2.OutOfSteps ∨ ∃ u : Walker, Concludes (paced body u) w.runAll ∧
      u.toEngine.Resembles w.toEngine ∧ u.functions = w.functions ∧ u.classes = w.classes ∧
      u.locals = w.locals := by
  obtain ⟨before, last, -, -, course, ran⟩ := exists_runAll w
  rw [ran]
  by_cases exceeds : w.maxSteps < (w.stepCount + 1 : Nat)
  · have stepped := step_exhausted unfinished exceeds
    cases course with
    | last =>
      rw [stepped]
      exact .inl (outOfSteps_outOfSteps w)
    | more again going =>
      cases stepped.symm.trans again
      cases going
  · have stepped := step_ok ⟨unfinished, exceeds⟩ (stepFrame_opening frames room)
    cases course with
    | last stop => exact absurd (stop _ _ stepped) Bool.false_ne_true
    | @more _ next _ report before again going course =>
      cases stepped.symm.trans again
      have concludes := concludes_inside (i := 0) same course
        (Bool.or_eq_false_iff.mpr ⟨(Bool.or_eq_false_iff.mp unfinished).1, rfl⟩) rfl
        (Nat.zero_le _) enclosed ⟨.refl _, rfl, rfl, rfl, rfl⟩ (room_of_depth (w := w) rfl room)
      exact .inr ⟨_, concludes.map _, ((Engine.Resembles.refl w.toEngine).driven _ _ _).symm, rfl, rfl,
        rfl⟩

end Inside

end Stepwise.Walker
