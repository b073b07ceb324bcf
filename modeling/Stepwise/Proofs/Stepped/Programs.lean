import Stepwise.Proofs.Agreement.Programs
import Stepwise.Proofs.Driving.Statuses
import Stepwise.Proofs.Stepped.Once

/-!
Stepping and running at once agree. A walker that takes main statements, branches and outermost loops
step by step ends like one that runs all of them inside a loop with a single round:
`stepping_agrees`.
-/
namespace Stepwise

/-- Whether a statement defines a function or a class. -/
def Stmt.isDefinition : Stmt → Bool
  | .define _ | .defineClass _ _ _ => true
  | _ => false

namespace Walker

variable {u w : Walker} {definitions body body' : List Stmt}

/-- A program for which there is no room ends in its first step. -/
theorem concludes_roomless (unfinished : w.finished = false) {failure : Failure}
    (room : (makeRoom w).1 = .error failure) (resembles : u.toEngine.Resembles w.toEngine) :
    Concludes (.error failure, u) w.runAll := by
  obtain ⟨before, last, -, -, course, ran⟩ := exists_runAll w
  rw [ran]
  have first : Concludes (.error failure, u) w.step ∧ w.IsLast := by
    by_cases exceeds : w.maxSteps < (w.stepCount + 1 : Nat)
    · have stepped := step_exhausted unfinished exceeds
      rw [stepped]
      refine ⟨.spent (outOfSteps_outOfSteps w), fun report next stepped' => ?_⟩
      cases stepped.symm.trans stepped'
      rfl
    · have failed : makeRoom w.started = (.error failure, w.started) :=
        (makeRoom_congr (u := w.started) (w := w) rfl).trans (by rw [room])
      have ran : stepFrame w.started = (.error failure, w.started) := by
        rw [stepFrame, Act.bind_error failed]
      exact concludes_failure ⟨unfinished, exceeds⟩ rfl ran (resembles.driven _ _ _)
  cases course with
  | last => exact first.1.map _
  | more stepped going => exact absurd going (by simp [atEnd, first.2 _ _ stepped])

/-- How two runs to the end agree: they end the program in the same status, or the same failure of
the host leaves both of them; what the program did is the same. -/
structure EndAlike (p q : Driven (List StepReport) × Walker) : Prop where
  /-- The output and the heap. -/
  world : p.2.world = q.2.world
  /-- The handlers and their calls. -/
  host : p.2.host = q.2.host
  globals : p.2.globals = q.2.globals
  message : p.2.fault.map Fault.message = q.2.fault.map Fault.message
  ending : match p.1, q.1 with
    | .ok _, .ok _ => p.2.status = q.2.status ∧ p.2.status.isFinal = true
    | .error failure, .error failure' => failure = failure'
    | _, _ => False

theorem message_eq_of_unlined {failure failure' : Failure} {fault fault' : Fault}
    (same : failure.unlined = failure'.unlined) (caught : caught? failure = some fault)
    (caught' : caught? failure' = some fault') : fault.message = fault'.message := by
  cases failure with
  | fault of =>
    cases failure' with
    | fault of' =>
      cases caught
      cases caught'
      simp only [Failure.unlined, Failure.fault.injEq, Fault.mk.injEq] at same
      exact same.2.1
    | host => cases same
  | host of =>
    obtain rfl := eq_host_of_unlined same.symm
    cases caught.symm.trans caught'
    rfl

/-- Runs that do the same alike end alike. -/
theorem endAlike_of_concludes {p : Except Failure Flow × Walker}
    {q q' : Driven (List StepReport) × Walker} (first : Concludes p q) (second : Concludes p q')
    (within : ¬ q.2.OutOfSteps) (within' : ¬ q'.2.OutOfSteps) : EndAlike q q' := by
  have alike {u w w' : Engine} (first : u.Resembles w) (second : u.Resembles w') :
      w.Resembles w' := first.symm.trans second
  cases first with
  | spent isOut => exact absurd isOut within
  | completed resembles isOver =>
    cases second with
    | spent isOut => exact absurd isOut within'
    | completed resembles' isOver' =>
      have alike := alike resembles resembles'
      exact ⟨alike.world, alike.host, alike.globals, congrArg _ alike.fault,
        isOver.trans isOver'.symm, isOver ▸ rfl⟩
  | stopped same caught resembles =>
    cases second with
    | spent isOut => exact absurd isOut within'
    | stopped same' caught' resembles' =>
      have alike := alike resembles resembles'
      have message := message_eq_of_unlined (same.symm.trans same') caught caught'
      exact ⟨alike.world, alike.host, alike.globals, congrArg some message, rfl, rfl⟩
    | broken escapes =>
      obtain rfl := eq_host_of_unlined same.symm
      cases caught.symm.trans escapes
  | broken escapes resembles =>
    cases second with
    | spent isOut => exact absurd isOut within'
    | stopped same caught =>
      obtain rfl := eq_host_of_unlined same.symm
      cases caught.symm.trans escapes
    | broken _ resembles' =>
      have alike := alike resembles resembles'
      exact ⟨alike.world, alike.host, alike.globals, congrArg _ alike.fault, rfl⟩

theorem outOfSteps_of_spent {p : Except Failure Flow × Walker}
    {q : Driven (List StepReport) × Walker} (spent : Spent p) (concludes : Concludes p q) :
    q.2.OutOfSteps := by
  obtain ⟨failure, u, rfl, exhausted⟩ := spent
  cases concludes with
  | @stopped _ failure' fault _ _ _ same caught =>
    obtain ⟨own, rfl, limit, message⟩ := exhausted
    have caught' : caught? (.fault own) = some own := rfl
    exact ⟨_, rfl, limit, (message_eq_of_unlined same caught' caught).symm.trans message⟩
  | broken =>
    obtain ⟨_, same, -⟩ := exhausted
    cases same
  | spent isOut => exact isOut

/-- Two walkers at the start of a program, one of which runs it in a loop with a single round. -/
theorem endAlike_once (pos countPos : Pos) {w w' : Walker} (unfinished : w.finished = false)
    (unfinished' : w'.finished = false) (level : Level w' w)
    (frames : w.frames = [{ statements := body }])
    (frames' : w'.frames = [{ statements := [once pos countPos body'] }])
    (enclosed : Stmt.EnclosedIn body') (same : Stmt.unplacedAll body = Stmt.unplacedAll body')
    (within : ¬ w.runAll.2.OutOfSteps)
    (within' : ¬ w'.runAll.2.OutOfSteps) : EndAlike w.runAll w'.runAll := by
  have depth : w'.maxCallDepth = w.maxCallDepth := level.engine.maxCallDepth
  cases room : (makeRoom w).1 with
  | error failure =>
    have room' : (makeRoom w').1 = .error failure :=
      (congrArg Prod.fst (makeRoom_congr depth)).trans room
    exact endAlike_of_concludes (concludes_roomless unfinished room level.engine)
      (concludes_roomless unfinished' room' (.refl _)) within within'
  | ok =>
    obtain ⟨u, concludes, engine, functions, classes, locals⟩ :=
      (concludes_once same unfinished' frames' enclosed (room_of_depth depth room)).resolve_left within'
    have remains : Remains w.frames (paced body) := by
      have remains : Remains [{ statements := body }] _ := .cons .stepwise 0 .nil
      rw [andThen_pure] at remains
      rw [frames]
      exact remains
    have resembles : Resembles False w.frames u w.started :=
      ⟨(engine.trans level.engine).driven _ _ _, functions.trans level.functions,
        classes.trans level.classes, locals.trans level.locals, rfl, rfl, False.elim⟩
    rcases concludes_runAll unfinished remains resembles room with spent | concludes'
    · exact absurd (outOfSteps_of_spent spent concludes) within'
    · exact endAlike_of_concludes concludes' concludes within within'

section Loading

variable (plain : ∀ s ∈ body, s.isDefinition = false)

include plain

theorem main_append (defines : ∀ s ∈ definitions, s.isDefinition = true) (pos : Pos) :
    Program.main ⟨pos, definitions ++ body⟩ = body := by
  unfold Program.main
  rw [List.filter_append, (List.filter_eq_nil_iff (l := definitions)).mpr,
    (List.filter_eq_self (l := body)).mpr, List.nil_append]
  · intro s member
    have plain := plain s member
    cases s with
    | define | defineClass => cases plain
    | _ => rfl
  · intro s member
    have defines := defines s member
    cases s with
    | define | defineClass => exact Bool.false_ne_true
    | _ => cases defines

theorem functions_append (pos : Pos) :
    Program.functions ⟨pos, definitions ++ body⟩ = Program.functions ⟨{}, definitions⟩ := by
  unfold Program.functions
  rw [List.filterMap_append, (List.filterMap_eq_nil_iff (l := body)).mpr, List.append_nil]
  intro s member
  have plain := plain s member
  cases s with
  | define => cases plain
  | _ => rfl

theorem classes_append (pos : Pos) :
    Program.classes ⟨pos, definitions ++ body⟩ = Program.classes ⟨{}, definitions⟩ := by
  unfold Program.classes
  rw [List.filterMap_append, (List.filterMap_eq_nil_iff (l := body)).mpr, List.append_nil]
  intro s member
  have plain := plain s member
  cases s with
  | defineClass => cases plain
  | _ => rfl

omit plain in
theorem forM_append_plain {check : Stmt → Except Failure Unit}
    (passes : ∀ s ∈ body, check s = .ok ()) :
    (definitions ++ body).forM check = definitions.forM check := by
  have apart : (definitions ++ body).forM check = (do
      definitions.forM check
      body.forM check) := List.forM_append
  rw [apart, forM_eq_ok passes]
  cases definitions.forM check <;> rfl

/-- Only definitions can keep a program from being loaded. -/
theorem load_append (w : Walker) (pos : Pos) : w.load ⟨pos, definitions ++ body⟩ =
    (w.load ⟨{}, definitions⟩).map fun _ =>
      reset { w with program := some ⟨pos, definitions ++ body⟩ } := by
  have named : Program.checkDefinitions ⟨pos, definitions ++ body⟩ =
      Program.checkDefinitions ⟨{}, definitions⟩ := by
    refine forM_append_plain fun s member => ?_
    have plain := plain s member
    cases s with
    | define | defineClass => cases plain
    | _ => rfl
  unfold load
  dsimp only
  rw [named, forM_append_plain]
  · cases Program.checkDefinitions ⟨{}, definitions⟩ with
    | error => rfl
    | ok =>
      show (definitions.forM _ >>= _ : Except Failure Walker) =
        Except.map _ (definitions.forM _ >>= _)
      cases (definitions.forM _ : Except Failure Unit) <;> rfl
  · intro s member
    have plain := plain s member
    cases s with
    | defineClass => cases plain
    | _ => rfl

end Loading

/-- Stepping and running at once agree. Let a program consist of definitions and of further
statements, in which every `break` and `continue` is inside a loop of theirs, and let another program
consist of the same definitions and of one loop that runs these statements once, wherever they stand
in its source. Loaded by the same walker, which brings the random numbers, and with the same global
variables, the two are run to the end alike: with the same output, the same calls of the host, the same
global variables and the same message of a fault, and either in the same status, or because the same
failure of the host escapes. Runs that take too many steps are left aside. -/
theorem stepping_agrees (w : Walker) (definitions body body' : List Stmt)
    (defines : ∀ s ∈ definitions, s.isDefinition = true)
    (plain : ∀ s ∈ body, s.isDefinition = false) (enclosed : Stmt.EnclosedIn body)
    (same : Stmt.unplacedAll body = Stmt.unplacedAll body') (pos pos' loopPos countPos : Pos)
    (globals : Bindings Value) :
    match w.load ⟨pos, definitions ++ body⟩,
      w.load ⟨pos', definitions ++ [once loopPos countPos body']⟩ with
    | .ok stepped, .ok atOnce =>
      ¬ ({ stepped with globals } : Walker).runAll.2.OutOfSteps →
      ¬ ({ atOnce with globals } : Walker).runAll.2.OutOfSteps →
      EndAlike ({ stepped with globals } : Walker).runAll ({ atOnce with globals } : Walker).runAll
    | .error failure, .error failure' => failure = failure'
    | _, _ => False := by
  have single : ∀ s ∈ [once loopPos countPos body'], s.isDefinition = false := by
    intro s member
    cases List.mem_singleton.mp member
    rfl
  have enclosed' : Stmt.EnclosedIn body' := by
    rwa [← Stmt.enclosedIn_unplacedAll, ← same, Stmt.enclosedIn_unplacedAll]
  rw [load_append plain, load_append single]
  cases w.load ⟨{}, definitions⟩ with
  | error failure => rfl
  | ok =>
    intro within within'
    have functions : Program.functions ⟨pos', definitions ++ [once loopPos countPos body']⟩ =
        Program.functions ⟨pos, definitions ++ body⟩ :=
      (functions_append single pos').trans (functions_append plain pos).symm
    have classes : Program.classes ⟨pos', definitions ++ [once loopPos countPos body']⟩ =
        Program.classes ⟨pos, definitions ++ body⟩ :=
      (classes_append single pos').trans (classes_append plain pos).symm
    have start {main statements : List Stmt} (same : main = statements) :
        [({ statements := main } : Frame)] = [{ statements }] := by rw [same]
    have level : Level { reset { w with
        program := some ⟨pos', definitions ++ [once loopPos countPos body']⟩ } with globals }
        { reset { w with program := some ⟨pos, definitions ++ body⟩ } with globals } :=
      ⟨⟨rfl, rfl, rfl, rfl, rfl, rfl⟩, functions,
        congrArg (List.map fun entry : Name × Pos × List Func => (entry.1, methodTable entry.2.2))
          classes, rfl, rfl⟩
    exact endAlike_once loopPos countPos rfl rfl level (start (main_append plain defines pos))
      (start (main_append single defines pos')) enclosed' same within within'

/-- A function that prints two. -/
def shout : Func :=
  .mk { line := some 1 } (.scalar (.text "shout")) [] [.expr { line := some 2 } (.call {}
    (.scalar (.text "print")) [.literal {} .number (.scalar (.number (.int 2)))])]

/-- Statements behind some lines. They shout until a variable is negative, and call the host. -/
def shouting (lines : Int) : List Stmt :=
  [.branch { line := some (lines + 1) } (.literal {} .boolean (.scalar (.bool true)))
    [.loopWhile { line := some (lines + 2) } (.literal {} .boolean (.scalar (.bool true)))
      [.expr { line := some (lines + 3) } (.call {} (.scalar (.text "shout")) []),
        .update { line := some (lines + 4) } (.scalar (.text "left")) .sub
          (.literal {} .number (.scalar (.number (.int 1)))),
        .branch { line := some (lines + 5) } (.binary {} .lt (.var {} (.scalar (.text "left")))
            (.literal {} .number (.scalar (.number (.int 0))))) [.leave { line := some (lines + 6) }]
          [] none]]
      [] none,
    .expr { line := some (lines + 7) } (.call {} (.scalar (.text "rest")) [])]

/-- A walker that calls the host whose command pauses it. -/
def restful : Walker := { Walker.new {} with host := resting }

theorem exists_load (w : Walker) (program : Program) (check : Walker → Bool)
    (checked : (w.load program).toOption.any check = true) :
    ∃ loaded, w.load program = .ok loaded ∧ check loaded = true := by
  match done : w.load program with
  | .error _ => simp [done, Except.toOption] at checked
  | .ok loaded => exact ⟨loaded, rfl, by simpa [done, Except.toOption] using checked⟩

/-- Both programs shout twice and call the host, one line apart. -/
theorem stepping_agrees_shouting : ∃ loaded loaded',
    restful.load ⟨{}, [.define shout] ++ shouting 2⟩ = .ok loaded ∧
      restful.load ⟨{}, [.define shout] ++ [once { line := some 3 } {} (shouting 3)]⟩ = .ok loaded' ∧
      (let first : Walker := { loaded with globals := [(.text "left", .int 1)] }
       let second : Walker := { loaded' with globals := [(.text "left", .int 1)] }
       first.runAll.2.status = .completed ∧ first.runAll.2.world.output = #["2", "2"] ∧
        EndAlike first.runAll second.runAll) := by
  obtain ⟨loaded, done, ran⟩ := exists_load restful ⟨{}, [.define shout] ++ shouting 2⟩
    (fun loaded =>
      let first : Walker := { loaded with globals := [(.text "left", .int 1)] }
      first.runAll.2.status = .completed && first.runAll.2.world.output = #["2", "2"] &&
        first.runAll.2.fault.isNone) (by decide +kernel)
  obtain ⟨loaded', done', ran'⟩ := exists_load restful
    ⟨{}, [.define shout] ++ [once { line := some 3 } {} (shouting 3)]⟩
    (fun loaded =>
      let second : Walker := { loaded with globals := [(.text "left", .int 1)] }
      second.runAll.2.fault.isNone) (by decide +kernel)
  simp only [Bool.and_eq_true, decide_eq_true_eq] at ran
  have agrees := stepping_agrees restful [.define shout] (shouting 2) (shouting 3) (by decide)
    (by decide)
    (by simp [shouting, Stmt.EnclosedIn, Stmt.Enclosed, Stmt.EnclosedElif, Stmt.EnclosedOtherwise])
    rfl {} {} { line := some 3 } {} [(.text "left", .int 1)]
  rw [done, done'] at agrees
  exact ⟨loaded, loaded', done, done', ran.1.1, ran.1.2,
    agrees (Engine.enough_of_faultless ran.2) (Engine.enough_of_faultless ran')⟩

/-- A loop behind some lines that calls the host twice in its single round. -/
def breaking (lines : Int) : List Stmt :=
  [once { line := some (lines + 1) } {}
    [.expr { line := some (lines + 2) } (.call {} (.scalar (.text "rest")) []),
      .expr { line := some (lines + 3) } (.call {} (.scalar (.text "boom")) [])]]

/-- A walker whose host has a command that fails, too. -/
def breakable : Walker :=
  { Walker.new {} with host := resting.register .command (.text "boom") (.failing "boom") }

/-- The status need not be the same where a failure of the host escapes: a step forgets that the one
before it was paused. -/
theorem paused_within_once : ∃ loaded loaded',
    breakable.load ⟨{}, breaking 0⟩ = .ok loaded ∧
      breakable.load ⟨{}, [once { line := some 1 } {} (breaking 1)]⟩ = .ok loaded' ∧
      ¬ loaded.runAll.2.OutOfSteps ∧ ¬ loaded'.runAll.2.OutOfSteps ∧
      loaded.runAll.2.status = .running ∧ loaded'.runAll.2.status = .paused := by
  obtain ⟨loaded, done, ran⟩ := exists_load breakable ⟨{}, breaking 0⟩
    (fun loaded =>
      loaded.runAll.2.fault.isNone && loaded.runAll.2.status = .running) (by decide +kernel)
  obtain ⟨loaded', done', ran'⟩ := exists_load breakable
    ⟨{}, [once { line := some 1 } {} (breaking 1)]⟩ (fun loaded =>
      loaded.runAll.2.fault.isNone && loaded.runAll.2.status = .paused) (by decide +kernel)
  simp only [Bool.and_eq_true, decide_eq_true_eq] at ran ran'
  exact ⟨loaded, loaded', done, done', Engine.enough_of_faultless ran.1,
    Engine.enough_of_faultless ran'.1, ran.2, ran'.2⟩

end Walker

end Stepwise
