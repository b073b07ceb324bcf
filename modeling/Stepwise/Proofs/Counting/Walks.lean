import Stepwise.Proofs.Counting.Rounds
import Stepwise.Proofs.Stepped.Once

/-!
The walker in loops that count: within a step, where a loop runs to its end (`exec_range`,
`exec_repeat`), and where the loop is open between steps (`range_steps`, `repeat_steps`).
-/
namespace Stepwise.Walker

variable {invoke : Invoke} {w t u : Walker} {name : Name} {v : Value} {line : Option Int}

/-- The value that a name has for the statement under way. -/
def var (w : Walker) (name : Name) : Option Value :=
  (w.locals.bind fun locals => locals.get? name).or (w.globals.get? name)

/-- The walker with a variable bound. -/
def stored (w : Walker) (name : Name) (v : Value) : Walker := (store name v w).2

/-- The walker with a line printed. -/
def printed (w : Walker) (text : String) : Walker := { w with world := w.world.print text }

/-- The walker behind the beginning of a statement. -/
def begunAt (w : Walker) (line : Option Int) : Walker := { w with line, begun := w.begun + 1 }

theorem lookup_known (known : w.var name = some v) : lookup name w = (.ok v, w) := by
  unfold var at known
  simp only [lookup, Act.bind_apply, Act.get_apply, known]
  rfl

theorem var_stored (w : Walker) (name : Name) (v : Value) : (w.stored name v).var name = some v := by
  unfold stored store var
  simp only [Act.modify_apply]
  cases w.locals with
  | none => simp [Engine.setGlobal, Bindings.get?_put_same]
  | some bindings => simp [Bindings.get?_put_same]

theorem eval_denoted {e : Expr} {n : Int} (given : Denotes w.var e n) :
    eval invoke e w = (.ok (.int n), w) := by
  cases given with
  | literal => simp only [eval]; rfl
  | negative => simp only [eval]; rfl
  | held _ known =>
    simp only [eval]
    exact (Act.bind_ok (s := w) rfl).trans (lookup_known known)

/-- Nothing of the program or of the host stands in the way of the built-in function that prints. -/
structure PrintsPlainly (w : Walker) : Prop where
  classes : w.classes.has (.text "print") = false
  functions : w.functions.get? (.text "print") = none
  host : w.host.find? (.text "print") = none

theorem call_print (plain : PrintsPlainly w) {n : Int} (small : n.natAbs < pow10 Decimal.digitLimit) :
    call invoke (.text "print") [.int n] w = (.ok .null, w.printed n.repr) := by
  unfold call
  refine (Act.bind_ok (Act.get_apply w)).trans ?_
  rw [plain.classes, if_neg (by decide), plain.functions]
  dsimp only [outside]
  rw [Engine.call_print plain.host small]
  rfl

theorem begin_within (within : (w.begun + 1 : Nat) ≤ w.maxSteps) :
    begin line w = (.ok (), w.begunAt line) := by
  rw [begin_apply, if_neg (by omega)]
  rfl

theorem exec_printing {pos p arg : Pos} {var : String} {n : Int} {inLoop : Bool}
    (plain : PrintsPlainly w) (within : (w.begun + 1 : Nat) ≤ w.maxSteps)
    (value : w.var (.text var) = some (.int n)) (small : n.natAbs < pow10 Decimal.digitLimit) :
    exec invoke inLoop (printing pos p arg var) w =
      (.ok .next, (w.begunAt pos.line).printed n.repr) := by
  have held : Denotes (w.begunAt pos.line).var (.var arg (.scalar (.text var))) n := .held arg value
  have args : evalAll invoke [.var arg (.scalar (.text var))] (w.begunAt pos.line) =
      (.ok [.int n], w.begunAt pos.line) := by
    rw [evalAll, Act.bind_ok (eval_denoted held), evalAll]
    rfl
  have called : eval invoke (.call p (.scalar (.text "print")) [.var arg (.scalar (.text var))])
      (w.begunAt pos.line) = (.ok .null, (w.begunAt pos.line).printed n.repr) := by
    rw [eval, Act.bind_ok args]
    have plain : PrintsPlainly (w.begunAt pos.line) := ⟨plain.classes, plain.functions, plain.host⟩
    exact (Act.bind_ok (s := w.begunAt pos.line) rfl).trans (call_print plain small)
  rw [printing, exec, Act.bind_ok (begin_within within), Act.bind_ok called]
  rfl

theorem getHeap_apply (w : Walker) : getHeap w = (.ok w.heap, w) := rfl

theorem boundsOf_denoted {first last step : Expr} {a b s : Int} (starts : Denotes w.var first a)
    (stops : Denotes w.var last b) (steps : Denotes w.var step s) (moves : s ≠ 0) :
    boundsOf invoke line first last (some step) w = (.ok (.int a, .int b, .int s), { w with line }) := by
  rw [boundsOf_eq, Act.bind_ok (eval_denoted starts), Act.bind_ok (eval_denoted stops),
    Act.bind_ok (show stepOf invoke (some step) w = _ from eval_denoted steps), checkRange_int moves]
  rfl

theorem inRange_int (v stop step : Int) :
    inRange (.int v) (.int stop) (.int step) w = (.ok (decide (Before step v stop)), w) := by
  have compared : ((getHeap >>= fun heap => liftM (Value.binary (if Number.lt (.int 0) (.int step)
      then .lt else .gt) heap (.int v) (.int stop))) : Walk Value) w =
      (.ok (.bool (decide (Before step v stop))), w) := by
    rw [Act.bind_ok (getHeap_apply w), compare_int]
    rfl
  exact (congrFun (inRange_eq ..) w).trans ((Act.bind_ok compared).trans rfl)

theorem advanceRange_int {v step : Int} (value : w.var name = some (.int v)) :
    advanceRange name (.int step) w = (.ok (.int (v + step)), w.stored name (.int (v + step))) := by
  rw [advanceRange, Act.bind_ok (lookup_known value), Act.bind_ok (getHeap_apply w)]
  rfl

section Within

variable {pos p call arg : Pos} {var : String} {first last step : Expr} {a b s v stop : Int} {n : Nat}
  {inLoop : Bool}

/-- What a range leaves behind: more lines, and its variable. -/
structure Ranged (w w' : Walker) (var : String) (lines : List String) (v : Int) : Prop where
  output : w'.world.output = w.world.output ++ lines.toArray
  value : w'.var (.text var) = some (.int v)

/-- What binding a variable leaves alone. -/
theorem stored_eq (w : Walker) (name : Name) (v : Value) :
    ∃ globals locals, w.stored name v = { w with globals, locals } := by
  unfold stored store
  simp only [Act.modify_apply]
  split
  next outside => exact ⟨_, Option.none, by rw [← outside]; rfl⟩
  next => exact ⟨w.globals, _, rfl⟩

theorem PrintsPlainly.stored (plain : PrintsPlainly w) (name : Name) (v : Value) :
    PrintsPlainly (w.stored name v) := by
  obtain ⟨globals, locals, same⟩ := stored_eq w name v
  rw [same]
  exact ⟨plain.classes, plain.functions, plain.host⟩

theorem rangeTest_int (value : w.var (.text var) = some (.int v)) :
    (do inRange (← lookup (.text var)) (.int stop) (.int s) : Walk Bool) w =
      (.ok (decide (Before s v stop)), w) :=
  (Act.bind_ok (lookup_known value)).trans (inRange_int ..)

/-- The rounds of a range within a step. -/
theorem runWhile_range (plain : PrintsPlainly w) (length : RangeLength v stop s n)
    (value : w.var (.text var) = some (.int v)) (printable : Printable v s n)
    (within : (w.begun + n : Nat) ≤ w.maxSteps) {rounds : Nat} (enough : n < rounds) :
    ∃ w', runWhile line (do inRange (← lookup (.text var)) (.int stop) (.int s))
        (execBlock invoke true [printing p call arg var])
        (discard (advanceRange (.text var) (.int s))) rounds w = (.ok .next, w') ∧
      Ranged w w' var (rangeLines v s n) (v + n * s) := by
  induction n generalizing w v rounds with
  | zero =>
    obtain ⟨rounds, rfl⟩ := Nat.exists_eq_succ_of_ne_zero (Nat.ne_of_gt enough)
    have ends : ¬ Before s v stop := by simpa using length.ends
    refine ⟨w, ?_, by simp [rangeLines], by simpa using value⟩
    rw [runWhile, Act.bind_ok (rangeTest_int value), decide_eq_false ends]
    rfl
  | succ n ih =>
    obtain ⟨rounds, rfl⟩ := Nat.exists_eq_succ_of_ne_zero (Nat.ne_of_gt (Nat.zero_lt_of_lt enough))
    let next := (w.begunAt p.line).printed v.repr
    have shown : execBlock invoke true [printing p call arg var] w = (.ok .next, next) := by
      rw [execBlock, Act.bind_ok (exec_printing plain (by omega) value printable.head)]
      rfl
    have advances : discard (advanceRange (.text var) (.int s)) next =
        (.ok (), next.stored (.text var) (.int (v + s))) :=
      (Act.bind_ok (advanceRange_int (w := next) value)).trans rfl
    have plain : PrintsPlainly next := ⟨plain.classes, plain.functions, plain.host⟩
    obtain ⟨globals, locals, same⟩ := stored_eq next (.text var) (.int (v + s))
    obtain ⟨w', ran, ranged⟩ := ih (plain.stored ..) length.tail (var_stored ..) printable.tail (by
      rw [same]
      show ((w.begun + 1 + n : Nat) : Int) ≤ w.maxSteps
      omega) (Nat.lt_of_succ_lt_succ enough)
    refine ⟨w', ?_, ?_, ?_⟩
    · rw [runWhile, Act.bind_ok (rangeTest_int value), decide_eq_true length.head, if_pos rfl,
        Act.bind_ok shown]
      exact (Act.bind_ok advances).trans ran
    · rw [ranged.output, same, rangeLines_succ]
      simp [next, printed, begunAt, World.print]
    · rw [ranged.value, value_succ]

/-- A range that is run within a step prints its values, one in a line. -/
theorem exec_range (plain : PrintsPlainly w) (starts : Denotes w.var first a)
    (stops : Denotes w.var last b) (steps : Denotes w.var step s) (moves : s ≠ 0)
    (length : RangeLength a b s n) (printable : Printable a s n)
    (enough : (w.begun + n + 1 : Nat) ≤ w.maxSteps) :
    ∃ w', exec invoke inLoop (.loopRange pos (.scalar (.text var)) first last (some step)
        [printing p call arg var]) w = (.ok .next, w') ∧
      Ranged w w' var (rangeLines a s n) (a + n * s) := by
  let opened := (w.begunAt pos.line).stored (.text var) (.int a)
  have plain : PrintsPlainly (w.begunAt pos.line) := ⟨plain.classes, plain.functions, plain.host⟩
  obtain ⟨globals, locals, same⟩ := stored_eq (w.begunAt pos.line) (.text var) (.int a)
  have limit : opened.maxSteps = w.maxSteps := by
    show (stored ..).maxSteps = _
    rw [same]
    rfl
  have begun : opened.begun = w.begun + 1 := by
    show (stored ..).begun = _
    rw [same]
    rfl
  have rounds : n < opened.roundLimit [printing p call arg var] := by
    show n < opened.maxSteps.toNat + 1
    omega
  obtain ⟨w', ran, ranged⟩ := runWhile_range (plain.stored (.text var) (.int a)) length (var_stored ..)
    printable (by rw [limit, begun]; omega) rounds
  have bounds : boundsOf invoke pos.line first last (some step) (w.begunAt pos.line) = _ :=
    boundsOf_denoted starts stops steps moves
  have stores : store (.text var) (.int a) (w.begunAt pos.line) = (.ok (), opened) := rfl
  refine ⟨w', ?_, ?_, ranged.value⟩
  · rw [exec, Act.bind_ok (begin_within (by omega)), Act.bind_ok bounds]
    refine (Act.bind_ok (s := w.begunAt pos.line) rfl).trans ((Act.bind_ok stores).trans ?_)
    exact (Act.bind_ok (Act.get_apply opened)).trans ran
  · rw [ranged.output, same]
    rfl

variable {count : Expr} {body : List Stmt} {round : Walk Flow}

theorem countOf_denoted (given : Denotes w.var count n) :
    countOf invoke line count w = (.ok n, { w with line }) := by
  rw [countOf, Act.bind_ok (eval_denoted given)]
  rfl

/-- A round ends normally, or by going on with the next one. -/
def Finishes (round : Walk Flow) (w w' : Walker) : Prop :=
  round w = (.ok .next, w') ∨ round w = (.ok .again, w')

theorem runTimes_laps {k : Nat} (laps : Laps Eq (Finishes round) k w t) (j : Nat) :
    runTimes round (k + j) w = runTimes round j t := by
  induction laps generalizing j with
  | none => rw [Nat.zero_add]
  | more _ begins ends ih =>
    subst begins
    rw [Nat.add_assoc, Nat.add_comm 1, ih, runTimes]
    rcases ends with ended | ended <;> rw [Act.bind_ok ended]

/-- A counted loop that is run within a step runs its body as often as its count says. -/
theorem exec_repeat (given : Denotes w.var count n) (within : (w.begun + 1 : Nat) ≤ w.maxSteps)
    (finishes : ∀ k t, k < n → Laps Eq (Finishes (execBlock invoke true body)) k (w.begunAt pos.line) t →
      ∃ e, Finishes (execBlock invoke true body) t e) :
    ∃ t, exec invoke inLoop (.loopTimes pos count body) w = (.ok .next, t) ∧
      Laps Eq (Finishes (execBlock invoke true body)) n (w.begunAt pos.line) t := by
  obtain ⟨t, laps, -⟩ := @exists_laps Walker (w.begunAt pos.line) Eq
    (Finishes (execBlock invoke true body)) n (fun _ _ => True) trivial fun k t less laps _ =>
      let ⟨e, ends⟩ := finishes k t less laps
      ⟨t, e, rfl, ends, trivial⟩
  have counted : countOf invoke pos.line count (w.begunAt pos.line) = _ := countOf_denoted given
  refine ⟨t, ?_, laps⟩
  rw [exec, Act.bind_ok (begin_within within), Act.bind_ok counted]
  exact runTimes_laps laps 0

end Within

section Between

variable {frame : Frame} {frames outer : List Frame} {next : Walker}

/-- A walker between two steps, with something left to run and with room for a step. -/
structure Between (frames : List Frame) (w : Walker) : Prop where
  frames : w.frames = frames
  unfinished : w.finished = false
  room : (makeRoom w).1 = .ok ()

/-- A step that goes on with some frames, or is the last one if they have nothing left to run. -/
def Closes (frames : List Frame) (w w' : Walker) : Prop :=
  ∃ report, w.step = (.ok report, w') ∧ w'.frames = frames.dropWhile Frame.finished ∧
    report.done = w'.frames.isEmpty

/-- A step behind which there is something left to run. -/
structure Continues (w : Walker) (frames : List Frame) (next : Walker) : Prop where
  stepped : ∃ report, w.step = (.ok report, next) ∧ report.done = false
  between : Between frames next
  stepCount : next.stepCount = w.stepCount + 1
  maxSteps : next.maxSteps = w.maxSteps

theorem Continues.travels {along : Walker → Prop} (continues : Continues w frames next) (holds : along w)
    (rest : Travels Walker.step along next t) : Travels Walker.step along w t := by
  obtain ⟨_, stepped, going⟩ := continues.stepped
  exact .on holds stepped going rest

theorem Between.continues (between : Between frames w) (enough : (w.stepCount + 1 : Nat) ≤ w.maxSteps)
    (ran : stepFrame w.started = (.ok (), next)) (awake : next.status.isFinal = false)
    (left : next.frames = frame :: outer) (unfinished : frame.finished = false) :
    Continues w (frame :: outer) next.settled := by
  have walked : Walked w.started next := walks_stepFrame.ok ran
  obtain ⟨taken, limit, depth⟩ := walked.limits
  have frames : next.settled.frames = frame :: outer := by
    show next.frames.dropWhile Frame.finished = _
    rw [left, List.dropWhile_cons_of_neg (by simp [unfinished])]
  have still : next.ending = next.status := by
    refine (ending_cases next).resolve_left fun done => ?_
    cases frames.symm.trans done.1
  have awake' : next.settled.status.isFinal = false := (congrArg Status.isFinal still).trans awake
  refine ⟨⟨_, step_ok ⟨between.unfinished, by omega⟩ ran, decide_eq_false ?_⟩, ⟨frames, ?_, ?_⟩, taken,
    limit⟩
  · intro done
    rw [← still, done] at awake
    cases awake
  · have loaded : next.settled.program = w.program := walked.program
    have unfinished := between.unfinished
    rw [Walker.finished, Bool.or_eq_false_iff] at unfinished ⊢
    exact ⟨loaded ▸ unfinished.1, awake'⟩
  · exact room_of_depth (u := next.settled) (w := w) depth between.room

/-- A step behind which the program runs on closes a statement. -/
theorem Between.closes (between : Between frames w) (enough : (w.stepCount + 1 : Nat) ≤ w.maxSteps)
    (ran : stepFrame w.started = (.ok (), next)) (running : next.status = .running) :
    Closes next.frames w next.settled := by
  refine ⟨_, step_ok ⟨between.unfinished, by omega⟩ ran, rfl, ?_⟩
  show decide (next.ending = .completed) = next.unwind.frames.isEmpty
  unfold ending
  rw [running]
  cases next.unwind.frames.isEmpty <;> rfl

variable {pos p call arg : Pos} {var : String} {first last step : Expr} {a b s v : Int} {n : Nat}

/-- The walker in a step that has come to a line of the main program. -/
def atLine (w : Walker) (line : Option Int) : Walker :=
  { w.started with report := { highlightLine := line }, line }

/-- A range that is open. -/
def rangeLoop (line : Option Int) (var : String) (stop step : Int) (body : List Stmt) (position : Nat) :
    OpenLoop :=
  { kind := .range (.scalar (.text var)) (.int stop) (.int step), line, body, position }

/-- The walker behind a step that binds the variable of a range: it is in front of a round, or has left
the loop. -/
def turned (w : Walker) (frame : Frame) (outer : List Frame) (line : Option Int) (var : String)
    (v stop step : Int) (body : List Stmt) : Walker :=
  { (w.atLine line).stored (.text var) (.int v) with
    frames := (if Before step v stop then { frame with loop := some (rangeLoop line var stop step body 0) }
      else frame.next) :: outer }

/-- What a step does with the next statement of the innermost frame. -/
theorem stepFrame_statement {s : Stmt} (between : Between (frame :: outer) w)
    (closed : frame.loop = none) (there : frame.statements[frame.index]? = some s) :
    stepFrame w.started = stepStatement s (w.atLine s.line) := by
  have unfinished : frame.finished = false := by
    obtain ⟨less, -⟩ := List.getElem?_eq_some_iff.mp there
    simp [Frame.finished, less]
  rw [stepFrame_started between.frames unfinished between.room, closed]
  dsimp only
  rw [there]
  rfl

theorem stepFrame_opensRange {body : List Stmt} (between : Between (frame :: outer) w)
    (closed : frame.loop = none)
    (there : frame.statements[frame.index]? =
      some (.loopRange pos (.scalar (.text var)) first last (some step) body))
    (starts : Denotes w.var first a) (stops : Denotes w.var last b) (steps : Denotes w.var step s)
    (moves : s ≠ 0) :
    stepFrame w.started = (.ok (), w.turned frame outer pos.line var a b s body) := by
  have bounds : boundsOf invokeTop pos.line first last (some step) (w.atLine pos.line) = _ :=
    boundsOf_denoted starts stops steps moves
  let opened := (w.atLine pos.line).stored (.text var) (.int a)
  have frames : opened.frames = frame :: outer := by
    obtain ⟨globals, locals, same⟩ := stored_eq (w.atLine pos.line) (.text var) (.int a)
    show (stored ..).frames = _
    rw [same]
    exact between.frames
  rw [stepFrame_statement between closed there]
  show stepStatement _ (w.atLine pos.line) = _
  rw [stepStatement, Act.bind_ok bounds]
  have stores : store (.text var) (.int a) (w.atLine pos.line) = (.ok (), opened) := rfl
  refine (Act.bind_ok (s := w.atLine pos.line) rfl).trans ((Act.bind_ok stores).trans ?_)
  refine (Act.bind_ok (inRange_int ..)).trans ?_
  unfold turned
  by_cases before : Before s a b
  · rw [decide_eq_true before, if_pos rfl, if_pos before]
    exact modifyFrame_cons frames _
  · rw [decide_eq_false before, if_neg (by decide), if_neg before]
    exact modifyFrame_cons frames _

theorem closeLoop_open (closed : frame.loop = none) (loop : OpenLoop) :
    Frame.closeLoop { frame with loop := some loop } = frame.next := by
  obtain ⟨statements, index, _⟩ := frame
  cases closed
  rfl

theorem stepFrame_advancesRange {body : List Stmt} {i : Nat}
    (between : Between ({ frame with loop := some (rangeLoop line var b s body i) } :: outer) w)
    (closed : frame.loop = none) (behind : body.length ≤ i) (value : w.var (.text var) = some (.int v)) :
    stepFrame w.started = (.ok (), w.turned frame outer line var (v + s) b s body) := by
  let u := w.atLine line
  let advanced := u.stored (.text var) (.int (v + s))
  have advances : advanceRange (.text var) (.int s) u = (.ok (.int (v + s)), advanced) :=
    advanceRange_int value
  have frames : advanced.frames = { frame with loop := some (rangeLoop line var b s body i) } :: outer := by
    obtain ⟨globals, locals, same⟩ := stored_eq u (.text var) (.int (v + s))
    show (stored ..).frames = _
    rw [same]
    exact between.frames
  rw [stepFrame_behind between.frames between.room behind]
  show advanceLoop _ u = _
  rw [rangeLoop, advanceLoop]
  refine (Act.bind_ok (s := u) rfl).trans ((Act.bind_ok advances).trans
    ((Act.bind_ok (inRange_int ..)).trans ?_))
  rw [nextRound, modifyFrame_cons frames]
  unfold turned
  by_cases before : Before s (v + s) b
  · rw [decide_eq_true before, if_pos rfl, if_pos before]
    rfl
  · rw [decide_eq_false before, if_neg (by decide), if_neg before, ← closeLoop_open closed]

section Turned

variable (w : Walker) (frame : Frame) (outer : List Frame) (line : Option Int) (var : String) (v b s : Int)
  (body : List Stmt)

/-- What binding the variable of a range leaves alone. -/
theorem turned_eq : ∃ globals locals frames,
    w.turned frame outer line var v b s body = { w.atLine line with globals, locals, frames } := by
  obtain ⟨globals, locals, same⟩ := stored_eq (w.atLine line) (.text var) (.int v)
  exact ⟨globals, locals, _, by rw [turned, same]⟩

theorem turned_running : (w.turned frame outer line var v b s body).status = .running := by
  obtain ⟨globals, locals, frames, same⟩ := turned_eq w frame outer line var v b s body
  rw [same]
  rfl

theorem turned_world : (w.turned frame outer line var v b s body).settled.world = w.world := by
  obtain ⟨globals, locals, frames, same⟩ := turned_eq w frame outer line var v b s body
  rw [same]
  rfl

theorem turned_plain (plain : PrintsPlainly w) :
    PrintsPlainly (w.turned frame outer line var v b s body).settled := by
  obtain ⟨globals, locals, frames, same⟩ := turned_eq w frame outer line var v b s body
  rw [same]
  exact ⟨plain.classes, plain.functions, plain.host⟩

theorem turned_var :
    (w.turned frame outer line var v b s body).settled.var (.text var) = some (.int v) :=
  var_stored (w.atLine line) (.text var) (.int v)

end Turned

/-- A step that prints the value of a variable, in a loop that is open. -/
theorem continues_printing {loop : OpenLoop}
    (between : Between ({ frame with loop := some loop } :: outer) w)
    (there : loop.body[loop.position]? = some (printing p call arg var)) (plain : PrintsPlainly w)
    (value : w.var (.text var) = some (.int v)) (small : v.natAbs < pow10 Decimal.digitLimit)
    (enough : (w.stepCount + 1 : Nat) ≤ w.maxSteps) :
    ∃ next, Continues w ({ frame with loop := some { loop with position := loop.position + 1 } } :: outer)
        next ∧ PrintsPlainly next ∧ next.world = w.world.print v.repr ∧
      next.var (.text var) = some (.int v) := by
  have shown : exec invokeTop true (printing p call arg var) (w.inLoop frame outer loop p.line) = _ :=
    exec_printing ⟨plain.classes, plain.functions, plain.host⟩ (by
      show ((0 + 1 : Nat) : Int) ≤ w.maxSteps
      omega) value small
  have ran := (stepFrame_within between.frames between.room there).trans (Act.bind_ok shown)
  exact ⟨_, between.continues enough ran rfl rfl rfl, ⟨plain.classes, plain.functions, plain.host⟩, rfl,
    value⟩

/-- The rounds of a range that is open between steps. -/
theorem range_turns (between : Between frames w) (closed : frame.loop = none) (plain : PrintsPlainly w)
    (turns : stepFrame w.started =
      (.ok (), w.turned frame outer line var v b s [printing p call arg var]))
    (length : RangeLength v b s n) (printable : Printable v s n)
    (enough : (w.stepCount + 2 * n + 1 : Nat) ≤ w.maxSteps) :
    ∃ t w', Travels Walker.step (fun _ => True) w t ∧ Closes (frame.next :: outer) t w' ∧
      Ranged w w' var (rangeLines v s n) (v + n * s) := by
  induction n generalizing w v frames with
  | zero =>
    have ends : ¬ Before s v b := by simpa using length.ends
    have closes := between.closes (by omega) turns (turned_running ..)
    rw [show (w.turned frame outer line var v b s _).frames = frame.next :: outer by
      unfold turned; rw [if_neg ends]] at closes
    exact ⟨w, _, .here w, closes, by rw [turned_world]; simp [rangeLines],
      by simpa using turned_var w frame outer line var v b s _⟩
  | succ n ih =>
    have left : (w.turned frame outer line var v b s [printing p call arg var]).frames =
        { frame with loop := some (rangeLoop line var b s [printing p call arg var] 0) } :: outer := by
      unfold turned
      rw [if_pos length.head]
    have opens := between.continues (by omega) turns (congrArg Status.isFinal (turned_running ..)) left rfl
    obtain ⟨k, prints, plain, world, value⟩ := continues_printing opens.between rfl
      (turned_plain w frame outer line var v b s _ plain) (turned_var w frame outer line var v b s _)
      printable.head (by rw [opens.stepCount, opens.maxSteps]; omega)
    obtain ⟨t, w', travels, closes, ranged⟩ := ih prints.between plain
      (stepFrame_advancesRange prints.between closed (Nat.le_refl _) value) length.tail printable.tail (by
        rw [prints.stepCount, prints.maxSteps, opens.stepCount, opens.maxSteps]
        omega)
    refine ⟨t, w', opens.travels trivial (prints.travels trivial travels), closes, ?_, ?_⟩
    · rw [ranged.output, world, turned_world, rangeLines_succ]
      simp [World.print]
    · rw [ranged.value, value_succ]

/-- A range of the main program, or of a branch in it, prints its values, one in a line. -/
theorem range_steps (between : Between (frame :: outer) w) (closed : frame.loop = none)
    (there : frame.statements[frame.index]? = some (.loopRange pos (.scalar (.text var)) first last
      (some step) [printing p call arg var]))
    (plain : PrintsPlainly w) (starts : Denotes w.var first a) (stops : Denotes w.var last b)
    (steps : Denotes w.var step s) (moves : s ≠ 0) (length : RangeLength a b s n)
    (printable : Printable a s n) (enough : (w.stepCount + 2 * n + 1 : Nat) ≤ w.maxSteps) :
    ∃ t w', Travels Walker.step (fun _ => True) w t ∧ Closes (frame.next :: outer) t w' ∧
      Ranged w w' var (rangeLines a s n) (a + n * s) :=
  range_turns between closed plain (stepFrame_opensRange between closed there starts stops steps moves)
    length printable enough

section Rounds

variable {loop : OpenLoop} {body : List Stmt} {count : Expr} {k position : Nat} {e : Walker}

/-- A walker in a loop that is open on the innermost frame, at some positions of its body. -/
def InBody (frame : Frame) (outer : List Frame) (body : List Stmt) (places : Nat → Prop) (w : Walker) :
    Prop :=
  ∃ loop : OpenLoop, w.frames = { frame with loop := some loop } :: outer ∧ loop.body = body ∧
    places loop.position

/-- A step leads to the start of the body of a loop. -/
def BeginsRound (frame : Frame) (outer : List Frame) (body : List Stmt) (w b : Walker) : Prop :=
  ∃ report, w.step = (.ok report, b) ∧ report.done = false ∧ InBody frame outer body (· = 0) b

/-- The body of a loop ends normally, or by going on with the next round. -/
def EndsRound (frame : Frame) (outer : List Frame) (body : List Stmt) (b e : Walker) : Prop :=
  Travels Walker.step (InBody frame outer body (· < body.length)) b e ∧
    InBody frame outer body (· = body.length) e

/-- Running a statement leaves the frames alone. -/
theorem exec_kept {s : Stmt} {inLoop : Bool} {flow : Flow} (awake : w.status.isFinal = false)
    (ran : exec invokeTop inLoop s w = (.ok flow, e)) :
    e.frames = w.frames ∧ e.status.isFinal = false := by
  have matched := oblivious_exec unseeing_invokeTop s inLoop True w.frames w w
    ⟨.refl _, rfl, rfl, rfl, rfl, awake, fun _ => rfl⟩
  rw [ran] at matched
  cases matched with
  | same resembles => exact ⟨resembles.frames, resembles.unfinished⟩

/-- A frame that is left, by whatever is left of it, is not one with an open loop. -/
theorem dropWhile_left {left : Frame} (closed : left.loop = none) (loop : OpenLoop) :
    (left :: outer).dropWhile Frame.finished ≠ { frame with loop := some loop } :: outer := by
  intro same
  by_cases finished : left.finished = true
  · rw [List.dropWhile_cons_of_pos finished] at same
    have shorter := (List.dropWhile_suffix (l := outer) Frame.finished).length_le
    rw [same, List.length_cons] at shorter
    omega
  · rw [List.dropWhile_cons_of_neg finished] at same
    rw [(List.cons.inj same).1] at closed
    cases closed

/-- A step in the body of a loop that stays in the loop goes on with the same round. -/
theorem continues_body (between : Between ({ frame with loop := some loop } :: outer) w)
    (inside : loop.position < loop.body.length) {report : StepReport}
    (stepped : w.step = (.ok report, next)) (going : report.done = false)
    (stays : InBody frame outer body (fun _ => True) next) :
    ∃ position, Between ({ frame with loop := some { loop with position } } :: outer) next := by
  obtain ⟨loop', same, -, -⟩ := stays
  cases steps_of_eq stepped with
  | ended isOver => exact absurd isOver (by simp [between.unfinished])
  | exhausted | stopped => cases going
  | @went k goes ran =>
    have enough : (w.stepCount + 1 : Nat) ≤ w.maxSteps := by
      have := goes.2
      omega
    obtain ⟨flow, u, executed, ended⟩ := Act.ok_of_bind
      ((stepFrame_within between.frames between.room (List.getElem?_eq_getElem inside)).symm.trans ran)
    obtain ⟨frames, awake⟩ := exec_kept rfl executed
    cases flow with
    | next =>
      cases ended
      exact ⟨_, (between.continues enough ran awake frames rfl).between⟩
    | again =>
      cases (modifyFrame_cons frames _).symm.trans ended
      exact ⟨_, (between.continues enough ran awake rfl rfl).between⟩
    | leave =>
      cases (modifyFrame_cons frames _).symm.trans ended
      exact absurd same (dropWhile_left rfl loop')
    | give =>
      cases ended
      cases same

/-- The rounds of a loop do not change what the loop keeps. -/
theorem between_body (travels : Travels Walker.step (InBody frame outer body (· < body.length)) t e)
    (between : Between ({ frame with loop := some loop } :: outer) t)
    {places : Nat → Prop} (ends : InBody frame outer body places e) :
    ∃ position, places position ∧
      Between ({ frame with loop := some { loop with position } } :: outer) e := by
  induction travels generalizing loop with
  | here =>
    obtain ⟨loop', frames, -, place⟩ := ends
    cases between.frames.symm.trans frames
    exact ⟨_, place, between⟩
  | @on w next e report holds stepped going rest ih =>
    obtain ⟨loop', frames, same, place⟩ := holds
    cases between.frames.symm.trans frames
    have stays : InBody frame outer body (fun _ => True) next := by
      cases rest with
      | here =>
        obtain ⟨loop', frames, same, -⟩ := ends
        exact ⟨loop', frames, same, trivial⟩
      | on holds =>
        obtain ⟨loop', frames, same, -⟩ := holds
        exact ⟨loop', frames, same, trivial⟩
    obtain ⟨position, between⟩ := continues_body between (by rw [same]; exact place) stepped going stays
    have later := ih between ends
    exact later

/-- A counted loop that is open. -/
def countedLoop (line : Option Int) (done count : Nat) (body : List Stmt) (position : Nat) : OpenLoop :=
  { kind := .times done count, line, body, position }

/-- The walker behind a step between the rounds of a counted loop: it is in front of another round, or
has left the loop. -/
def counted (w : Walker) (frame : Frame) (outer : List Frame) (line : Option Int) (done count : Nat)
    (body : List Stmt) : Walker :=
  { w.atLine line with
    frames := (if done < count then { frame with loop := some (countedLoop line done count body 0) }
      else frame.next) :: outer }

theorem stepFrame_opensCounted (between : Between (frame :: outer) w) (closed : frame.loop = none)
    (there : frame.statements[frame.index]? = some (.loopTimes pos count body))
    (given : Denotes w.var count n) :
    stepFrame w.started = (.ok (), w.counted frame outer pos.line 0 n body) := by
  have counts : countOf invokeTop pos.line count (w.atLine pos.line) = _ := countOf_denoted given
  rw [stepFrame_statement between closed there]
  show stepStatement _ (w.atLine pos.line) = _
  rw [stepStatement, Act.bind_ok counts]
  unfold counted
  have frames : (w.atLine pos.line).frames = frame :: outer := between.frames
  rcases Nat.eq_zero_or_pos n with rfl | more
  · exact modifyFrame_cons frames _
  · rw [if_neg (Nat.ne_of_gt more), if_pos more]
    exact modifyFrame_cons frames _

theorem stepFrame_countsRound (between :
      Between ({ frame with loop := some (countedLoop line k n body body.length) } :: outer) w)
    (closed : frame.loop = none) :
    stepFrame w.started = (.ok (), w.counted frame outer line (k + 1) n body) := by
  have frames : (w.atLine line).frames =
    { frame with loop := some (countedLoop line k n body body.length) } :: outer := between.frames
  rw [stepFrame_behind between.frames between.room (Nat.le_refl _)]
  show nextRound _ _ (w.atLine line) = _
  rw [nextRound, modifyFrame_cons frames]
  unfold counted
  by_cases more : k + 1 < n
  · rw [decide_eq_true more, if_pos rfl, if_pos more]
    rfl
  · rw [decide_eq_false more, if_neg (by decide), if_neg more, closeLoop_open closed]

/-- A walker whose next step comes between the rounds of a counted loop. -/
structure InFront (frame : Frame) (outer : List Frame) (line : Option Int) (n : Nat) (body : List Stmt)
    (k : Nat) (t : Walker) : Prop where
  between : ∃ frames, Between frames t
  enough : (t.stepCount + 1 : Nat) ≤ t.maxSteps
  counts : stepFrame t.started = (.ok (), t.counted frame outer line k n body)

/-- A counted loop of the main program, or of a branch in it, runs its body as often as its count
says. -/
theorem repeat_steps (between : Between (frame :: outer) w) (closed : frame.loop = none)
    (there : frame.statements[frame.index]? = some (.loopTimes pos count body))
    (given : Denotes w.var count n) (enough : (w.stepCount + 1 : Nat) ≤ w.maxSteps)
    (ends : ∀ k t b, k < n → Laps (BeginsRound frame outer body) (EndsRound frame outer body) k w t →
      BeginsRound frame outer body t b → ∃ e, EndsRound frame outer body b e ∧
        (e.stepCount + 1 : Nat) ≤ e.maxSteps) :
    ∃ t w', Laps (BeginsRound frame outer body) (EndsRound frame outer body) n w t ∧
      Closes (frame.next :: outer) t w' := by
  have start : InFront frame outer pos.line n body 0 w :=
    ⟨⟨_, between⟩, enough, stepFrame_opensCounted between closed there given⟩
  obtain ⟨t, laps, front⟩ := exists_laps start fun k t less laps front => by
    obtain ⟨⟨_, between⟩, enough, counts⟩ := front
    have left : (t.counted frame outer pos.line k n body).frames =
        { frame with loop := some (countedLoop pos.line k n body 0) } :: outer := by
      unfold counted
      rw [if_pos less]
    have continues := between.continues enough counts rfl left rfl
    obtain ⟨report, stepped, going⟩ := continues.stepped
    have begins : BeginsRound frame outer body t _ :=
      ⟨report, stepped, going, _, continues.between.frames, rfl, rfl⟩
    obtain ⟨e, ended, enough⟩ := ends k t _ less laps begins
    obtain ⟨_, rfl, between⟩ := between_body ended.1 continues.between ended.2
    exact ⟨_, e, begins, ended, ⟨_, between⟩, enough, stepFrame_countsRound between closed⟩
  obtain ⟨⟨_, between⟩, enough, counts⟩ := front
  have closes := between.closes enough counts rfl
  rw [show (t.counted frame outer pos.line n n body).frames = frame.next :: outer by
    unfold counted; rw [if_neg (Nat.lt_irrefl n)]] at closes
  exact ⟨t, _, laps, closes⟩

end Rounds

end Between

end Stepwise.Walker
