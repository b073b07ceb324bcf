import Stepwise.Proofs.Agreement.Loops
import Stepwise.Proofs.Stepped.Flows
import Stepwise.Proofs.Stepped.Oblivious
import Stepwise.Proofs.Stepped.Remainder

/-!
A step of the walker does the beginning of what is left to run: to run the remainder comes to the
same as to take the step and then to run the remainder of the frames that it leaves
(`leads_stepFrame`).
-/
namespace Stepwise.Walker

variable {α : Type} {frames frames' outer : List Frame} {frame : Frame} {rest : Walk Flow}
  {u w : Walker} {pace : Pace}

/-- How running the remainder and taking a step go together. A step that goes well leaves the rest
of the remainder to run, unless it completes the program. -/
inductive Outcome : Except Failure Flow × Walker → Except Failure Unit × Walker → Prop where
  | goes {p : Except Failure Flow × Walker} {rest : Walk Flow} {u w : Walker} : p = rest u →
      Remains w.frames rest → Resembles False w.frames u w → Outcome p (.ok (), w)
  | completed {flow : Flow} {u w : Walker} : u.toEngine.Resembles w.toEngine → w.frames = [] →
      w.status = .completed → Outcome (.ok flow, u) (.ok (), w)
  | failed {failure : Failure} {u w : Walker} : u.toEngine.Resembles w.toEngine →
      Outcome (.error failure, u) (.error failure, w)
  | left {failure : Failure} {u : Walker} {q : Except Failure Unit × Walker} :
      failure.IsExhaustion → Outcome (.error failure, u) q
  | right {failure : Failure} {w : Walker} {p : Except Failure Flow × Walker} :
      failure.IsExhaustion → Outcome p (.error failure, w)

/-- A remainder goes together with a computation in a step, on whatever walkers have these frames. -/
def Leads (frames : List Frame) (rest : Walk Flow) (y : Walk Unit) : Prop :=
  ∀ u w, Resembles False frames u w → Outcome (rest u) (y w)

section Rules

/-- Both sides begin with the same computation. -/
theorem outcome_bind {x : Walk α} (oblivious : Oblivious x) {f : α → Walk Flow}
    {g : α → Walk Unit} (resembles : Resembles False frames u w)
    (goesOn : ∀ a u' w', x u = (.ok a, u') → Resembles False frames u' w' →
      Outcome (f a u') (g a w')) :
    Outcome ((x >>= f) u) ((x >>= g) w) := by
  have matched := oblivious False frames u w resembles
  rw [Act.bind_apply, Act.bind_apply]
  generalize first : x u = p at matched
  generalize x w = q at matched ⊢
  cases matched with
  | @same result u' w' resembles =>
    cases result with
    | error failure => exact .failed resembles.engine
    | ok a => exact goesOn a u' w' first resembles
  | left excused => exact .left excused.2
  | right excused => exact .right excused.2

theorem Leads.bind {x : Walk α} (oblivious : Oblivious x) {f : α → Walk Flow} {g : α → Walk Unit}
    (leads : ∀ a, Leads frames (f a) (g a)) : Leads frames (x >>= f) (x >>= g) :=
  fun _ _ resembles => outcome_bind oblivious resembles fun a u' w' _ resembles =>
    leads a u' w' resembles

theorem Leads.ite {c : Prop} [Decidable c] {x x' : Walk Flow} {y y' : Walk Unit}
    (yes : Leads frames x y) (no : Leads frames x' y') :
    Leads frames (if c then x else x') (if c then y else y') := by
  split
  · exact yes
  · exact no

/-- A statement that is stepped is not counted. -/
theorem Leads.begin {y : Walk Unit} (leads : Leads frames rest y) (line : Option Int) :
    Leads frames (begin line >>= fun _ => rest) y := by
  intro u w resembles
  rw [Act.bind_apply, begin_apply]
  by_cases exceeds : u.maxSteps < (u.begun + 1 : Nat)
  · rw [if_pos exceeds]
    exact .left (isExhaustion_tooManySteps u line)
  · rw [if_neg exceeds]
    exact leads _ w { resembles with engine := resembles.engine, begun := False.elim }

/-- A step of its own is not counted either. -/
theorem Leads.newStep {y : Walk Unit} (leads : Leads frames rest y) :
    Leads frames (newStep >>= fun _ => rest) y := by
  intro u w resembles
  rw [Act.bind_apply, Walker.newStep]
  by_cases exceeds : u.maxSteps < (u.stepCount + 1 : Nat)
  · rw [if_pos exceeds]
    exact .left (isExhaustion_tooManySteps u none)
  · rw [if_neg exceeds]
    have resembles : Resembles False frames u.started w :=
      { resembles with
        engine := (resembles.engine.symm.driven _ _ _).symm
        begun := False.elim }
    exact leads u.started w resembles

/-- However statements are paced, the first of them comes first. -/
theorem leads_run {s : Stmt} {ss : List Stmt} {y : Walk Unit}
    (leads : Leads frames (andThen (exec invokeTop false s) (andThen (pace.run ss) rest)) y) :
    Leads frames (andThen (pace.run (s :: ss)) rest) y := by
  rw [← andThen_assoc] at leads
  cases pace with
  | atOnce =>
    rw [Pace.run, execBlock_cons]
    exact leads
  | stepwise =>
    rw [Pace.run, paced, andThen_bind]
    exact leads.newStep

/-- A step first changes the walker, but not what the program does. -/
theorem Leads.after {f : Walker → Walker} {y : Walk Unit}
    (kept : ∀ u w, Resembles False frames u w → Resembles False frames' u (f w))
    (leads : Leads frames' rest y) :
    Leads frames rest (modify f >>= fun _ => y) := by
  intro u w resembles
  rw [Act.bind_apply, Act.modify_apply]
  exact leads u _ (kept u w resembles)

theorem Leads.setLine {y : Walk Unit} (leads : Leads frames rest y) (line : Option Int) :
    Leads frames rest (setLine line >>= fun _ => y) :=
  leads.after fun _ _ resembles => { resembles with engine := resembles.engine }

theorem Leads.highlight {y : Walk Unit} (leads : Leads frames rest y) (line : Option Int) :
    Leads frames rest (highlight line >>= fun _ => y) :=
  leads.after fun _ _ resembles => { resembles with
    engine := resembles.engine.driven _ _ _ }

theorem resembles_modified (f : Frame → Frame) (resembles : Resembles False (frame :: outer) u w) :
    Resembles False (f frame :: outer) u (match w.frames with
      | [] => w
      | frame :: outer => { w with frames := f frame :: outer }) := by
  have frames := resembles.frames
  rw [frames]
  exact { resembles with engine := resembles.engine, frames := rfl }

theorem Leads.modifyFrame {f : Frame → Frame} {y : Walk Unit}
    (leads : Leads (f frame :: outer) rest y) :
    Leads (frame :: outer) rest (modifyFrame f >>= fun _ => y) :=
  leads.after fun _ _ => resembles_modified f

theorem leads_modify {f : Walker → Walker}
    (kept : ∀ u w, Resembles False frames u w → Resembles False frames' u (f w))
    (remains : Remains frames' rest) : Leads frames rest (modify f) := by
  intro u w resembles
  have resembles := kept u w resembles
  exact .goes rfl (resembles.frames ▸ remains) (resembles.frames ▸ resembles)

theorem leads_pure (remains : Remains frames rest) : Leads frames rest (pure ()) :=
  leads_modify (f := id) (fun _ _ resembles => resembles) remains

theorem leads_modifyFrame {f : Frame → Frame} (remains : Remains (f frame :: outer) rest) :
    Leads (frame :: outer) rest (modifyFrame f) :=
  leads_modify (fun _ _ => resembles_modified f) remains

theorem leads_enterBranch (remains : Remains frames rest) (body : List Stmt) :
    Leads frames (andThen (execBlock invokeTop false body) rest) (enterBranch body) := by
  unfold enterBranch
  cases body with
  | nil => exact leads_pure remains
  | cons s ss =>
    exact leads_modify (fun _ _ resembles => { resembles with
      engine := resembles.engine, frames := congrArg (List.cons _) resembles.frames })
      (remains_entered remains (s :: ss))

theorem leads_finishProgram (flow : Flow) : Leads frames (pure flow) finishProgram :=
  fun _ _ resembles =>
  .completed (resembles.engine.driven _ _ _) rfl rfl

end Rules

section Loops

theorem lookup_stored {name : Name} {v : Value} (stored : store name v u = (.ok (), w)) :
    lookup name w = (.ok v, w) := by
  have found := lookup_store name v u
  rwa [stored] at found

theorem lookup_advanceRange {name : Name} {step v : Value}
    (advanced : advanceRange name step u = (.ok v, w)) : lookup name w = (.ok v, w) := by
  obtain ⟨old, k, -, advanced⟩ := Act.ok_of_bind advanced
  obtain ⟨heap, k', -, advanced⟩ := Act.ok_of_bind advanced
  obtain ⟨v', k'', -, advanced⟩ := Act.ok_of_bind advanced
  obtain ⟨_, k''', stored, advanced⟩ := Act.ok_of_bind advanced
  cases advanced
  exact lookup_stored stored

/-- The next round of a loop with a test. Where the bound on the rounds is used up, nothing is
claimed. -/
theorem outcome_runWhile {line : Option Int} {tests test' : Walk Bool} {body : Walk Flow}
    {advance : Walk Unit} {y : Bool → Walk Unit} (oblivious : Oblivious test')
    (resembles : Resembles False frames u w) (same : tests u = test' u)
    (stop : Leads frames rest (y false))
    (go : ∀ bound, Leads frames (andThen (roundThen body (do
      advance
      runWhile line tests body advance bound)) rest) (y true)) (bound : Nat) :
    Outcome (andThen (runWhile line tests body advance bound) rest u) ((test' >>= y) w) := by
  cases bound with
  | zero => exact .left (isExhaustion_tooManySteps u line)
  | succ bound =>
    have unfolded : andThen (runWhile line tests body advance (bound + 1)) rest u =
        (test' >>= fun holds => andThen (if holds then roundThen body (do
          advance
          runWhile line tests body advance bound) else pure .next) rest) u := by
      rw [Act.bind_apply, ← same, ← Act.bind_apply, ← andThen_bind]
      rfl
    rw [unfolded]
    refine outcome_bind oblivious resembles fun holds u' w' _ resembles => ?_
    cases holds with
    | false => exact stop u' w' resembles
    | true => exact go bound u' w' resembles

theorem discard_bind {β : Type} (x : Walk α) (f : Unit → Walk β) :
    (discard x >>= f) = x >>= fun _ => f () := by
  simp only [Functor.discard, map_const, Function.comp_apply, map_eq_pure_bind, bind_assoc,
    pure_bind]

/-- The further rounds of a range loop, whose variable has a name. -/
theorem furtherRounds_range {var : Constant} {name : Name} (named : var.name = .ok name)
    (stop step : Value) (line : Option Int) (body : List Stmt) (position bound : Nat) :
    OpenLoop.furtherRounds bound { kind := .range var stop step, line, body, position } = (do
      discard (advanceRange name step)
      runWhile line (do inRange (← lookup name) stop step) (execBlock invokeTop true body)
        (discard (advanceRange name step)) bound) := by
  unfold OpenLoop.furtherRounds
  rw [discard_bind]
  dsimp only
  rw [named]
  rfl

variable {loop : OpenLoop} (remains : Remains outer rest)

include remains

/-- A loop that is opened: its first round is what is left of it. -/
theorem leads_openLoop (kind : LoopKind) (line : Option Int) (body : List Stmt) (bound : Nat) :
    Leads (frame :: outer) (andThen (OpenLoop.remainder bound { kind, line, body })
      (behind pace frame rest)) (openLoop kind line body) :=
  leads_modifyFrame (remains_open remains { kind, line, body } bound)

/-- A round that begins: it is left to run, and then the further ones. -/
theorem leads_again (isOpen : frame.loop = some loop) (kind : LoopKind) (bound : Nat) :
    Leads (frame :: outer) (andThen (OpenLoop.remainder bound { loop with kind, position := 0 })
      (behind pace frame rest)) (nextRound kind true) := by
  refine leads_modifyFrame ?_
  rw [if_pos rfl, isOpen, Option.map_some]
  exact remains_open remains { loop with kind, position := 0 } bound

theorem leads_stop (kind : LoopKind) :
    Leads (frame :: outer) (behind pace frame rest) (nextRound kind false) := by
  refine leads_modifyFrame ?_
  rw [if_neg Bool.false_ne_true]
  exact remains_closed remains

/-- The transition of a loop to its next round begins the rounds that are left. -/
theorem leads_advanceLoop (isOpen : frame.loop = some loop) (bound : Nat) :
    Leads (frame :: outer) (andThen (loop.furtherRounds bound) (behind pace frame rest))
      (advanceLoop loop.kind) := by
  obtain ⟨kind, line, body, position⟩ := loop
  cases kind with
  | times counter limit =>
    unfold OpenLoop.furtherRounds advanceLoop
    dsimp only
    by_cases more : counter + 1 < limit
    · obtain ⟨left, rfl⟩ := Nat.exists_eq_add_of_lt more
      have count : counter + 1 + left + 1 - (counter + 1) = left + 1 := by omega
      have fewer : counter + 1 + left + 1 - (counter + 1 + 1) = left := by omega
      have rounds : runTimes (execBlock invokeTop true body) (left + 1) = OpenLoop.remainder bound
          { kind := .times (counter + 1) (counter + 1 + left + 1), line, body } := by
        rw [runTimes_succ, OpenLoop.remainder, OpenLoop.furtherRounds]
        dsimp only
        rw [fewer]
        rfl
      rw [count, rounds, decide_eq_true more]
      exact leads_again remains isOpen _ bound
    · have count : limit - (counter + 1) = 0 := by omega
      rw [count, decide_eq_false more]
      exact leads_stop remains _
  | whileTrue condition =>
    intro u w resembles
    refine outcome_runWhile (oblivious_test unseeing_invokeTop condition) resembles rfl
      (leads_stop remains _) (fun bound => ?_) bound
    exact leads_again remains isOpen (.whileTrue condition) bound
  | range var stop step =>
    unfold OpenLoop.furtherRounds advanceLoop
    dsimp only
    intro u w resembles
    rw [andThen_bind]
    refine outcome_bind (oblivious_lift _) resembles fun name u w named resembles => ?_
    have named : var.name = .ok name := congrArg Prod.fst named
    rw [andThen_bind]
    refine outcome_bind (oblivious_advanceRange unseeing_invokeTop name step) resembles
      fun v u w advanced resembles => ?_
    have found := lookup_advanceRange advanced
    refine outcome_runWhile (oblivious_inRange unseeing_invokeTop v stop step) resembles
      (by rw [Act.bind_ok found]) (leads_stop remains _) (fun bound => ?_) bound
    rw [← furtherRounds_range named]
    exact leads_again remains isOpen (.range var stop step) bound
  | each var items index =>
    unfold OpenLoop.furtherRounds advanceLoop
    dsimp only
    cases there : items[index + 1]? with
    | none =>
      rw [List.drop_eq_nil_of_le (by simpa using there)]
      exact leads_stop remains _
    | some item =>
      obtain ⟨inside, rfl⟩ := List.getElem?_eq_some_iff.mp there
      rw [List.drop_eq_getElem_cons inside, runEach_cons, andThen_bind]
      refine .bind (oblivious_lift _) fun name => ?_
      rw [andThen_bind]
      refine .bind (oblivious_store name _) fun _ => ?_
      exact leads_again remains isOpen (.each var items (index + 1)) bound

end Loops

section Statements

/-- Further branches, of which the first whose test holds is entered. -/
theorem leads_chooseElif (remains : Remains frames rest) (otherwise : Option (List Stmt))
    (es : List Elif) : Leads frames (andThen
      (execElifs invokeTop false (execOtherwise invokeTop false otherwise) es) rest)
      (chooseElif otherwise es >>= enterBranch) := by
  induction es with
  | nil =>
    simp only [execElifs, chooseElif, pure_bind]
    cases otherwise with
    | none =>
      simp only [execOtherwise, andThen_next]
      exact leads_pure remains
    | some body =>
      simp only [execOtherwise]
      exact leads_enterBranch remains body
  | cons e es ih =>
    obtain ⟨pos, condition, body⟩ := e
    simp only [execElifs, execElif, chooseElif, andThen_bind, bind_assoc]
    refine .bind (oblivious_test unseeing_invokeTop condition) fun holds => ?_
    cases holds with
    | false => exact ih
    | true => exact leads_enterBranch remains body

variable (remains : Remains outer rest)

include remains

/-- A statement that is run in one step. -/
theorem leads_exec (plain : frame.loop = none) {s : Stmt}
    (goes : Yields (· = .next) (exec invokeTop false s)) :
    Leads (frame :: outer) (andThen (exec invokeTop false s) (behind pace frame rest)) (do
      let _ ← exec invokeTop false s
      modifyFrame Frame.next) := by
  intro u w resembles
  refine outcome_bind (oblivious_exec unseeing_invokeTop s false) resembles
    fun flow u' w' ran resembles => ?_
  obtain rfl := goes u flow u' ran
  exact leads_modifyFrame (remains_next remains plain) u' w' resembles

theorem leads_stepStatement (plain : frame.loop = none) (s : Stmt) :
    Leads (frame :: outer) (andThen (exec invokeTop false s) (behind pace frame rest))
      (stepStatement s) := by
  have unseeing := unseeing_invokeTop
  have next : Leads (frame :: outer) (behind pace frame rest) (modifyFrame Frame.next) :=
    leads_modifyFrame (remains_next remains plain)
  cases s with
  | branch pos condition body elifs otherwise =>
    simp only [exec, stepStatement, andThen_bind, andThen_ite]
    refine .begin (.modifyFrame (.bind (oblivious_test unseeing condition)
      fun holds => .ite ?_ ?_)) _
    · exact leads_enterBranch (remains_next remains plain) body
    · exact leads_chooseElif (remains_next remains plain) otherwise elifs
  | loopTimes pos count body =>
    simp only [exec, stepStatement, andThen_bind]
    refine .begin (.bind (oblivious_countOf unseeing pos.line count) fun limit => ?_) _
    cases limit with
    | zero => exact next
    | succ limit => exact leads_openLoop remains (.times 0 (limit + 1)) pos.line body 0
  | loopWhile pos condition body =>
    simp only [exec, stepStatement, andThen_bind]
    refine .begin ?_ _
    intro u w resembles
    rw [Act.bind_apply, Act.get_apply]
    refine outcome_runWhile (oblivious_test unseeing condition) resembles rfl ?_ (fun bound => ?_) _
    · exact next
    · exact leads_openLoop remains (.whileTrue condition) pos.line body bound
  | loopRange pos var start stop step body =>
    simp only [exec, stepStatement, andThen_bind]
    refine .begin (.bind (oblivious_boundsOf unseeing pos.line start stop step) fun bounds => ?_) _
    intro u w resembles
    refine outcome_bind (oblivious_lift _) resembles fun name u w named resembles => ?_
    have named : var.name = .ok name := congrArg Prod.fst named
    refine outcome_bind (oblivious_store name _) resembles fun _ u w stored resembles => ?_
    have found := lookup_stored stored
    rw [Act.bind_apply, Act.get_apply]
    refine outcome_runWhile (oblivious_inRange unseeing _ _ _) resembles (by rw [Act.bind_ok found])
      ?_ (fun bound => ?_) _
    · exact next
    · rw [← furtherRounds_range named]
      exact leads_openLoop remains (.range var bounds.2.1 bounds.2.2) pos.line body bound
  | loopEach pos var items body =>
    simp only [exec, stepStatement, andThen_bind]
    refine .begin (.bind (oblivious_itemsOf unseeing pos.line items) fun items => ?_) _
    cases items with
    | nil => exact next
    | cons item items =>
      rw [runEach_cons, andThen_bind]
      refine .bind (oblivious_lift _) fun name => ?_
      rw [andThen_bind]
      refine .bind (oblivious_store name item) fun _ => ?_
      exact leads_openLoop remains (.each var (item :: items) 0) pos.line body 0
  | give pos value =>
    simp only [exec, stepStatement, andThen_bind, andThen_give]
    exact .begin (.bind (oblivious_evalOption unseeing value) fun v => leads_finishProgram _) _
  | expr =>
    refine leads_exec remains plain ?_
    simp only [exec]
    exact .bind fun _ => .bind fun _ => yields_pure rfl
  | pass =>
    refine leads_exec remains plain ?_
    simp only [exec]
    exact .bind fun _ => yields_pure rfl
  | assign =>
    refine leads_exec remains plain ?_
    simp only [exec]
    exact .bind fun _ => .bind fun _ => .bind fun _ => .bind fun _ => yields_pure rfl
  | setIndex | setMember =>
    refine leads_exec remains plain ?_
    simp only [exec]
    exact .bind fun _ => .bind fun _ => .bind fun _ => .bind fun _ => .bind fun _ =>
      .bind fun _ => .bind fun _ => yields_pure rfl
  | update pos target op value =>
    refine leads_exec remains plain ?_
    simp only [exec]
    refine .bind fun _ => .bind fun _ => .bind fun _ => .bind fun _ => ?_
    split
    · exact yields_throw _
    · exact .bind fun _ => .bind fun _ => .bind fun _ => yields_pure rfl
  | leave | again | define | defineClass | alien =>
    refine leads_exec remains plain ?_
    simp only [exec]
    exact .bind fun _ => yields_throw _

end Statements

section Steps

variable {loop : OpenLoop}

theorem leads_stepLoop (remains : Remains outer rest) (isOpen : frame.loop = some loop)
    (bound : Nat) : Leads (frame :: outer) (andThen (loop.remainder bound) (behind pace frame rest))
      (stepLoop loop) := by
  unfold stepLoop
  cases there : loop.body[loop.position]? with
  | none =>
    have past : loop.body.length ≤ loop.position := by simpa using there
    rw [OpenLoop.remainder_end past]
    exact ((leads_advanceLoop remains isOpen bound).setLine loop.line).highlight loop.line
  | some s =>
    rw [OpenLoop.remainder_some there, andThen_bind]
    refine .modifyFrame (.highlight
      (.bind (oblivious_exec unseeing_invokeTop s true) fun flow => ?_) s.line)
    cases flow with
    | next =>
      refine leads_pure ?_
      rw [isOpen, Option.map_some]
      exact remains_open remains _ bound
    | leave => exact leads_modifyFrame (remains_closed remains)
    | again =>
      refine leads_modifyFrame ?_
      rw [isOpen, Option.map_some, Option.map_some]
      have ended : OpenLoop.remainder bound { loop with position := loop.body.length } =
          loop.furtherRounds bound := OpenLoop.remainder_end (Nat.le_refl loop.body.length)
      rw [← ended]
      exact remains_open remains _ bound
    | give v => exact leads_finishProgram _

/-- Whether there is room depends on the limit of calls alone. -/
theorem oblivious_makeRoom : Oblivious makeRoom := by
  have tight (levels : Int) :
      Oblivious (if levels < leastLevels then throw (.host .endless) else pure ()) :=
    .ite (oblivious_throw _) (oblivious_pure ())
  have room (depth : Int) : Oblivious (do
      let levels := ownLevels + levelsPerCall * depth
      if levels < -(pow2 31 : Int) || (pow2 31 : Int) ≤ levels then throw (.host .overflow)
      if levels < 1 then throw (.host .noDepth)
      if levels < leastLevels then throw (.host .endless)) :=
    .ite ((oblivious_throw _).bind fun _ =>
        .ite ((oblivious_throw _).bind fun _ => tight _) (tight _))
      (.ite ((oblivious_throw _).bind fun _ => tight _) (tight _))
  intro counted frames w w' resembles
  have same := room w'.maxCallDepth counted frames w w' resembles
  unfold makeRoom
  rw [Act.bind_apply, Act.bind_apply, Act.get_apply, Act.get_apply]
  dsimp only at same ⊢
  rw [resembles.engine.maxCallDepth]
  exact same

theorem Leads.get {y : Walker → Walk Unit}
    (leads : ∀ w, w.frames = frames → Leads frames rest (y w)) :
    Leads frames rest (get >>= y) := fun u w resembles => leads w resembles.frames u w resembles

/-- A step does the beginning of what is left to run. -/
theorem leads_stepFrame (remains : Remains frames rest) :
    Leads frames (do
      makeRoom
      rest) stepFrame := by
  have unwound : ∀ u w, Resembles False frames u w →
      Resembles False (frames.dropWhile Frame.finished) u w.unwind := fun u w resembles =>
    { resembles with
      engine := resembles.engine
      frames := congrArg (List.dropWhile Frame.finished) resembles.frames }
  refine .bind oblivious_makeRoom fun _ => .after unwound (.get fun w same => ?_)
  have remains := remains.unwind
  rw [same]
  generalize frames.dropWhile Frame.finished = frames at remains ⊢
  cases frames with
  | nil =>
    cases remains
    exact fun u w resembles => .completed (resembles.engine.driven _ _ _) resembles.frames rfl
  | cons frame outer =>
    dsimp only
    split
    next loop isOpen =>
      obtain ⟨pace, bound, others, around, rfl⟩ := remains_loop remains isOpen
      exact leads_stepLoop around isOpen bound
    next plain =>
      split
      next => exact leads_pure remains
      next s there =>
        obtain ⟨pace, others, around, rfl⟩ := remains_some remains plain there
        exact leads_run (((leads_stepStatement around plain s).setLine s.line).highlight s.line)

end Steps

end Stepwise.Walker
