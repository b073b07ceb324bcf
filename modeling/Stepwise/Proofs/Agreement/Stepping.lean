import Stepwise.Proofs.Agreement.Frames

/-!
The machine follows a step of the walker: a statement of the innermost frame, a statement in the
body of its open loop, or the transition of that loop to the next round.
-/
namespace Stepwise

open Machine (Keeps Reaches isHidden)

variable {S : Setting} {m : Machine} {w : Walker} {stack : List Value} {pc number : Nat}
  {span : Span} {statements : List Stmt} {index : Nat} {outer : List Frame}

/-- Calls from the main program are served at any depth that is allowed. -/
theorem serves_invokeTop (sound : S.Sound) : Serves S Walker.invokeTop 0 := by
  intro number w k pc stack args f name address argc base line receiver enters during counted based
  have serves := serves_invokeAt sound S.depth.toNat 0 (Nat.add_zero _)
  refine carries_congr ?_ (serves enters during counted based)
  show Walker.invokeAt w.maxCallDepth.toNat f args _ w = _
  rw [during.limit]

theorem modifyFrame_eq {frame : Frame} (frames : w.frames = frame :: outer) (f : Frame → Frame) :
    Walker.modifyFrame f w = (.ok (), { w with frames := f frame :: outer }) := by
  simp only [Walker.modifyFrame, Act.modify_apply, frames]

/-- Going on with the statement behind the one that was run. -/
theorem follows_next (frames : w.frames = { statements, index } :: outer)
    (rest : Rest S ({ statements, index := index + 1 } :: outer) pc) (here : At S 0 w m pc []) :
    Follows S (Walker.modifyFrame Frame.next) w m :=
  follows_last (modifyFrame_eq frames _) ⟨rfl, rfl, rfl⟩
    (.inr ⟨pc, [], here.withFrames _, .rest rest⟩)

section Branches

theorem follows_enterBranch {body : List Stmt} {second next target : Nat}
    (placed : StmtsAt S.code S.scope none number pc body second next)
    (common : Stmt.EveryIn Expr.Common Stmt.Common body) (leads : S.Leads next target)
    (rest : Rest S w.frames target) (here : At S 0 w m pc []) :
    Follows S (Walker.enterBranch body) w m := by
  cases body with
  | nil =>
    cases placed
    refine (tracks_leads leads here : Tracks 0 _ _ _ _).ahead fun m' _ here => ?_
    exact follows_last rfl ⟨rfl, rfl, rfl⟩ (.inr ⟨target, [], here, .rest rest⟩)
  | cons s ss =>
    exact follows_last rfl ⟨rfl, rfl, rfl⟩
      (.inr ⟨pc, [], here.withFrames _, .rest (.frame placed common leads rest)⟩)

/-- The machine is at the first statement of an arm of a branch that ends at an address. -/
def ArmAt (S : Setting) (finish : Nat) (body : List Stmt) (w : Walker) (m : Machine) : Prop :=
  ∃ number pc second next, At S 0 w m pc [] ∧
    StmtsAt S.code S.scope none number pc body second next ∧
    Stmt.EveryIn Expr.Common Stmt.Common body ∧ S.Leads next finish

theorem tracks_chooseElif (sound : S.Sound) {otherwise : Option (List Stmt)} {finish : Nat}
    {lastArm : Bool} {third final : Nat}
    (commonLast : Stmt.EveryOtherwise Expr.Common Stmt.Common otherwise) :
    ∀ {es : List Elif} {number second base next : Nat} {w : Walker} {m : Machine},
    ElifsAt S.code S.scope none finish lastArm second base es third next →
    OtherwiseAt S.code S.scope none third next otherwise final finish →
    Stmt.EveryElif Expr.Common Stmt.Common es → At S 0 w m base [] →
    Tracks number (Walker.chooseElif otherwise es) w m (ArmAt S finish) := by
  intro es
  induction es with
  | nil =>
    intro number second base next w m placed last _ here
    cases placed
    unfold Walker.chooseElif
    refine tracks_pure ?_
    cases last with
    | absent => exact ⟨0, _, _, _, here, .nil, trivial, .inl rfl⟩
    | present inner => exact ⟨_, _, _, _, here, inner, commonLast, .inl rfl⟩
  | cons e es ih =>
    intro number second base next w m placed last common here
    cases placed with | cons tested jumps inner exit rest =>
    unfold Walker.chooseElif
    have serves := serves_invokeTop sound
    refine (tracks_test sound serves tested common.1.1 jumps here).bind fun holds w m _ here => ?_
    cases holds with
    | true => exact tracks_pure ⟨_, _, _, _, here, inner, common.1.2, exit.leads⟩
    | false => exact ih rest last common.2 here

end Branches

section Rounds

variable {loop : OpenLoop}

/-- Out of a loop, behind its code. -/
theorem Turns.leave {line : Option Int} {kind : LoopKind} (turns : Turns S line m kind span stack)
    (here : At S 0 w m span.targets.leave stack) :
    Tracks 0 (pure ()) w m (Rests S 0 span.finish []) := by
  cases turns with
  | times _ next _ => exact tracks_countLeave next here
  | whileTrue => exact tracks_pure here
  | range => exact tracks_pure here

theorem follows_again {kind : LoopKind}
    (frames : w.frames = { statements, index, loop := some loop } :: outer)
    (turns : Turns S loop.line m kind span stack) (body : Within S span loop.body 0 span.body)
    (rest : Rest S ({ statements, index := index + 1 } :: outer) span.finish)
    (here : At S 0 w m span.body stack) : Follows S (Walker.nextRound kind true) w m :=
  follows_last (modifyFrame_eq frames _) ⟨rfl, rfl, rfl⟩
    (.inr ⟨_, _, here.withFrames _, .turn turns body body rest⟩)

theorem follows_openLoop {kind : LoopKind} {line : Option Int} {body : List Stmt} {second : Nat}
    (frames : w.frames = { statements, index } :: outer)
    (turns : Turns S line m kind span stack)
    (inner : StmtsAt S.code S.scope (some span.targets) span.number span.body body second span.last)
    (common : Stmt.EveryIn Expr.Common Stmt.Common body)
    (rest : Rest S ({ statements, index := index + 1 } :: outer) span.finish)
    (here : At S 0 w m span.body stack) : Follows S (Walker.openLoop kind line body) w m := by
  have start : Within S span body 0 span.body := .inside (Nat.le_refl _) inner common
  exact follows_last (modifyFrame_eq frames _) ⟨rfl, rfl, rfl⟩
    (.inr ⟨_, _, here.withFrames _, .turn turns start start rest⟩)

theorem follows_close (frames : w.frames = { statements, index, loop := some loop } :: outer)
    (rest : Rest S ({ statements, index := index + 1 } :: outer) pc) (here : At S 0 w m pc []) :
    Follows S (Walker.modifyFrame Frame.closeLoop) w m :=
  follows_last (modifyFrame_eq frames _) ⟨rfl, rfl, rfl⟩
    (.inr ⟨_, _, here.withFrames _, .rest rest⟩)

/-- The transition of a loop to its next round, or out of the loop. -/
theorem follows_advanceLoop (sound : S.Sound)
    (frames : w.frames = { statements, index, loop := some loop } :: outer)
    (turns : Turns S loop.line m loop.kind span stack) (body : Within S span loop.body 0 span.body)
    (rest : Rest S ({ statements, index := index + 1 } :: outer) span.finish)
    (here : At S 0 w m span.last stack ∨ At S 0 w m span.targets.again stack) :
    Follows S (Walker.advanceLoop loop.kind) w m := by
  have closed {kind : LoopKind} {w : Walker} {m : Machine}
      (frames : w.frames = { statements, index, loop := some loop } :: outer)
      (here : At S 0 w m span.finish []) : Follows S (Walker.nextRound kind false) w m :=
    follows_close frames rest here
  generalize loop.kind = kind at turns
  cases turns with
  | @times done limit start again number i test next provides =>
    have here : At S 0 w m again _ := here.elim id id
    refine (tracks_countAgain next here : Tracks number _ _ _ _).ahead fun m kept here => ?_
    have provides := provides.mono kept
    refine (tracks_countTest _ test provides here).ahead fun m kept here => ?_
    have provides := provides.mono kept
    unfold Walker.advanceLoop
    dsimp only
    by_cases more : done + 1 < limit
    · rw [if_neg (by omega)] at here
      rw [decide_eq_true more]
      exact follows_again frames (.times test next provides) body rest here
    · rw [if_pos (by omega)] at here
      rw [decide_eq_false more]
      refine (tracks_countLeave next here : Tracks 0 _ _ _ _).ahead fun m _ here => ?_
      exact closed frames here
  | @whileTrue test base mid again number tested common jumps back =>
    have begins : m.Reaches fun m' => At S 0 w m' base [] := by
      rcases here with here | here
      · have jumped : m.Reaches fun m' => At S 0 w m' base [] ∧ m.Keeps 0 m' ∧ w.Steady w :=
          tracks_jump here back
        exact jumped.mono fun _ => And.left
      · exact .here here
    refine simulates_after begins fun m here => ?_
    have serves := serves_invokeTop sound
    refine (tracks_test sound serves tested common jumps here : Tracks 0 _ _ _ _).follows
      fun holds w m _ same here => ?_
    have frames := same.trans frames
    cases holds with
    | true => exact follows_again frames (.whileTrue tested common jumps back) body rest here
    | false => exact closed frames here
  | @range var stopName stop step start again number known pushStep shown test next range =>
    have here : At S 0 w m again _ := here.elim id id
    refine (tracks_rangeAgain shown next range here).follows fun v w m kept same bound => ?_
    have range := range.mono kept
    have frames := same.trans frames
    have tested : Tracks number _ _ _ _ := tracks_rangeTest shown test range bound.1
    have alike : Walker.inRange v stop step w =
        (do Walker.inRange (← Walker.lookup var) stop step) w := by
      rw [Act.bind_ok bound.2]
    refine (tracks_congr alike tested).follows fun holds w m kept same here => ?_
    have range := range.mono kept
    have frames := same.trans frames
    cases holds with
    | true => exact follows_again frames (.range shown test next range) body rest here
    | false => exact closed frames here

/-- A statement in the body of an open loop, or the next round of the loop. -/
theorem follows_stepLoop (sound : S.Sound)
    (frames : w.frames = { statements, index, loop := some loop } :: outer)
    (turns : Turns S loop.line m loop.kind span stack) (body : Within S span loop.body 0 span.body)
    (within : Within S span loop.body loop.position pc)
    (rest : Rest S ({ statements, index := index + 1 } :: outer) span.finish)
    (here : At S 0 w m pc stack) : Follows S (Walker.stepLoop loop) w m := by
  unfold Walker.stepLoop
  cases found : loop.body[loop.position]? with
  | none =>
    have through : loop.body.length ≤ loop.position := List.getElem?_eq_none_iff.mp found
    refine follows_walk rfl ⟨rfl, rfl, rfl⟩ (follows_walk rfl ⟨rfl, rfl, rfl⟩ ?_)
    have stays := (here.own w.frames w.status { w.report with highlightLine := loop.line }
      w.stepCount w.begun here.awake).withLine loop.line w.begun
    refine follows_advanceLoop sound frames turns body rest ?_
    cases within with
    | inside le placed _ =>
      rw [List.drop_eq_nil_of_le through] at placed
      cases placed
      exact .inl stays
    | again => exact .inr stays
  | some s =>
    obtain ⟨inside, here'⟩ := List.getElem?_eq_some_iff.mp found
    cases within with
    | again through => omega
    | inside le placed common =>
    rw [List.drop_eq_getElem_cons inside, here'] at placed common
    cases placed with | cons first later =>
    refine follows_walk (modifyFrame_eq frames _) ⟨rfl, rfl, rfl⟩
      (follows_walk rfl ⟨rfl, rfl, rfl⟩ ?_)
    have stays := here.own
      ({ statements, index, loop := some { loop with position := loop.position + 1 } } :: outer)
      w.status { w.report with highlightLine := s.line } w.stepCount w.begun here.awake
    have serves := serves_invokeTop sound
    refine (tracks_exec sound serves s first common.1 stays).follows
      fun flow w m kept same ends => ?_
    have frames : w.frames = { statements, index, loop := some { loop with
      position := loop.position + 1 } } :: outer := same
    have turns := turns.mono (kept.weaken le)
    cases flow with
    | next =>
      exact follows_last rfl ⟨rfl, rfl, rfl⟩ (.inr ⟨_, _, ends, frames ▸
        .turn turns body (.inside (Nat.le_trans le (stmtAt_le s first)) later common.2) rest⟩)
    | leave =>
      obtain ⟨_, ⟨⟩, ends⟩ := ends
      exact (turns.leave ends).ahead fun m _ here => follows_close frames rest here
    | again =>
      obtain ⟨_, ⟨⟩, ends⟩ := ends
      exact follows_last (modifyFrame_eq frames _) ⟨rfl, rfl, rfl⟩
        (.inr ⟨_, _, ends.withFrames _, .turn turns body (.again (Nat.le_refl _)) rest⟩)
    | give v => exact follows_finishProgram ends

end Rounds

section Statements

theorem follows_straight {s : Stmt} {second mid : Nat} (sound : S.Sound)
    (frames : w.frames = { statements, index } :: outer)
    (placed : StmtAt S.code S.scope none number pc s second mid) (straight : s.IsStraight)
    (common : s.Every Expr.Common Stmt.Common)
    (rest : Rest S ({ statements, index := index + 1 } :: outer) mid) (here : At S 0 w m pc []) :
    Follows S (do
      let _ ← Walker.exec Walker.invokeTop false s
      Walker.modifyFrame Frame.next) w m :=
  (tracks_straight sound (serves_invokeTop sound) placed straight common here).follows
    fun _ _ _ _ same ends => follows_next (same.trans frames) rest ends.2

/-- A statement of the innermost frame. A loop is left open. -/
theorem follows_stepStatement {s : Stmt} {second mid : Nat} (sound : S.Sound)
    (frames : w.frames = { statements, index } :: outer)
    (placed : StmtAt S.code S.scope none number pc s second mid)
    (common : s.Every Expr.Common Stmt.Common)
    (rest : Rest S ({ statements, index := index + 1 } :: outer) mid) (here : At S 0 w m pc []) :
    Follows S (Walker.stepStatement s) w m := by
  have serves := serves_invokeTop sound
  cases s with
  | expr => exact follows_straight sound frames placed trivial common rest here
  | assign => exact follows_straight sound frames placed trivial common rest here
  | update => exact follows_straight sound frames placed trivial common rest here
  | setIndex => exact follows_straight sound frames placed trivial common rest here
  | setMember => exact follows_straight sound frames placed trivial common rest here
  | pass => exact follows_straight sound frames placed trivial common rest here
  | branch _ test body elifs otherwise =>
    cases placed with | branch tested jumps inner exit arms last =>
    unfold Walker.stepStatement
    refine follows_walk (modifyFrame_eq frames _) ⟨rfl, rfl, rfl⟩ ?_
    have here := here.withFrames ({ statements, index := index + 1 } :: outer)
    refine (tracks_test sound serves tested common.2.1 jumps here : Tracks 0 _ _ _ _).follows
      fun holds w m _ same here => ?_
    have rest : Rest S w.frames mid := same ▸ rest
    cases holds with
    | true => exact follows_enterBranch inner common.2.2.1 exit.leads rest here
    | false =>
      refine (tracks_chooseElif sound common.2.2.2.2 arms last common.2.2.2.1 here :
        Tracks 0 _ _ _ _).follows fun arm w m _ same ends => ?_
      obtain ⟨_, _, _, _, here, inner, common, leads⟩ := ends
      exact follows_enterBranch inner common leads (same ▸ rest) here
  | loopTimes pos count body =>
    cases placed with | @loopTimes _ _ _ _ _ _ _ _ first _ _ limit test inner next =>
    unfold Walker.stepStatement
    refine (tracks_limit sound serves limit common.2.1 here).follows fun n w m _ same counted => ?_
    obtain ⟨here, provides⟩ := counted
    have frames := same.trans frames
    have pushes := (Code.holds_cons.mp test).1
    refine (tracks_push here pushes : Tracks first _ _ _ _).ahead fun m kept here => ?_
    have provides := provides.mono kept
    refine (tracks_countTest 0 test provides here).ahead fun m kept here => ?_
    have provides := provides.mono kept
    split
    next none =>
      rw [if_pos (by omega)] at here
      refine (tracks_countLeave next here : Tracks 0 _ _ _ _).ahead fun m _ here => ?_
      exact follows_next frames rest here
    next some =>
      rw [if_neg (by omega)] at here
      exact follows_openLoop frames (.times test next provides) inner common.2.2 rest here
  | loopWhile pos test body =>
    cases placed with | loopWhile tested jumps inner back =>
    unfold Walker.stepStatement
    refine (tracks_test sound serves tested common.2.1 jumps here : Tracks 0 _ _ _ _).follows
      fun holds w m _ same here => ?_
    have frames := same.trans frames
    cases holds with
    | true =>
      exact follows_openLoop frames (.whileTrue tested common.2.1 jumps back) inner common.2.2 rest
        here
    | false => exact follows_next frames rest here
  | loopRange pos var start stop step body =>
    cases placed with | @loopRange _ _ _ _ _ _ _ _ _ _ _ _ _ _ again setup test inner next =>
    obtain ⟨⟨s, rfl, -⟩, shown⟩ := common.1
    unfold Walker.stepStatement
    have follows : Follows S _ w m := (tracks_bounds sound serves (shown _ rfl) setup common.2.1
      common.2.2.1 common.2.2.2.1 here).follows (f := fun bounds : Value × Value × Value => do
        if ← Walker.inRange bounds.1 bounds.2.1 bounds.2.2 then
          Walker.openLoop (.range (.scalar (.text s)) bounds.2.1 bounds.2.2) pos.line body
        else Walker.modifyFrame Frame.next) fun bounds w m _ same bound => ?_
    · simpa only [bind_assoc, pure_bind, walk_name] using follows
    obtain ⟨here, looked, range⟩ := bound
    have frames := same.trans frames
    have tested : Tracks (number + 1) _ _ _ _ := tracks_rangeTest (shown _ rfl) test range here
    have alike : Walker.inRange bounds.1 bounds.2.1 bounds.2.2 w =
        (do Walker.inRange (← Walker.lookup s) bounds.2.1 bounds.2.2) w := by
      rw [Act.bind_ok looked]
    refine (tracks_congr alike tested).follows fun holds w m kept same here => ?_
    have range := range.mono kept
    have frames := same.trans frames
    cases holds with
    | true =>
      exact follows_openLoop frames (.range (shown _ rfl) test next range) inner common.2.2.2.2 rest
        here
    | false => exact follows_next frames rest here
  | loopEach => exact common.1.2.elim
  | leave => cases placed
  | again => cases placed
  | define => cases placed
  | defineClass => cases placed
  | alien => cases placed
  | give _ value =>
    cases placed with | give inner ret =>
    unfold Walker.stepStatement
    refine (tracks_evalOption sound serves value common.2 inner here : Tracks 0 _ _ _ _).follows
      fun v w m _ _ here => ?_
    exact follows_finishProgram ⟨_, _, [], ret, here⟩

end Statements

/-- With this depth of calls a step finds enough room. -/
def Setting.Roomy (S : Setting) : Prop :=
  Walker.leastLevels ≤ Walker.ownLevels + Walker.levelsPerCall * S.depth ∧
    Walker.ownLevels + Walker.levelsPerCall * S.depth < pow2 31

theorem makeRoom_eq (room : S.Roomy) (limit : w.maxCallDepth = S.depth) :
    Walker.makeRoom w = (.ok (), w) := by
  obtain ⟨least, most⟩ := room
  have positive : (0 : Int) ≤ pow2 31 := Int.natCast_nonneg _
  unfold Walker.leastLevels at least
  unfold Walker.makeRoom Walker.leastLevels
  simp only [Act.bind_apply, Act.get_apply, limit, Bool.or_eq_true, decide_eq_true_eq]
  rw [if_neg (by omega), if_neg (by omega), if_neg (by omega)]
  rfl

/-- The machine follows a step of the walker. -/
theorem follows_stepFrame (sound : S.Sound) (room : S.Roomy) (abreast : Abreast S w m) :
    Follows S Walker.stepFrame w m := by
  have limit : w.maxCallDepth = S.depth := by
    obtain ⟨_, _, here, _⟩ := abreast
    exact here.limit
  unfold Walker.stepFrame
  refine follows_walk (makeRoom_eq room limit) ⟨rfl, rfl, rfl⟩
    (follows_walk rfl ⟨rfl, rfl, rfl⟩ (simulates_after abreast.unwind fun m abreast => ?_))
  refine follows_walk (w := w.unwind) rfl ⟨rfl, rfl, rfl⟩ ?_
  generalize w.unwind = w at abreast
  obtain ⟨pc, stack, here, under⟩ := abreast
  generalize frames : w.frames = remaining at under
  cases under with
  | rest rest =>
    cases rest with
    | halt has =>
      have same : Engine.Shares { w.toEngine with status := .completed } w.toEngine :=
        ⟨rfl, rfl, rfl, rfl⟩
      refine simulates_after (here.halts has same) fun m completes => ?_
      exact follows_last rfl ⟨rfl, rfl, rfl⟩ (.inl ⟨frames, rfl, completes⟩)
    | @frame statements index number second pc next target outer placed common leads rest =>
      dsimp only
      cases found : statements[index]? with
      | none =>
        exact follows_last rfl ⟨rfl, rfl, rfl⟩
          (.inr ⟨_, _, here, frames ▸ .rest (.frame placed common leads rest)⟩)
      | some s =>
        obtain ⟨inside, here'⟩ := List.getElem?_eq_some_iff.mp found
        rw [List.drop_eq_getElem_cons inside, here'] at placed common
        cases placed with | cons first later =>
        refine follows_walk rfl ⟨rfl, rfl, rfl⟩ (follows_walk rfl ⟨rfl, rfl, rfl⟩ ?_)
        have stays := (here.own w.frames w.status { w.report with highlightLine := s.line }
          w.stepCount w.begun here.awake).withLine s.line w.begun
        exact follows_stepStatement sound frames first common.1 (.frame later common.2 leads rest)
          stays
  | turn turns body within rest =>
    exact follows_stepLoop sound frames turns body within rest here

end Stepwise
