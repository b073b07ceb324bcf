import Stepwise.Proofs.Agreement.Loops

/-!
The machine follows the walker through statements that are run to their end, given that calls of
functions of the program are followed.
-/
namespace Stepwise

open Machine (Keeps Reaches isHidden)

section Numbers

variable {code : Code} {scope : Scope}

theorem LimitAt.le {line : Option Int} {number base first start : Nat} {count : Expr}
    {limit : Instruction} (placed : LimitAt code scope line number base count first start limit) :
    number ≤ first := by
  cases placed <;> omega

mutual

/-- The numbers of hidden variables grow along the code. -/
theorem stmtAt_le : ∀ (s : Stmt) {loop : Option LoopTargets} {number base second next : Nat},
    StmtAt code scope loop number base s second next → number ≤ second
  | .expr _ _, _, _, _, _, _, placed => by cases placed; exact Nat.le_refl _
  | .assign _ _ _, _, _, _, _, _, placed => by cases placed; exact Nat.le_refl _
  | .update _ _ _ _, _, _, _, _, _, placed => by cases placed; exact Nat.le_refl _
  | .setIndex _ _ _ _, _, _, _, _, _, placed => by cases placed; exact Nat.le_refl _
  | .setMember _ _ _ _, _, _, _, _, _, placed => by cases placed; exact Nat.le_refl _
  | .branch _ _ body elifs otherwise, _, _, _, _, _, placed => by
    cases placed with | branch _ _ inner _ arms last =>
    exact Nat.le_trans (stmtsAt_le body inner)
      (Nat.le_trans (elifsAt_le elifs arms) (otherwiseAt_le otherwise last))
  | .loopTimes _ _ body, _, _, _, _, _, placed => by
    cases placed with | loopTimes limit _ inner _ =>
    exact Nat.le_trans limit.le (stmtsAt_le body inner)
  | .loopWhile _ _ body, _, _, _, _, _, placed => by
    cases placed with | loopWhile _ _ inner _ => exact stmtsAt_le body inner
  | .loopRange _ _ _ _ _ body, _, _, _, _, _, placed => by
    cases placed with | loopRange _ _ inner _ => exact Nat.le_of_succ_le (stmtsAt_le body inner)
  | .loopEach _ _ _ body, _, _, _, _, _, placed => by
    cases placed with | loopEach _ _ inner _ => exact Nat.le_of_succ_le (stmtsAt_le body inner)
  | .leave _, _, _, _, _, _, placed => by cases placed; exact Nat.le_refl _
  | .again _, _, _, _, _, _, placed => by cases placed; exact Nat.le_refl _
  | .pass _, _, _, _, _, _, placed => by cases placed; exact Nat.le_refl _
  | .define _, _, _, _, _, _, placed => nomatch placed
  | .defineClass _ _ _, _, _, _, _, _, placed => nomatch placed
  | .give _ _, _, _, _, _, _, placed => by cases placed; exact Nat.le_refl _
  | .alien _, _, _, _, _, _, placed => nomatch placed

theorem stmtsAt_le : ∀ (ss : List Stmt) {loop : Option LoopTargets} {number base second next : Nat},
    StmtsAt code scope loop number base ss second next → number ≤ second
  | [], _, _, _, _, _, placed => by cases placed; exact Nat.le_refl _
  | s :: ss, _, _, _, _, _, placed => by
    cases placed with | cons first rest =>
    exact Nat.le_trans (stmtAt_le s first) (stmtsAt_le ss rest)

theorem elifsAt_le : ∀ (es : List Elif) {loop : Option LoopTargets} {finish : Nat} {lastArm : Bool}
    {number base second next : Nat},
    ElifsAt code scope loop finish lastArm number base es second next → number ≤ second
  | [], _, _, _, _, _, _, _, placed => by cases placed; exact Nat.le_refl _
  | .mk _ _ body :: es, _, _, _, _, _, _, _, placed => by
    cases placed with | cons _ _ inner _ rest =>
    exact Nat.le_trans (stmtsAt_le body inner) (elifsAt_le es rest)

theorem otherwiseAt_le : ∀ (otherwise : Option (List Stmt)) {loop : Option LoopTargets}
    {number base second next : Nat},
    OtherwiseAt code scope loop number base otherwise second next → number ≤ second
  | none, _, _, _, _, _, placed => by cases placed; exact Nat.le_refl _
  | some body, _, _, _, _, _, placed => by
    cases placed with | present inner => exact stmtsAt_le body inner

end

end Numbers

variable {S : Setting} {height number pc : Nat} {stack : List Value} {w : Walker} {m m' : Machine}
  {line : Option Int} {invoke : Walker.Invoke} {loop : Option LoopTargets}

/-- The machine is about to return a value; more operands than it started from may lie below. -/
def Returns (S : Setting) (height : Nat) (stack : List Value) (v : Value) (w : Walker)
    (m : Machine) : Prop :=
  ∃ (pc : Nat) (line : Option Int) (junk : List Value), S.code.Has pc ⟨.ret, .null, line⟩ ∧
    At S height w m pc (v :: (junk ++ stack))

/-- Where the machine is when statements end: behind them, where their loop is left or goes on with
its next round, or at a return. -/
def Ends (S : Setting) (height : Nat) (loop : Option LoopTargets) (next : Nat)
    (stack : List Value) : Flow → Walker → Machine → Prop
  | .next, w, m => At S height w m next stack
  | .leave, w, m => ∃ targets, loop = some targets ∧ At S height w m targets.leave stack
  | .again, w, m => ∃ targets, loop = some targets ∧ At S height w m targets.again stack
  | .give v, w, m => Returns S height stack v w m

theorem Returns.deeper {v bottom : Value} (returns : Returns S height (bottom :: stack) v w m) :
    Returns S height stack v w m := by
  obtain ⟨pc, line, junk, has, here⟩ := returns
  exact ⟨pc, line, junk ++ [bottom], has, by simpa using here⟩

/-- How a loop ends: behind it, or at a return. -/
def Loops (S : Setting) (height next : Nat) (stack : List Value) : Flow → Walker → Machine → Prop
  | .next, w, m => At S height w m next stack
  | .give v, w, m => Returns S height stack v w m
  | _, _, _ => False

theorem Loops.ends {next : Nat} {flow : Flow} (loops : Loops S height next stack flow w m) :
    Ends S height loop next stack flow w m := by
  cases flow with
  | next => exact loops
  | give => exact loops
  | leave => exact loops.elim
  | again => exact loops.elim

section Rounds

variable {body : Walker.Walk Flow}

/-- The rounds of a counted loop that are left. -/
theorem tracks_runTimes {start again count : Nat} {limit : Instruction}
    (test : S.code.Holds start [⟨.push, .int 0, line⟩, ⟨.dup, .null, line⟩, limit,
      ⟨.gte, .null, line⟩, ⟨.jumpIf, .int (again + 3 : Nat), line⟩])
    (next : S.code.Holds again [⟨.push, .int 1, line⟩, ⟨.add, .null, line⟩,
      ⟨.jump, .int (start + 1 : Nat), line⟩, ⟨.pop, .null, line⟩])
    (round : ∀ {stack w m}, At S height w m (start + 5) stack → Tracks number body w m
      (Ends S height (some ⟨again + 3, again⟩) again stack)) (left : Nat) :
    ∀ (done : Nat) {w : Walker} {m : Machine}, done + left = count →
      Provides number (.int count) m limit → At S height w m (start + 1) (.int done :: stack) →
      Tracks number (Walker.runTimes body left) w m (Loops S height (again + 4) stack) := by
  induction left with
  | zero =>
    intro done w m total provides here
    refine (tracks_countTest done test provides here).first fun m _ here => ?_
    rw [if_pos (by omega)] at here
    exact (tracks_countLeave next here).first fun m _ here => tracks_pure here
  | succ left ih =>
    intro done w m total provides here
    refine (tracks_countTest done test provides here).first fun m kept here => ?_
    rw [if_neg (by omega)] at here
    have provides := provides.mono kept
    unfold Walker.runTimes
    refine (round here).bind fun flow w m kept ends => ?_
    have provides := provides.mono kept
    have onward {m : Machine} (provides : Provides number (.int count) m limit)
        (here : At S height w m again (.int done :: stack)) :
        Tracks number (Walker.runTimes body left) w m (Loops S height (again + 4) stack) := by
      refine (tracks_countAgain next here).first fun m kept here => ?_
      exact ih (done + 1) (by omega) (provides.mono kept) here
    cases flow with
    | next => exact onward provides ends
    | again =>
      obtain ⟨_, ⟨⟩, here⟩ := ends
      exact onward provides here
    | leave =>
      obtain ⟨_, ⟨⟩, here⟩ := ends
      exact (tracks_countLeave next here).first fun m _ here => tracks_pure here
    | give v => exact tracks_pure ends.deeper

/-- The rounds of a loop that are left. What the machine keeps for the loop stays as it is. -/
theorem tracks_runWhile {test : Walker.Walk Bool} {advance : Walker.Walk Unit}
    {start inside next : Nat} {targets : LoopTargets} (inv : Machine → Prop)
    (stable : ∀ {m m'}, m.Keeps number m' → inv m → inv m')
    (tests : ∀ {w m}, inv m → At S height w m start stack → Tracks number test w m
      fun holds w' m' => At S height w' m' (if holds then inside else targets.leave) stack)
    (round : ∀ {w m}, At S height w m inside stack →
      Tracks number body w m (Ends S height (some targets) next stack))
    (onward : ∀ {w m}, inv m → At S height w m next stack ∨ At S height w m targets.again stack →
      Tracks number advance w m (Rests S height start stack)) (rounds : Nat) :
    ∀ {w : Walker} {m : Machine}, inv m → At S height w m start stack →
      Tracks number (Walker.runWhile line test body advance rounds) w m
        (Loops S height targets.leave stack) := by
  induction rounds with
  | zero =>
    intro w m _ _
    unfold Walker.runWhile
    exact tracks_walk rfl (.refl _) (tracks_exhausted (Engine.isExhaustion_tooManySteps ..))
  | succ rounds ih =>
    intro w m holds here
    unfold Walker.runWhile
    refine (tests holds here).bind fun more w m kept here => ?_
    have holds := stable kept holds
    cases more with
    | false => exact tracks_pure here
    | true =>
      refine Tracks.bind (round here) fun flow w m kept ends => ?_
      have holds := stable kept holds
      have again {m : Machine} {w : Walker} (holds : inv m)
          (here : At S height w m next stack ∨ At S height w m targets.again stack) :
          Tracks number (do advance; Walker.runWhile line test body advance rounds) w m
            (Loops S height targets.leave stack) :=
        (onward holds here).bind fun _ w m kept here => ih (stable kept holds) here
      cases flow with
      | next => exact again holds (.inl ends)
      | again =>
        obtain ⟨_, ⟨⟩, here⟩ := ends
        exact again holds (.inr here)
      | leave =>
        obtain ⟨_, ⟨⟩, here⟩ := ends
        exact tracks_pure here
      | give v => exact tracks_pure ends

end Rounds

/-- An arm of a branch that is run to its end goes on behind the branch. -/
theorem Tracks.exit {x : Walker.Walk Flow} {inner finish skip : Nat} {last : Bool}
    (tracks : Tracks number x w m (Ends S height loop inner stack))
    (exit : ExitAt S.code line inner finish skip last) :
    Tracks number x w m (Ends S height loop finish stack) := by
  rw [← bind_pure x]
  refine tracks.bind fun flow w m _ ends => ?_
  cases flow with
  | next =>
    cases last with
    | true =>
      obtain ⟨rfl, rfl⟩ := exit
      exact tracks_pure ends
    | false => exact (tracks_jump ends exit.2).first fun m _ here => tracks_pure here
  | leave => exact tracks_pure ends
  | again => exact tracks_pure ends
  | give => exact tracks_pure ends

theorem walk_name (name : Name) :
    (liftM (Constant.scalar name).name : Walker.Walk Name) = pure name := rfl

theorem walk_discard {α : Type} (x : Walker.Walk α) : discard x = (do let _ ← x; return) := by
  rw [discard, map_const, Function.comp_apply, map_eq_pure_bind]

/-- Statements that do one thing and go on with the next one. -/
def Stmt.IsStraight : Stmt → Prop
  | .expr _ _ | .assign _ _ _ | .update _ _ _ _ | .setIndex _ _ _ _ | .setMember _ _ _ _
  | .pass _ => True
  | _ => False

theorem Tracks.ends {x : Walker.Walk Flow} {next : Nat}
    (tracks : Tracks number x w m fun flow w' m' => flow = .next ∧ At S height w' m' next stack) :
    Tracks number x w m (Ends S height loop next stack) := by
  refine tracks.mono fun flow w m _ ends => ?_
  obtain ⟨rfl, here⟩ := ends
  exact here

section

variable (sound : S.Sound) (serves : Serves S invoke height)
include sound serves

theorem tracks_straight {s : Stmt} {inLoop : Bool} {base second next : Nat}
    (placed : StmtAt S.code S.scope loop number base s second next) (straight : s.IsStraight)
    (common : s.Every Expr.Common Stmt.Common) (here : At S height w m base stack) :
    Tracks number (Walker.exec invoke inLoop s) w m fun flow w' m' =>
      flow = .next ∧ At S height w' m' next stack := by
  cases s with
  | expr _ value =>
    cases placed with | expr inner pop =>
    simp only [Walker.exec]
    refine tracks_begin here fun w here _ => ?_
    refine (tracks_eval sound serves value common.2 inner here).bind fun v w m _ here => ?_
    exact (tracks_pop here pop).first fun m _ here => tracks_pure ⟨rfl, here⟩
  | assign _ _ value =>
    cases placed with | assign inner store =>
    obtain ⟨⟨s, rfl, -⟩, shown⟩ := common.1
    simp only [Walker.exec]
    refine tracks_begin here fun w here _ => ?_
    refine (tracks_eval sound serves value common.2 inner here).bind fun v w m _ here => ?_
    refine tracks_walk (a := .text s) rfl (.refl _) ?_
    refine (tracks_store here (shown _ rfl) store).bind fun _ w m _ stored => ?_
    exact tracks_pure ⟨rfl, stored.1⟩
  | update _ _ op value =>
    cases placed with | @update _ _ _ _ _ opcode _ _ s known load inner has store =>
    simp only [Walker.exec]
    refine tracks_begin here fun w here _ => ?_
    refine tracks_walk (a := .text s) rfl (.refl _) ?_
    refine (tracks_load here (common.1.2 _ rfl) load).bind fun old w m _ here => ?_
    refine (tracks_eval sound serves value common.2 inner here).bind fun v w m _ here => ?_
    obtain ⟨base, same, binary⟩ : ∃ base, op.base? = some base ∧
        Code.binaryOpcode? base = some opcode := by
      cases op <;> cases known <;> exact ⟨_, rfl, rfl⟩
    simp only [same]
    rw [← bind_assoc]
    refine (tracks_binary _ here binary has).bind fun v w m _ here => ?_
    refine (tracks_store here (common.1.2 _ rfl) store).bind fun _ w m _ stored => ?_
    exact tracks_pure ⟨rfl, stored.1⟩
  | setIndex _ object position value =>
    cases placed with | setIndex first second third has =>
    simp only [Walker.exec]
    refine tracks_begin here fun w here _ => ?_
    refine (tracks_eval sound serves object common.2.1 first here).bind fun a w m _ here => ?_
    refine (tracks_eval sound serves position common.2.2.1 second here).bind fun b w m _ here => ?_
    refine (tracks_eval sound serves value common.2.2.2 third here).bind fun c w m _ here => ?_
    have stored : Tracks number _ _ _ _ := tracks_setIndex here has
    have tracks : Tracks number _ w m fun (flow : Flow) w' m' =>
        flow = .next ∧ At S height w' m' _ stack :=
      stored.bind (f := fun _ => pure Flow.next) fun _ _ _ _ here => tracks_pure ⟨rfl, here⟩
    simpa only [bind_assoc] using tracks
  | setMember _ object _ value =>
    cases placed with | setMember first push second has =>
    obtain ⟨s, rfl, -⟩ := common.1.1
    simp only [Walker.exec]
    refine tracks_begin here fun w here _ => ?_
    refine (tracks_eval sound serves object common.2.1 first here).bind fun a w m _ here => ?_
    refine (tracks_push here push).first fun m _ here => ?_
    refine (tracks_eval sound serves value common.2.2 second here).bind fun c w m _ here => ?_
    refine tracks_congr (bind_memberName a s (fun heap name => do
      Walker.setHeap (← Value.setMember heap a name c)
      return Flow.next) w) ?_
    have stored : Tracks number _ _ _ _ := tracks_setMember here has
    have tracks : Tracks number _ w m fun (flow : Flow) w' m' =>
        flow = .next ∧ At S height w' m' _ stack :=
      stored.bind (f := fun _ => pure Flow.next) fun _ _ _ _ here => tracks_pure ⟨rfl, here⟩
    simpa only [bind_assoc] using tracks
  | pass _ =>
    cases placed with | pass nop =>
    simp only [Walker.exec]
    refine tracks_begin here fun w here _ => ?_
    exact (tracks_nop here nop).first fun m _ here => tracks_pure ⟨rfl, here⟩
  | _ => exact straight.elim

omit sound serves

mutual

theorem tracks_exec (sound : S.Sound) (serves : Serves S invoke height) : ∀ (s : Stmt)
    {loop : Option LoopTargets} {number base second next : Nat} {stack : List Value} {w : Walker}
    {m : Machine},
    StmtAt S.code S.scope loop number base s second next → s.Every Expr.Common Stmt.Common →
    At S height w m base stack →
    Tracks number (Walker.exec invoke loop.isSome s) w m (Ends S height loop next stack)
  | .expr _ _, _, _, _, _, _, _, _, _, placed, common, here =>
    (tracks_straight sound serves placed trivial common here).ends
  | .assign _ _ _, _, _, _, _, _, _, _, _, placed, common, here =>
    (tracks_straight sound serves placed trivial common here).ends
  | .update _ _ _ _, _, _, _, _, _, _, _, _, placed, common, here =>
    (tracks_straight sound serves placed trivial common here).ends
  | .setIndex _ _ _ _, _, _, _, _, _, _, _, _, placed, common, here =>
    (tracks_straight sound serves placed trivial common here).ends
  | .setMember _ _ _ _, _, _, _, _, _, _, _, _, placed, common, here =>
    (tracks_straight sound serves placed trivial common here).ends
  | .branch _ test body elifs otherwise, _, _, _, _, _, _, _, _, placed, common, here => by
    cases placed with | branch tested jumps inner exit arms last =>
    simp only [Walker.exec]
    refine tracks_begin here fun w here _ => ?_
    refine (tracks_test sound serves tested common.2.1 jumps here).bind fun holds w m _ here => ?_
    cases holds with
    | true => exact (tracks_block sound serves body inner common.2.2.1 here).exit exit
    | false =>
      refine (tracks_elifs sound serves elifs arms common.2.2.2.1 here fun here => ?_).weaken
        (stmtsAt_le body inner)
      exact tracks_otherwise sound serves otherwise last common.2.2.2.2 here
  | .loopTimes _ count body, _, _, _, _, _, _, _, _, placed, common, here => by
    cases placed with | loopTimes limit test inner next =>
    simp only [Walker.exec]
    refine tracks_begin here fun w here _ => ?_
    refine (tracks_limit sound serves limit common.2.1 here).bind fun n w m _ counted => ?_
    obtain ⟨here, provides⟩ := counted
    refine Tracks.weaken ?_ limit.le
    refine (tracks_push here (Code.holds_cons.mp test).1).first fun m kept here => ?_
    have rounds := tracks_runTimes test next
      (fun here => tracks_block sound serves body inner common.2.2 here) n 0 (Nat.zero_add _)
      (provides.mono kept) here
    exact Tracks.mono rounds fun flow w m _ loops => loops.ends
  | .loopWhile _ test body, _, _, _, _, _, _, _, _, placed, common, here => by
    cases placed with | loopWhile tested jumps inner back =>
    simp only [Walker.exec]
    refine tracks_begin here fun w here _ => tracks_walk rfl (.refl _) ?_
    refine Tracks.mono (tracks_runWhile (fun _ => True) (fun _ _ => trivial)
      (fun _ here => tracks_test sound serves tested common.2.1 jumps here)
      (fun here => tracks_block sound serves body inner common.2.2 here) (fun _ here => ?_) _ trivial
      here) fun flow w m _ loops => loops.ends
    cases here with
    | inl here => exact tracks_jump here back
    | inr here => exact tracks_pure here
  | .loopRange pos var start stop step body, loop, number, _, _, finish, stack, _, _, placed,
      common, here => by
    cases placed with | @loopRange _ _ _ _ _ _ _ _ _ _ _ _ _ _ again setup test inner next =>
    obtain ⟨⟨s, rfl, -⟩, shown⟩ := common.1
    simp only [Walker.exec]
    refine tracks_begin here fun w here _ => ?_
    have tracks : Tracks number _ w _ (Ends S height loop (again + 5) stack) :=
      (tracks_bounds sound serves (shown _ rfl) setup common.2.1 common.2.2.1 common.2.2.2.1
      here).bind (f := fun bounds : Value × Value × Value => do
        Walker.runWhile pos.line (do Walker.inRange (← Walker.lookup s) bounds.2.1 bounds.2.2)
          (Walker.execBlock invoke true body) (discard (Walker.advanceRange s bounds.2.2))
          ((← get).roundLimit body)) fun bounds w m _ bound => ?_
    · simpa only [bind_assoc, pure_bind, walk_name] using tracks
    obtain ⟨here, -, range⟩ := bound
    refine tracks_walk rfl (.refl _) (Tracks.weaken ?_ (Nat.le_succ _))
    refine Tracks.mono (tracks_runWhile (fun m => RangeKept _ _ _ m _ _ _ _)
      (fun kept range => range.mono kept)
      (fun range here => tracks_rangeTest (shown _ rfl) test range here)
      (fun here => tracks_block sound serves body inner common.2.2.2.2 here) (fun range here => ?_) _
      range here) fun flow w m _ loops => loops.ends
    have here := here.elim id id
    rw [walk_discard]
    exact (tracks_rangeAgain (shown _ rfl) next range here).bind fun _ w m _ again =>
      tracks_pure again.1
  | .loopEach _ _ _ _, _, _, _, _, _, _, _, _, _, common, _ => common.1.2.elim
  | .leave _, _, _, _, _, _, _, _, _, placed, _, here => by
    cases placed with | leave jump =>
    simp only [Walker.exec]
    refine tracks_begin here fun w here _ => ?_
    exact (tracks_jump here jump).first fun m _ here => tracks_pure ⟨_, rfl, here⟩
  | .again _, _, _, _, _, _, _, _, _, placed, _, here => by
    cases placed with | again jump =>
    simp only [Walker.exec]
    refine tracks_begin here fun w here _ => ?_
    exact (tracks_jump here jump).first fun m _ here => tracks_pure ⟨_, rfl, here⟩
  | .pass _, _, _, _, _, _, _, _, _, placed, common, here =>
    (tracks_straight sound serves placed trivial common here).ends
  | .define _, _, _, _, _, _, _, _, _, placed, _, _ => nomatch placed
  | .defineClass _ _ _, _, _, _, _, _, _, _, _, placed, _, _ => nomatch placed
  | .give _ value, _, _, _, _, _, _, _, _, placed, common, here => by
    cases placed with | give inner ret =>
    simp only [Walker.exec]
    refine tracks_begin here fun w here _ => ?_
    refine (tracks_evalOption sound serves value common.2 inner here).bind fun v w m _ here => ?_
    exact tracks_pure ⟨_, _, [], ret, here⟩
  | .alien _, _, _, _, _, _, _, _, _, placed, _, _ => nomatch placed

theorem tracks_block (sound : S.Sound) (serves : Serves S invoke height) : ∀ (ss : List Stmt)
    {loop : Option LoopTargets} {number base second next : Nat} {stack : List Value} {w : Walker}
    {m : Machine},
    StmtsAt S.code S.scope loop number base ss second next →
    Stmt.EveryIn Expr.Common Stmt.Common ss → At S height w m base stack →
    Tracks number (Walker.execBlock invoke loop.isSome ss) w m (Ends S height loop next stack)
  | [], _, _, _, _, _, _, _, _, placed, _, here => by
    cases placed
    simp only [Walker.execBlock]
    exact tracks_pure here
  | s :: ss, _, _, _, _, _, _, _, _, placed, common, here => by
    cases placed with | cons first rest =>
    simp only [Walker.execBlock]
    refine (tracks_exec sound serves s first common.1 here).bind fun flow w m _ ends => ?_
    cases flow with
    | next => exact (tracks_block sound serves ss rest common.2 ends).weaken (stmtAt_le s first)
    | leave => exact tracks_pure ends
    | again => exact tracks_pure ends
    | give => exact tracks_pure ends

theorem tracks_elifs (sound : S.Sound) (serves : Serves S invoke height) : ∀ (es : List Elif)
    {loop : Option LoopTargets} {finish : Nat} {lastArm : Bool} {number base second next : Nat}
    {stack : List Value} {w : Walker} {m : Machine} {lastResort : Walker.Walk Flow},
    ElifsAt S.code S.scope loop finish lastArm number base es second next →
    Stmt.EveryElif Expr.Common Stmt.Common es → At S height w m base stack →
    (∀ {w m}, At S height w m next stack →
      Tracks second lastResort w m (Ends S height loop finish stack)) →
    Tracks number (Walker.execElifs invoke loop.isSome lastResort es) w m
      (Ends S height loop finish stack)
  | [], _, _, _, _, _, _, _, _, _, _, _, placed, _, here, last => by
    cases placed
    simp only [Walker.execElifs]
    exact last here
  | .mk _ test body :: es, _, _, _, _, _, _, _, _, _, _, _, placed, common, here, last => by
    cases placed with | cons tested jumps inner exit rest =>
    simp only [Walker.execElifs, Walker.execElif]
    refine (tracks_test sound serves tested common.1.1 jumps here).bind fun holds w m _ here => ?_
    cases holds with
    | true => exact (tracks_block sound serves body inner common.1.2 here).exit exit
    | false =>
      exact (tracks_elifs sound serves es rest common.2 here last).weaken (stmtsAt_le body inner)

theorem tracks_otherwise (sound : S.Sound) (serves : Serves S invoke height) :
    ∀ (otherwise : Option (List Stmt)) {loop : Option LoopTargets} {number base second next : Nat}
    {stack : List Value} {w : Walker} {m : Machine},
    OtherwiseAt S.code S.scope loop number base otherwise second next →
    Stmt.EveryOtherwise Expr.Common Stmt.Common otherwise → At S height w m base stack →
    Tracks number (Walker.execOtherwise invoke loop.isSome otherwise) w m
      (Ends S height loop next stack)
  | none, _, _, _, _, _, _, _, _, placed, _, here => by
    cases placed
    simp only [Walker.execOtherwise]
    exact tracks_pure here
  | some body, _, _, _, _, _, _, _, _, placed, common, here => by
    cases placed with | present inner =>
    simp only [Walker.execOtherwise]
    exact tracks_block sound serves body inner common here

end

end

end Stepwise
