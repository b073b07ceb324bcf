import Stepwise.Proofs.Agreement.Expressions

/-!
The tests of branches and loops: what decides whether a round is run, and what is done between
rounds. The machine keeps the bounds of a loop in hidden variables, the walker keeps them for
itself.
-/
namespace Stepwise

open Machine (Keeps Reaches isHidden)

variable {S : Setting} {height number pc : Nat} {stack : List Value} {w : Walker} {m m' : Machine}
  {line : Option Int} {invoke : Walker.Invoke} {α : Type}

/-- An instruction that leaves a value: the value is its operand, or that of a hidden variable of a
loop with a smaller number. -/
inductive Provides (number : Nat) (v : Value) (m : Machine) : Instruction → Prop where
  | literal {line : Option Int} : Provides number v m ⟨.push, v, line⟩
  | kept (bound : String) {k : Nat} {line : Option Int} : bound ∈ loopBounds → k < number →
      m.var (loopVar bound k) = some v →
      Provides number v m ⟨.load, (loopVar bound k).toValue, line⟩

theorem Provides.mono {v : Value} {i : Instruction} (provides : Provides number v m i)
    (kept : m.Keeps number m') : Provides number v m' i := by
  cases provides with
  | literal => exact .literal
  | kept bound known less holds => exact .kept bound known less ((kept.var known less).trans holds)

theorem tracks_provided {v : Value} {i : Instruction} {n : Nat} (provides : Provides n v m i)
    (here : At S height w m pc stack) (has : S.code.Has pc i) :
    Tracks number (pure v) w m (Pushes S height (pc + 1) stack) := by
  cases provides with
  | literal => exact tracks_push here has
  | kept _ _ _ holds => exact tracks_loadHidden here holds has

/-- What a walker does for itself at the beginning of a statement. -/
theorem tracks_begin {f : Unit → Walker.Walk α} {post : α → Walker → Machine → Prop}
    (here : At S height w m pc stack)
    (rest : ∀ w', At S height w' m pc stack → w.maxSteps = w'.maxSteps →
      Tracks number (f ()) w' m post) :
    Tracks number (Walker.begin line >>= f) w m post := by
  let w' : Walker := { w with line, begun := w.begun + 1 }
  have begins : Walker.begin line w =
      if w'.maxSteps < w'.begun then (.error (.fault (w'.tooManySteps line)), w')
      else (.ok (), w') := by
    unfold Walker.begin
    simp only [Act.bind_apply, Act.modify_apply, Act.get_apply]
    by_cases exceeds : w'.maxSteps < w'.begun
    · rw [if_pos exceeds, if_pos exceeds]
      rfl
    · rw [if_neg exceeds, if_neg exceeds]
      rfl
  split at begins
  next =>
    unfold Tracks Simulates
    rw [Act.bind_error begins]
    exact .inl (Engine.isExhaustion_tooManySteps ..)
  next =>
    exact tracks_walk begins ⟨rfl, rfl, rfl, rfl⟩ (rest w' (here.withLine line (w.begun + 1)) rfl)

/-- The test of a branch or a round, with the jump behind it. -/
theorem tracks_test (sound : S.Sound) (serves : Serves S invoke height) {e : Expr}
    {base mid skip : Nat}
    (placed : ExprAt S.code S.scope line base e mid) (common : e.Every Expr.Common)
    (jumps : S.code.Has mid ⟨.jumpIfNot, .int skip, line⟩) (here : At S height w m base stack) :
    Tracks number (Walker.test invoke e) w m fun holds w' m' =>
      At S height w' m' (if holds then mid + 1 else skip) stack := by
  unfold Walker.test
  refine (tracks_eval sound serves e common placed here).bind fun v w m _ here => ?_
  refine tracks_walk rfl (.refl _) ((tracks_jumpIfNot here jumps).first fun m _ here => ?_)
  exact tracks_pure here

section Counted

theorem atLeast_int (heap : Heap) (a b : Int) :
    Value.binary .ge heap (.int a) (.int b) = .ok (.bool (decide (b ≤ a))) := by
  have order : Number.le (.int b) (.int a) = decide (b ≤ a) := by
    rw [Bool.eq_iff_iff, decide_eq_true_eq]
    simp only [Number.le, Number.compare?, compare, compareOfLessAndEq]
    split
    · simp
      omega
    · split <;> simp <;> omega
  rw [← order]
  rfl

theorem tracks_repeatCount {v operand : Value} (here : At S height w m pc (v :: stack))
    (has : S.code.Has pc ⟨.repeatCount, operand, line⟩) :
    Tracks number (do Value.repeatCount (← Walker.getHeap) v) w m fun n =>
      Pushes S height (pc + 1) stack (.int n) := by
  refine here.perform has fun during => ?_
  refine carries_pop (g := fun v => do
    Machine.push (.int (← Value.repeatCount (← Machine.getHeap) v))) during fun during => ?_
  refine carries_heap during ?_
  exact carries_value during.shares fun n _ => carries_push during fun _ => id

/-- The count of a loop, and where the machine keeps it. -/
theorem tracks_limit (sound : S.Sound) (serves : Serves S invoke height) {count : Expr}
    {base first start : Nat} {limit : Instruction}
    (placed : LimitAt S.code S.scope line number base count first start limit)
    (common : count.Every Expr.Common) (here : At S height w m base stack) :
    Tracks number (Walker.countOf invoke line count) w m fun n w' m' =>
      At S height w' m' start stack ∧ Provides first (.int n) m' limit := by
  cases placed with
  | @literal n known =>
    have walked : Walker.countOf invoke line count w = (.ok n, { w with line }) := by
      unfold Expr.count? at known
      split at known
      next x =>
        split at known
        next whole =>
          cases known
          unfold Walker.countOf
          simp only [Walker.eval, pure_bind]
          show (Value.repeatCount w.heap (.number x), _) = _
          rw [Value.repeatCount, whole]
        next => cases known
      next => cases known
    exact tracks_alone walked ⟨rfl, rfl, rfl, rfl⟩ ⟨here.withLine line w.begun, .literal⟩
  | computed _ inner counts stores =>
    unfold Walker.countOf
    refine (tracks_eval sound serves count common inner here).bind fun v w m _ here => ?_
    refine tracks_walk rfl ⟨rfl, rfl, rfl, rfl⟩ ?_
    have here := here.withLine line w.begun
    rw [← bind_pure (Walker.getHeap >>= _)]
    refine (tracks_repeatCount here counts).bind fun n w m _ here => ?_
    refine (tracks_hide here "count_" (.head _) (Nat.le_refl number) stores).first
      fun m _ stored => ?_
    refine tracks_pure ⟨stored.1, ?_⟩
    refine .kept "count_" (.head _) (Nat.lt_succ_self number) ?_
    rw [stored.2, if_pos rfl]

/-- Whether there is another round of a counted loop. -/
theorem tracks_countTest {start again : Nat} {limit : Instruction} (done : Nat) {count : Nat}
    (test : S.code.Holds start [⟨.push, .int 0, line⟩, ⟨.dup, .null, line⟩, limit,
      ⟨.gte, .null, line⟩, ⟨.jumpIf, .int (again + 3 : Nat), line⟩])
    (provides : Provides number (.int count) m limit)
    (here : At S height w m (start + 1) (.int done :: stack)) :
    Tracks number (pure ()) w m (Rests S height (if count ≤ done then again + 3 else start + 5)
      (.int done :: stack)) := by
  simp only [Code.holds_cons] at test
  obtain ⟨-, dup, limits, compares, jumps, -⟩ := test
  refine (tracks_dup here dup).first fun m kept here => ?_
  refine (tracks_provided (provides.mono kept) here limits).first fun m _ here => ?_
  have compared : Tracks number _ _ _ _ := tracks_binary .ge here rfl compares
  refine (tracks_congr (x := pure (Value.bool (decide ((count : Int) ≤ done)))) ?_ compared).first
    fun m _ here => ?_
  · show _ = (Value.binary .ge w.heap (.int done) (.int count), w)
    rw [atLeast_int]
    rfl
  · refine (tracks_jumpIf here jumps).first fun m _ here => tracks_pure ?_
    simpa [Value.isTruthy] using here

/-- The step from one round of a counted loop to the next. -/
theorem tracks_countAgain {start again : Nat} {done : Nat}
    (next : S.code.Holds again [⟨.push, .int 1, line⟩, ⟨.add, .null, line⟩,
      ⟨.jump, .int (start + 1 : Nat), line⟩, ⟨.pop, .null, line⟩])
    (here : At S height w m again (.int done :: stack)) :
    Tracks number (pure ()) w m (Rests S height (start + 1) (.int (done + 1 : Nat) :: stack)) := by
  simp only [Code.holds_cons] at next
  obtain ⟨one, adds, back, -⟩ := next
  refine (tracks_push here one).first fun m _ here => ?_
  have added : Tracks number _ _ _ _ := tracks_binary .add here rfl adds
  refine (tracks_congr (x := pure (Value.int (done + 1 : Nat))) rfl added).first fun m _ here => ?_
  exact tracks_jump here back

/-- The way out of a counted loop. -/
theorem tracks_countLeave {start again : Nat} {v : Value}
    (next : S.code.Holds again [⟨.push, .int 1, line⟩, ⟨.add, .null, line⟩,
      ⟨.jump, .int (start + 1 : Nat), line⟩, ⟨.pop, .null, line⟩])
    (here : At S height w m (again + 3) (v :: stack)) :
    Tracks number (pure ()) w m (Rests S height (again + 4) stack) := by
  simp only [Code.holds_cons] at next
  obtain ⟨-, -, -, pop, -⟩ := next
  exact tracks_pop here pop

end Counted

section Ranges

/-- What the machine keeps of the bounds of a range: the end, and a step that is not written down
as a number. -/
structure RangeKept (number : Nat) (stop step : Value) (m : Machine) (line : Option Int)
    (stopName : String) (known : Number ⊕ String) (pushStep : Instruction) : Prop where
  stop : Provides number stop m ⟨.load, .text stopName, line⟩
  push : Provides number step m pushStep
  step : ∃ n, step = .number n ∧ match known with
    | .inl n' => n' = n
    | .inr stepName => Provides number step m ⟨.load, .text stepName, line⟩

theorem RangeKept.mono {stop step : Value} {stopName : String} {known : Number ⊕ String}
    {pushStep : Instruction} (range : RangeKept number stop step m line stopName known pushStep)
    (kept : m.Keeps number m') : RangeKept number stop step m' line stopName known pushStep where
  stop := range.stop.mono kept
  push := range.push.mono kept
  step := by
    obtain ⟨n, same, how⟩ := range.step
    refine ⟨n, same, ?_⟩
    cases known with
    | inl => exact how
    | inr => exact Provides.mono how kept

theorem tracks_rangeCheck {start stop step operand : Value}
    (here : At S height w m pc (step :: stop :: start :: stack))
    (has : S.code.Has pc ⟨.rangeCheck, operand, line⟩) :
    Tracks number (liftM (Value.checkRange start stop step)) w m fun _ w' m' =>
      At S height w' m' (pc + 1) (step :: stop :: start :: stack) ∧
        Value.checkRange start stop step = .ok () := by
  refine here.perform has fun during => ?_
  have during : During S height w _ (pc + 1) ([start, stop, step].reverse ++ stack) := during
  unfold Machine.execute
  refine carries_take during rfl fun during => ?_
  refine carries_value during.shares fun _ checked => ?_
  rw [← bind_pure (Machine.pushAll _)]
  refine carries_pushAll during fun during => ?_
  exact carries_done rfl during.going (.refl _) ⟨during.toAt, checked⟩

theorem number_of_checkRange {start stop step : Value}
    (checked : Value.checkRange start stop step = .ok ()) : ∃ n, step = .number n := by
  unfold Value.checkRange at checked
  split at checked
  next n => exact ⟨n, rfl⟩
  next => cases checked

/-- The step of a range, which is one unless it is given. -/
def stepOf (invoke : Walker.Invoke) : Option Expr → Walker.Walk Value
  | none => pure (.int 1)
  | some e => Walker.eval invoke e

theorem boundsOf_eq (line : Option Int) (first last : Expr) (step : Option Expr) :
    Walker.boundsOf invoke line first last step = (do
      let first ← Walker.eval invoke first
      let last ← Walker.eval invoke last
      let step ← stepOf invoke step
      Walker.setLine line
      Value.checkRange first last step
      return (first, last, step)) := by
  cases step <;> rfl

/-- A step that is known before the loop runs. -/
theorem stepOf_known (invoke : Walker.Invoke) {step : Option Expr} {v : Value}
    (known : RangeStep.of step = .known v)
    (common : Expr.EveryBound Expr.Common step) (w : Walker) :
    stepOf invoke step w = (.ok v, w) ∧ ∃ n, v = .number n := by
  unfold RangeStep.of at known
  split at known
  next =>
    cases known
    exact ⟨rfl, _, rfl⟩
  next c =>
    obtain ⟨n, rfl⟩ : ∃ n, c = .scalar (.number n) := common.1
    cases known
    exact ⟨by simp only [stepOf, Walker.eval]; rfl, n, rfl⟩
  next c =>
    obtain ⟨n, rfl⟩ : ∃ n, c = .scalar (.number n) := common.2.1
    cases known
    exact ⟨by simp only [stepOf, Walker.eval]; rfl, _, rfl⟩
  next => cases known

theorem lookup_store (name : Name) (v : Value) (w : Walker) :
    Walker.lookup name (Walker.store name v w).2 = (.ok v, (Walker.store name v w).2) := by
  simp only [Walker.lookup, Walker.store, Act.bind_apply, Act.get_apply, Act.modify_apply]
  cases locals : w.locals with
  | none => 
    simp only [Option.bind_none, Option.none_or, Engine.setGlobal, Bindings.get?_put_same]
    rfl
  | some bindings =>
    simp only [Option.bind_some, Bindings.get?_put_same, Option.some_or]
    rfl

/-- The variable of a range loop is bound. -/
theorem tracks_bind {var : String} {v : Value} (here : At S height w m pc (v :: stack))
    (shown : isHidden (.text var) = false) (has : S.code.Has pc ⟨.store, .text var, line⟩) :
    Tracks number (Walker.store var v) w m fun _ w' m' => At S height w' m' (pc + 1) stack ∧
      Walker.lookup var w' = (.ok v, w') ∧
      ∀ other : Name, isHidden other = true → m'.var other = m.var other := by
  have stored : Walker.store var v w = (.ok (), (Walker.store var v w).2) := rfl
  have tracks : Tracks number _ _ _ _ := tracks_store here shown has
  unfold Tracks Simulates at tracks ⊢
  rw [stored] at tracks ⊢
  exact tracks.mono fun m' ⟨⟨here, same⟩, kept, steady⟩ =>
    ⟨⟨here, lookup_store .., same⟩, kept, steady⟩

/-- The bounds of a range loop, up to the binding of its variable. -/
theorem tracks_bounds (sound : S.Sound) (serves : Serves S invoke height) {first last : Expr}
    {step : Option Expr} {var : String} (shown : isHidden (.text var) = false) {base start : Nat}
    {stopName : String} {known : Number ⊕ String} {pushStep : Instruction}
    (placed : RangeAt S.code S.scope line number base (.scalar (.text var)) first last step start
      stopName known pushStep)
    (commonFirst : first.Every Expr.Common) (commonLast : last.Every Expr.Common)
    (commonStep : Expr.EveryBound Expr.Common step) (here : At S height w m base stack) :
    Tracks number (do
        let bounds ← Walker.boundsOf invoke line first last step
        Walker.store var bounds.1
        return bounds) w m fun bounds w' m' => At S height w' m' start stack ∧
      Walker.lookup var w' = (.ok bounds.1, w') ∧
      RangeKept (number + 1) bounds.2.1 bounds.2.2 m' line stopName known pushStep := by
  rw [boundsOf_eq]
  simp only [bind_assoc, pure_bind]
  cases placed with
  | known of weight positive starts stops setup =>
    simp only [Code.holds_cons] at setup
    obtain ⟨pushes, checks, pops, hides, stores, -⟩ := setup
    refine (tracks_eval sound serves first commonFirst starts here).bind fun a w m _ here => ?_
    refine (tracks_eval sound serves last commonLast stops here).bind fun b w m _ here => ?_
    obtain ⟨stepped, n, rfl⟩ := stepOf_known invoke of commonStep w
    refine tracks_walk stepped (.refl _) (tracks_walk rfl ⟨rfl, rfl, rfl, rfl⟩ ?_)
    have here := here.withLine line w.begun
    refine (tracks_push here pushes).first fun m _ here => ?_
    refine (tracks_rangeCheck here checks).bind fun _ w m _ checked => ?_
    refine (tracks_pop checked.1 pops).first fun m _ here => ?_
    refine (tracks_hide here "end_" (by simp [loopBounds]) (Nat.le_refl number) hides).first
      fun m _ stored => ?_
    refine (tracks_bind stored.1 shown stores).bind fun _ w m' _ bound =>
      tracks_pure ⟨bound.1, bound.2.1, ?_⟩
    refine ⟨.kept "end_" (by simp [loopBounds]) (Nat.lt_succ_self number) ?_, .literal,
      n, rfl, ?_⟩
    · rw [bound.2.2 _ (Machine.isHidden_loopVar ..), stored.2, if_pos rfl]
    · cases weight
      rfl
  | computed of starts stops steps setup =>
    simp only [Code.holds_cons] at setup
    obtain ⟨checks, hidesStep, hidesStop, stores, -⟩ := setup
    obtain ⟨e, rfl⟩ : ∃ e, step = some e := by
      cases step with
      | none => cases of
      | some e => exact ⟨e, rfl⟩
    cases steps with | present steps =>
    refine (tracks_eval sound serves first commonFirst starts here).bind fun a w m _ here => ?_
    refine (tracks_eval sound serves last commonLast stops here).bind fun b w m _ here => ?_
    refine (tracks_eval sound serves e commonStep steps here).bind fun c w m _ here => ?_
    refine tracks_walk rfl ⟨rfl, rfl, rfl, rfl⟩ ?_
    have here := here.withLine line w.begun
    refine (tracks_rangeCheck here checks).bind fun _ w m _ checked => ?_
    obtain ⟨n, rfl⟩ := number_of_checkRange checked.2
    refine (tracks_hide checked.1 "step_" (by simp [loopBounds]) (Nat.le_refl number)
      hidesStep).first fun m _ step => ?_
    refine (tracks_hide step.1 "end_" (by simp [loopBounds]) (Nat.le_refl number)
      hidesStop).first fun m' _ stop => ?_
    refine (tracks_bind stop.1 shown stores).bind fun _ w m'' _ bound =>
      tracks_pure ⟨bound.1, bound.2.1, ?_⟩
    have ends : m''.var (loopVar "end_" number) = some b := by
      rw [bound.2.2 _ (Machine.isHidden_loopVar ..), stop.2, if_pos rfl]
    have apart : (loopVar "step_" number).key ≠ (loopVar "end_" number).key := fun same => by
      have := (loopVar_inj (by simp [loopBounds]) (by simp [loopBounds]) same).1
      simp at this
    have advances : m''.var (loopVar "step_" number) = some (.number n) := by
      rw [bound.2.2 _ (Machine.isHidden_loopVar ..), stop.2, if_neg apart, step.2, if_pos rfl]
    have load {line : Option Int} : Provides (number + 1) (.number n) m''
        ⟨.load, (loopVar "step_" number).toValue, line⟩ :=
      .kept "step_" (by simp [loopBounds]) (Nat.lt_succ_self number) advances
    exact ⟨.kept "end_" (by simp [loopBounds]) (Nat.lt_succ_self number) ends, load,
      n, rfl, load⟩

/-- The comparison of the variable of a range loop with the end. -/
theorem inRange_eq (v stop : Value) (n : Number) : Walker.inRange v stop (.number n) = (do
    let result ← (do
      Value.binary (if Number.lt (.int 0) n then .lt else .gt) (← Walker.getHeap) v stop)
    return result.isTruthy (← Walker.getHeap)) := by
  funext w
  have heap : Walker.getHeap w = (.ok w.heap, w) := rfl
  simp only [Walker.inRange, bind_assoc, Act.bind_ok heap]
  have alike (e : Except Failure Value) :
      (liftM e >>= fun result => pure (result.isTruthy w.heap) : Walker.Walk Bool) w =
        (do return (← liftM e).isTruthy (← Walker.getHeap)) w := by
    cases e <;> rfl
  cases Number.lt (.int 0) n
  · exact alike (Value.greaterThan w.heap v stop)
  · exact alike (Value.lessThan w.heap v stop)

/-- The variable and the end of a range loop are compared. -/
theorem tracks_compare {var stopName : String} {stop : Value} {opcode : Opcode}
    {op : BinaryOp} (known : Code.binaryOpcode? op = some opcode)
    (shown : isHidden (.text var) = false)
    (loads : S.code.Has pc ⟨.load, .text var, line⟩)
    (stops : S.code.Has (pc + 1) ⟨.load, .text stopName, line⟩)
    (compares : S.code.Has (pc + 2) ⟨opcode, .null, line⟩)
    (provides : Provides number stop m ⟨.load, .text stopName, line⟩)
    (here : At S height w m pc stack) :
    Tracks number (do
      let v ← Walker.lookup var
      Value.binary op (← Walker.getHeap) v stop) w m (Pushes S height (pc + 3) stack) := by
  refine (tracks_load here shown loads).bind fun v w m kept here => ?_
  refine (tracks_provided (provides.mono kept) here stops).first fun m _ here => ?_
  exact tracks_binary op here known compares

/-- The variable of a range loop is compared with the end, the way that the step goes. -/
theorem tracks_rangeCompare {var : String} (shown : isHidden (.text var) = false)
    {start leave : Nat}
    {stop : Value} {n : Number} {stopName : String} {known : Number ⊕ String}
    {pushStep : Instruction}
    (test : S.code.Holds start (Code.rangeTest line start (.scalar (.text var)) stopName known ++
      [⟨.jumpIfNot, .int leave, line⟩]))
    (range : RangeKept number stop (.number n) m line stopName known pushStep)
    (here : At S height w m start stack) :
    Tracks number (do
      let v ← Walker.lookup var
      Value.binary (if Number.lt (.int 0) n then .lt else .gt) (← Walker.getHeap) v stop) w m
      (Pushes S height (start +
        (Code.rangeTest line start (.scalar (.text var)) stopName known).length) stack) := by
  obtain ⟨_, ⟨⟩, how⟩ := range.step
  cases known with
  | inl n' =>
    subst how
    simp only [Code.rangeTest, List.cons_append, List.nil_append, Code.holds_cons] at test
    obtain ⟨loads, stops, compares, -⟩ := test
    refine tracks_compare ?_ shown loads stops compares range.stop here
    split <;> rfl
  | inr stepName =>
    simp only [Code.rangeTest, List.cons_append, List.nil_append, Code.holds_cons] at test
    obtain ⟨steps, zero, compares, jumps, loadUp, stopUp, up, past, loadDown, stopDown, down, -⟩ :=
      test
    refine (tracks_provided how here steps).first fun m kept here => ?_
    refine (tracks_push here zero).first fun m₂ kept₂ here => ?_
    have compared : Tracks number _ _ _ _ := tracks_binary .gt here rfl compares
    refine (tracks_congr (x := pure (Value.bool (Number.lt (.int 0) n))) rfl compared).first
      fun m₃ kept₃ here => ?_
    refine (tracks_jumpIfNot here jumps).first fun m₄ kept₄ here => ?_
    have stops := range.stop.mono (((kept.trans kept₂).trans kept₃).trans kept₄)
    cases upward : Number.lt (.int 0) n with
    | true =>
      rw [upward] at here
      rw [← bind_pure (Walker.lookup _ >>= _)]
      refine (tracks_compare rfl shown loadUp stopUp up stops here).bind fun v w m _ here => ?_
      exact (tracks_jump here past).first fun m _ here => tracks_pure here
    | false =>
      rw [upward] at here
      exact tracks_compare rfl shown loadDown stopDown down stops here

/-- Whether there is another round of a range loop. -/
theorem tracks_rangeTest {var : String} (shown : isHidden (.text var) = false) {start leave : Nat}
    {stop step : Value} {stopName : String} {known : Number ⊕ String} {pushStep : Instruction}
    (test : S.code.Holds start (Code.rangeTest line start (.scalar (.text var)) stopName known ++
      [⟨.jumpIfNot, .int leave, line⟩]))
    (range : RangeKept number stop step m line stopName known pushStep)
    (here : At S height w m start stack) :
    Tracks number (do Walker.inRange (← Walker.lookup var) stop step) w m fun holds w' m' =>
      At S height w' m' (if holds then start +
        (Code.rangeTest line start (.scalar (.text var)) stopName known).length + 1 else leave)
        stack := by
  obtain ⟨n, rfl, -⟩ := range.step
  simp only [inRange_eq]
  rw [← bind_assoc]
  refine (tracks_rangeCompare shown test range here).bind fun v w m _ here => ?_
  rw [Code.holds_append] at test
  refine tracks_walk rfl (.refl _) ((tracks_jumpIfNot here (Code.holds_cons.mp test.2).1).first
    fun m _ here => ?_)
  exact tracks_pure here

/-- The step from one round of a range loop to the next. -/
theorem tracks_rangeAgain {var : String} (shown : isHidden (.text var) = false) {start again : Nat}
    {stop step : Value} {stopName : String} {known : Number ⊕ String} {pushStep : Instruction}
    (next : S.code.Holds again [⟨.load, .text var, line⟩, pushStep, ⟨.add, .null, line⟩,
      ⟨.store, .text var, line⟩, ⟨.jump, .int (start : Nat), line⟩])
    (range : RangeKept number stop step m line stopName known pushStep)
    (here : At S height w m again stack) :
    Tracks number (Walker.advanceRange var step) w m fun v w' m' => At S height w' m' start stack ∧
      Walker.lookup var w' = (.ok v, w') := by
  simp only [Code.holds_cons] at next
  obtain ⟨loads, pushes, adds, stores, back, -⟩ := next
  unfold Walker.advanceRange
  refine (tracks_load here shown loads).bind fun v w m kept here => ?_
  refine (tracks_provided (range.push.mono kept) here pushes).first fun m _ here => ?_
  rw [← bind_assoc]
  refine (tracks_binary .add here rfl adds).bind fun v w m _ here => ?_
  refine (tracks_bind here shown stores).bind fun _ w m _ bound => ?_
  refine (tracks_jump bound.1 back).first fun m _ here => ?_
  exact tracks_pure ⟨here, bound.2.1⟩

end Ranges

end Stepwise
