import Stepwise.Proofs.Agreement.Calls
import Stepwise.Proofs.Agreement.Loops
import Stepwise.Proofs.Counting.Rounds

/-!
The machine in loops that count. A piece of code is followed instruction by instruction, as a `Block`
that leads from one address and stack to another; the rounds of a range are blocks one after the other
(`range_block`).
-/
namespace Stepwise

namespace Machine

/-- The machine with a line printed. -/
def printed (m : Machine) (line : String) : Machine := { m with world := m.world.print line }

/-- A machine in a call at some depth, at one of some addresses. -/
def IsIn (depth : Nat) (inside : Nat → Prop) (m : Machine) : Prop :=
  m.frames.length = depth ∧ ∃ a : Nat, m.pc = a ∧ inside a

/-- A machine under way at an address, with some operands, with the variables and the world of another
one, and with so many steps left. -/
structure Going (code : Code) (depth : Nat) (base : Machine) (left pc : Nat) (stack : List Value)
    (m : Machine) : Prop where
  loaded : m.code = some code
  under : m.status.isFinal = false
  pc : m.pc = pc
  stack : m.stack = stack
  depth : m.frames.length = depth
  frames : m.frames = base.frames
  globals : m.globals = base.globals
  world : m.world = base.world
  host : m.host = base.host
  enough : (m.stepCount + left : Nat) ≤ m.maxSteps

/-- Instructions that lead from one address and stack to another, and from the variables and the world
of one machine to those of another one, by a number of steps. -/
def Block (code : Code) (depth : Nat) (inside : Nat → Prop) (base : Machine) (pc : Nat)
    (stack : List Value) (base' : Machine) (pc' : Nat) (stack' : List Value) (cost : Nat) : Prop :=
  ∀ (m : Machine) (left : Nat), Going code depth base (left + cost) pc stack m →
    ∃ m', Travels step (IsIn depth inside) m m' ∧ Going code depth base' left pc' stack' m'

variable {code : Code} {depth left pc pc' pc'' cost cost' : Nat} {inside : Nat → Prop}
  {base base' base'' m k : Machine} {stack stack' stack'' : List Value} {i : Instruction}
  {line : Option Int}

theorem Going.weaken {less : Nat} (here : Going code depth base left pc stack m) (le : less ≤ left) :
    Going code depth base less pc stack m :=
  { here with enough := by have := here.enough; omega }

theorem Going.var (here : Going code depth base left pc stack m) (name : Name) :
    m.var name = base.var name := by
  unfold Machine.var
  rw [here.frames, here.globals]

theorem Going.stored (here : Going code depth base left pc stack m) (name : Name) (v : Value) :
    Going code depth (base.stored name v) left pc stack (m.stored name v) := by
  have frames := here.frames
  have globals := here.globals
  have inner := here.depth
  unfold Machine.stored
  rw [← frames]
  split
  next => exact { here with frames := rfl, globals := by rw [globals] }
  next same =>
    rw [same] at inner
    exact { here with depth := inner, frames := rfl }

theorem outside_print (free : m.host.find? (.text "print") = none) {n : Int}
    (small : n.natAbs < pow10 Decimal.digitLimit) :
    outside (fun engine => engine.call (.text "print") [.int n]) m = (.ok .null, m.printed n.repr) := by
  unfold outside
  dsimp only
  rw [Engine.call_print free small]
  rfl

theorem advanceBy_ok (ran : execute i (m.fetched i) = (.ok (), m')) :
    m.begun.advanceBy i = (.ok m'.report, m') := by
  have run : execute i { m.begun with pc := m.begun.pc + 1, report := { highlightLine := i.line } } =
    (.ok (), m') := ran
  unfold advanceBy
  rw [run]

namespace Block

theorem refl : Block code depth inside base pc stack base pc stack 0 :=
  fun m _ here => ⟨m, .here m, here⟩

theorem trans (first : Block code depth inside base pc stack base' pc' stack' cost)
    (rest : Block code depth inside base' pc' stack' base'' pc'' stack'' cost') :
    Block code depth inside base pc stack base'' pc'' stack'' (cost + cost') := by
  intro m left here
  rw [Nat.add_comm cost, ← Nat.add_assoc] at here
  obtain ⟨next, travels, here⟩ := first m _ here
  obtain ⟨last, further, here⟩ := rest next _ here
  exact ⟨last, travels.trans further, here⟩

theorem weaken (block : Block code depth inside base pc stack base' pc' stack' cost)
    (le : cost ≤ cost') : Block code depth inside base pc stack base' pc' stack' cost' :=
  fun m _ here => block m _ (here.weaken (by omega))

/-- An instruction that goes well. -/
theorem one (has : code.Has pc i) (own : inside pc)
    (runs : ∀ left k, k.report.done = false → Going code depth base left (pc + 1) stack k →
      ∃ k', execute i k = (.ok (), k') ∧ k'.report.done = false ∧
        Going code depth base' left pc' stack' k') :
    Block code depth inside base pc stack base' pc' stack' 1 := by
  intro m left here
  have enough := here.enough
  have fetched : Going code depth base left (pc + 1) stack (m.fetched i) :=
    { here with
      under := rfl
      pc := by
        show m.pc + 1 = _
        rw [here.pc]
        rfl
      enough := by
        show ((m.stepCount + 1 + left : Nat) : Int) ≤ m.maxSteps
        omega }
  obtain ⟨next, ran, undone, there⟩ := runs left _ rfl fetched
  refine ⟨next, .on ⟨here.depth, pc, here.pc, own⟩ ?_ undone (.here next), there⟩
  rw [step_within here.loaded here.under here.pc has (by omega), advanceBy_ok ran]

/-- An instruction that only moves operands and goes on somewhere. -/
theorem alone (has : code.Has pc i) (own : inside pc)
    (runs : ∀ left k, Going code depth base left (pc + 1) stack k →
      execute i k = (.ok (), { k with pc := (pc' : Int), stack := stack' })) :
    Block code depth inside base pc stack base pc' stack' 1 :=
  one has own fun left k undone here =>
    ⟨_, runs left k here, undone, { here with pc := rfl, stack := rfl }⟩

variable {a b v : Value} {target : Nat}

theorem push (has : code.Has pc ⟨.push, v, line⟩) (own : inside pc) :
    Block code depth inside base pc stack base (pc + 1) (v :: stack) 1 :=
  alone has own fun _ k here => by
    rw [← here.stack, ← here.pc]
    rfl

theorem pop {operand : Value} (has : code.Has pc ⟨.pop, operand, line⟩) (own : inside pc) :
    Block code depth inside base pc (v :: stack) base (pc + 1) stack 1 :=
  alone has own fun _ k here => by
    rw [← here.pc]
    exact (Act.bind_ok (pop_cons here.stack)).trans rfl

theorem dup {operand : Value} (has : code.Has pc ⟨.dup, operand, line⟩) (own : inside pc) :
    Block code depth inside base pc (v :: stack) base (pc + 1) (v :: v :: stack) 1 :=
  alone has own fun _ k here => by
    refine (Act.bind_ok (peek_cons here.stack)).trans ?_
    rw [← here.pc, ← here.stack]
    rfl

theorem load (name : Name) (has : code.Has pc ⟨.load, name.toValue, line⟩) (own : inside pc)
    (known : base.var name = some v) :
    Block code depth inside base pc stack base (pc + 1) (v :: stack) 1 :=
  alone has own fun _ k here => by
    have looked := k.lookup_eq name
    rw [here.var, known] at looked
    refine (Act.bind_ok (nameOf_toValue name)).trans ((Act.bind_ok looked).trans ?_)
    rw [← here.pc, ← here.stack]
    rfl

theorem store (name : Name) (has : code.Has pc ⟨.store, name.toValue, line⟩) (own : inside pc) :
    Block code depth inside base pc (v :: stack) (base.stored name v) (pc + 1) stack 1 :=
  one has own fun _ k undone here => by
    have popped : Going code depth base _ (pc + 1) stack { k with stack } := { here with stack := rfl }
    refine ⟨_, (Act.bind_ok (pop_cons here.stack)).trans ((Act.bind_ok (nameOf_toValue name)).trans
      (store_eq ..)), ?_, popped.stored name v⟩
    rw [done_stored]
    exact undone

theorem binary (op : BinaryOp) {opcode : Opcode} (known : Code.binaryOpcode? op = some opcode)
    (has : code.Has pc ⟨opcode, .null, line⟩) (own : inside pc)
    (result : Value.binary op base.heap a b = .ok v) :
    Block code depth inside base pc (b :: a :: stack) base (pc + 1) (v :: stack) 1 :=
  alone has own fun _ k here => by
    have heap : k.heap = base.heap := congrArg World.heap here.world
    rw [execute_binary known, Machine.binary, Act.bind_ok (pop_cons here.stack),
      Act.bind_ok (pop_cons rfl), ← here.pc]
    rw [← heap] at result
    show (liftM (Value.binary op k.heap a b) >>= Machine.push : Action Unit) _ = _
    rw [result]
    rfl

theorem neg {n : Int} (has : code.Has pc ⟨.neg, .null, line⟩) (own : inside pc) :
    Block code depth inside base pc (.int n :: stack) base (pc + 1) (.int (-n) :: stack) 1 :=
  alone has own fun _ k here => by
    rw [← here.pc]
    exact (Act.bind_ok (pop_cons here.stack)).trans rfl

theorem jump (has : code.Has pc ⟨.jump, .int target, line⟩) (own : inside pc) :
    Block code depth inside base pc stack base target stack 1 :=
  alone has own fun _ k here => by
    rw [← here.stack]
    rfl

theorem jumpIf {holds : Bool} (has : code.Has pc ⟨.jumpIf, .int target, line⟩) (own : inside pc) :
    Block code depth inside base pc (.bool holds :: stack) base (if holds then target else pc + 1)
      stack 1 :=
  alone has own fun _ k here => by
    refine (Act.bind_ok (pop_cons here.stack)).trans ?_
    cases holds
    · show _ = (Except.ok (), { k with pc := ((pc + 1 : Nat) : Int), stack })
      rw [← here.pc]
      rfl
    · rfl

theorem jumpIfNot {holds : Bool} (has : code.Has pc ⟨.jumpIfNot, .int target, line⟩)
    (own : inside pc) :
    Block code depth inside base pc (.bool holds :: stack) base (if holds then pc + 1 else target)
      stack 1 :=
  alone has own fun _ k here => by
    refine (Act.bind_ok (pop_cons here.stack)).trans ?_
    cases holds
    · rfl
    · show _ = (Except.ok (), { k with pc := ((pc + 1 : Nat) : Int), stack })
      rw [← here.pc]
      rfl

theorem repeatCount {n : Nat} (has : code.Has pc ⟨.repeatCount, .null, line⟩) (own : inside pc) :
    Block code depth inside base pc (.int n :: stack) base (pc + 1) (.int n :: stack) 1 :=
  alone has own fun _ k here => by
    rw [← here.pc]
    exact (Act.bind_ok (pop_cons here.stack)).trans rfl

theorem rangeCheck {first last step : Int} (has : code.Has pc ⟨.rangeCheck, .null, line⟩)
    (own : inside pc) (moves : step ≠ 0) :
    Block code depth inside base pc (.int step :: .int last :: .int first :: stack) base (pc + 1)
      (.int step :: .int last :: .int first :: stack) 1 :=
  alone has own fun _ k here => by
    have taken := @take_eq k 3 (by simp [here.stack])
    rw [here.stack] at taken
    refine (Act.bind_ok taken).trans ?_
    show (do Value.checkRange (.int first) (.int last) (.int step); pushAll _ : Action Unit) _ = _
    rw [checkRange_int moves, ← here.pc]
    rfl

/-- The built-in function prints an integer. -/
theorem print {n : Int} (has : code.Has pc ⟨.call, .text (callOperand "print" 1), line⟩)
    (own : inside pc) (free : base.host.find? (.text "print") = none)
    (small : n.natAbs < pow10 Decimal.digitLimit) :
    Block code depth inside base pc (.int n :: stack) (base.printed n.repr) (pc + 1) (.null :: stack) 1 :=
  one has own fun _ k undone here => by
    have taken := @take_eq k 1 (by simp [here.stack])
    rw [here.stack] at taken
    have called := outside_print (m := { k with stack }) (by rw [← here.host] at free; exact free) small
    refine ⟨{ printed { k with stack } n.repr with stack := .null :: stack }, ?_, undone,
      { here with stack := rfl, world := ?_ }⟩
    · rw [Stepwise.execute_call, calleeOf_callOperand (by decide), pure_bind]
      exact (Act.bind_ok taken).trans ((Act.bind_ok called).trans rfl)
    · show k.world.print n.repr = base.world.print n.repr
      rw [here.world]

/-- An expression that gives an integer. -/
theorem denoted {scope : Scope} {e : Expr} {n : Int} (given : Denotes base.var e n)
    (placed : ExprAt code scope line pc e pc') (own : ∀ a, pc ≤ a → a < pc' → inside a) :
    Block code depth inside base pc stack base pc' (.int n :: stack) 2 := by
  cases given with
  | literal =>
    cases placed with | literal has =>
    exact (push has (own _ (by omega) (by omega))).weaken (by omega)
  | negative =>
    cases placed with | neg inner has =>
    cases inner with | literal first =>
    exact (push first (own _ (by omega) (by omega))).trans (neg has (own _ (by omega) (by omega)))
  | held _ known =>
    cases placed with | var has =>
    exact (load _ has (own _ (by omega) (by omega)) known).weaken (by omega)

/-- An instruction that gives what is kept for a loop. -/
theorem provided {number : Nat} (provides : Provides number v base i) (has : code.Has pc i)
    (own : inside pc) : Block code depth inside base pc stack base (pc + 1) (v :: stack) 1 := by
  cases provides with
  | literal => exact push has own
  | kept _ _ _ known => exact load _ has own known

end Block

section Range

variable {number start again : Nat} {var stopName : String} {known : Number ⊕ String}
  {pushStep : Instruction} {v stop step : Int} {scope : Scope}

/-- What a range leaves behind: the calls under way, more lines, and its variable. -/
structure Ranged (base base' : Machine) (var : String) (lines : List String) (v : Int) : Prop where
  links : base'.frames.map CallFrame.link = base.frames.map CallFrame.link
  output : base'.world.output = base.world.output ++ lines.toArray
  host : base'.host = base.host
  value : base'.var (.text var) = some (.int v)

theorem links_stored (m : Machine) (name : Name) (v : Value) :
    (m.stored name v).frames.map CallFrame.link = m.frames.map CallFrame.link := by
  unfold stored
  split
  next => rfl
  next same => rw [same]; rfl

theorem world_stored (m : Machine) (name : Name) (v : Value) : (m.stored name v).world = m.world := by
  unfold stored
  split <;> rfl

theorem host_stored (m : Machine) (name : Name) (v : Value) : (m.stored name v).host = m.host := by
  unfold stored
  split <;> rfl

theorem compare_block {op : BinaryOp} {opcode : Opcode} (opens : Code.binaryOpcode? op = some opcode)
    (direction : op = if Number.lt (.int 0) (.int step) then .lt else .gt)
    (loads : code.Has pc ⟨.load, .text var, line⟩)
    (stops : code.Has (pc + 1) ⟨.load, .text stopName, line⟩)
    (compares : code.Has (pc + 2) ⟨opcode, .null, line⟩)
    (provides : Provides number (.int stop) base ⟨.load, .text stopName, line⟩)
    (value : base.var (.text var) = some (.int v)) :
    Block code depth (fun _ => True) base pc stack base (pc + 3)
      (.bool (decide (Before step v stop)) :: stack) 3 := by
  subst direction
  exact ((Block.load (.text var) loads trivial value).trans (.provided provides stops trivial)).trans
    (.binary _ opens compares trivial (compare_int ..))

/-- The test of a round of a range. -/
theorem rangeTest_block {leave : Nat}
    (test : code.Holds start (Code.rangeTest line start (.scalar (.text var)) stopName known ++
      [⟨.jumpIfNot, .int leave, line⟩]))
    (range : RangeKept number (.int stop) (.int step) base line stopName known pushStep)
    (value : base.var (.text var) = some (.int v)) :
    Block code depth (fun _ => True) base start stack base
      (if Before step v stop then start +
        (Code.rangeTest line start (.scalar (.text var)) stopName known).length + 1 else leave)
      stack 9 := by
  rw [Code.holds_append] at test
  have jumps : ∀ {a : Nat}, code.Holds a [⟨.jumpIfNot, .int leave, line⟩] →
      Block code depth (fun _ => True) base a (.bool (decide (Before step v stop)) :: stack) base
        (if Before step v stop then a + 1 else leave) stack 1 := by
    intro a holds
    have jump : Block _ _ _ _ _ _ _ _ _ _ := @Block.jumpIfNot code depth a (fun _ => True) base stack line
      leave (decide (Before step v stop)) (Code.holds_cons.mp holds).1 trivial
    simpa only [decide_eq_true_eq] using jump
  obtain ⟨_, ⟨⟩, how⟩ := range.step
  cases known with
  | inl n =>
    obtain rfl : n = .int step := how
    obtain ⟨compares, behind⟩ := test
    simp only [Code.rangeTest, Code.holds_cons] at compares
    refine ((compare_block ?_ rfl compares.1 compares.2.1 compares.2.2.1 range.stop value).trans
      (jumps behind)).weaken (by omega)
    split <;> rfl
  | inr stepName =>
    obtain ⟨chooses, behind⟩ := test
    simp only [Code.rangeTest, Code.holds_cons] at chooses
    obtain ⟨steps, zero, compares, turns, loadUp, stopUp, up, past, loadDown, stopDown, down, -⟩ := chooses
    have first : Block code depth (fun _ => True) base start stack base (start + 1) _ 1 :=
      .provided how steps trivial
    have direction := (first.trans (.push zero trivial)).trans
      (.binary .gt (v := .bool (Number.lt (.int 0) (.int step))) rfl compares trivial rfl)
    have chosen := direction.trans (.jumpIfNot turns trivial)
    cases upward : Number.lt (.int 0) (.int step) with
    | true =>
      rw [upward] at chosen
      exact (((chosen.trans (compare_block rfl (by rw [upward]) loadUp stopUp up range.stop value)).trans
        (.jump past trivial)).trans (jumps behind)).weaken (by omega)
    | false =>
      rw [upward] at chosen
      exact ((chosen.trans (compare_block rfl (by rw [upward]) loadDown stopDown down range.stop
        value)).trans (jumps behind)).weaken (by omega)

/-- A round prints the value of the variable. -/
theorem printing_block {targets : Option LoopTargets} {number' next : Nat} {p call arg : Pos}
    (placed : StmtsAt code scope targets number pc [printing p call arg var] number' next)
    (own : scope.callOpcode (.text "print") = .call) (free : base.host.find? (.text "print") = none)
    (value : base.var (.text var) = some (.int v)) (small : v.natAbs < pow10 Decimal.digitLimit) :
    Block code depth (fun _ => True) base pc stack (base.printed v.repr) next stack 3 := by
  cases placed with | cons first rest =>
  cases rest
  cases first with | expr inner pops =>
  cases inner with | call named args calls =>
  cases args with | cons arg rest =>
  cases rest
  cases arg with | var loads =>
  cases named
  rw [own] at calls
  exact ((Block.load (.text var) loads trivial value).trans (.print calls trivial free small)).trans
    (.pop pops trivial)

/-- The step from one round of a range to the next. -/
theorem rangeAgain_block
    (next : code.Holds again [⟨.load, .text var, line⟩, pushStep, ⟨.add, .null, line⟩,
      ⟨.store, .text var, line⟩, ⟨.jump, .int (start : Nat), line⟩])
    (range : RangeKept number (.int stop) (.int step) base line stopName known pushStep)
    (value : base.var (.text var) = some (.int v)) :
    Block code depth (fun _ => True) base again stack (base.stored (.text var) (.int (v + step))) start
      stack 5 := by
  simp only [Code.holds_cons] at next
  obtain ⟨loads, pushes, adds, stores, back, -⟩ := next
  exact ((((Block.load (.text var) loads trivial value).trans (.provided range.push pushes
    trivial)).trans (.binary .add rfl adds trivial rfl)).trans (.store (.text var) stores trivial)).trans
      (.jump back trivial)

theorem keeps_shown (shown : isHidden (.text var) = false) (v : Value) :
    base.Keeps number (base.stored (.text var) v) :=
  keeps_stored base v fun bound _ k _ => key_ne_of_hidden shown (isHidden_loopVar bound k)

/-- The rounds of a range, up to its end. -/
theorem range_rounds (depth : Nat) (stack : List Value) {n : Nat} {p call arg : Pos}
    {targets : Option LoopTargets} {number' : Nat}
    (test : code.Holds start (Code.rangeTest line start (.scalar (.text var)) stopName known ++
      [⟨.jumpIfNot, .int (again + 5 : Nat), line⟩]))
    (body : StmtsAt code scope targets number
      (start + (Code.rangeTest line start (.scalar (.text var)) stopName known).length + 1)
      [printing p call arg var] number' again)
    (next : code.Holds again [⟨.load, .text var, line⟩, pushStep, ⟨.add, .null, line⟩,
      ⟨.store, .text var, line⟩, ⟨.jump, .int (start : Nat), line⟩])
    (own : scope.callOpcode (.text "print") = .call) (shown : isHidden (.text var) = false)
    (length : RangeLength v stop step n) (free : base.host.find? (.text "print") = none)
    (printable : Printable v step n)
    (range : RangeKept number (.int stop) (.int step) base line stopName known pushStep)
    (value : base.var (.text var) = some (.int v)) :
    ∃ base', Block code depth (fun _ => True) base start stack base' (again + 5) stack (17 * n + 9) ∧
      Ranged base base' var (rangeLines v step n) (v + n * step) := by
  induction n generalizing v base with
  | zero =>
    have ends : ¬ Before step v stop := by simpa using length.ends
    have tested : Block _ _ _ _ _ _ _ _ _ _ := @rangeTest_block code depth base stack line number start
      var stopName known pushStep v stop step _ test range value
    rw [if_neg ends] at tested
    exact ⟨base, tested, rfl, by simp [rangeLines], rfl, by simpa using value⟩
  | succ n ih =>
    have tested : Block _ _ _ _ _ _ _ _ _ _ := @rangeTest_block code depth base stack line number start
      var stopName known pushStep v stop step _ test range value
    rw [if_pos length.head] at tested
    have printed : Block code depth _ base _ stack _ _ _ _ :=
      printing_block body own free value printable.head
    have kept : base.Keeps number (base.printed v.repr) := .of_eq rfl rfl
    have advanced : Block code depth _ (base.printed v.repr) _ stack _ _ _ _ :=
      rangeAgain_block next (range.mono kept) value
    let turned := (base.printed v.repr).stored (.text var) (.int (v + step))
    have free : turned.host.find? (.text "print") = none := by
      rw [host_stored]
      exact free
    obtain ⟨base', rounds, ranged⟩ := ih length.tail free printable.tail
      ((range.mono kept).mono (keeps_shown shown _)) (by rw [var_stored, if_pos rfl])
    have whole := ((tested.trans printed).trans advanced).trans rounds
    refine ⟨base', whole.weaken (by omega), ?_, ?_, ?_, ?_⟩
    · rw [ranged.links, links_stored]
      rfl
    · rw [ranged.output, world_stored, rangeLines_succ]
      simp [Machine.printed, World.print]
    · rw [ranged.host, host_stored]
      rfl
    · rw [ranged.value, value_succ]

theorem Ranged.refl (value : base.var (.text var) = some (.int v)) : Ranged base base var [] v :=
  ⟨rfl, by simp, rfl, value⟩

theorem Ranged.stored {lines : List String} (ranged : Ranged base' base'' var lines v) {name : Name}
    {w : Value} (before : base' = base.stored name w) : Ranged base base'' var lines v where
  links := by rw [ranged.links, before, links_stored]
  output := by rw [ranged.output, before, world_stored]
  host := by rw [ranged.host, before, host_stored]
  value := ranged.value

/-- The bounds of a range are read once, and kept. -/
theorem rangeSetup_block (depth : Nat) (stack : List Value) {first last by' : Expr} {a b : Int}
    (placed : RangeAt code scope line number pc (.scalar (.text var)) first last (some by') start stopName
      known pushStep)
    (starts : Denotes base.var first a) (stops : Denotes base.var last b) (steps : Denotes base.var by' step)
    (moves : step ≠ 0) (shown : isHidden (.text var) = false) :
    ∃ base', Block code depth (fun _ => True) base pc stack base' start stack 10 ∧
      RangeKept (number + 1) (.int b) (.int step) base' line stopName known pushStep ∧
      Ranged base base' var [] a := by
  have hides (m : Machine) (bound : String) (w : Value) :
      (m.stored (.text var) w).var (loopVar bound number) = m.var (loopVar bound number) := by
    rw [var_stored, if_neg (key_ne_of_hidden shown (isHidden_loopVar ..))]
  cases placed with
  | known of weight _ atFirst atLast setup =>
    obtain rfl := steps.known of
    cases weight
    simp only [Code.holds_cons] at setup
    obtain ⟨pushes, checks, pops, hidesStop, stores, -⟩ := setup
    have first : Block code depth (fun _ => True) base pc stack base _ _ 2 :=
      .denoted starts atFirst fun _ _ _ => trivial
    have both := first.trans (.denoted stops atLast fun _ _ _ => trivial)
    have checked := ((both.trans (.push pushes trivial)).trans (.rangeCheck checks trivial moves)).trans
      (.pop pops trivial)
    have kept := (checked.trans (.store (loopVar "end_" number) hidesStop trivial)).trans
      (.store (.text var) stores trivial)
    refine ⟨_, kept.weaken (by omega), ⟨?_, .literal, _, rfl, rfl⟩, ?_⟩
    · refine .kept "end_" (by simp [loopBounds]) (Nat.lt_succ_self number) ?_
      rw [hides, var_stored, if_pos rfl]
    · exact ((Ranged.refl (by rw [var_stored, if_pos rfl])).stored rfl).stored rfl
  | computed of atFirst atLast atStep setup =>
    simp only [Code.holds_cons] at setup
    obtain ⟨checks, hidesStep, hidesStop, stores, -⟩ := setup
    cases atStep with | present atStep =>
    have first : Block code depth (fun _ => True) base pc stack base _ _ 2 :=
      .denoted starts atFirst fun _ _ _ => trivial
    have all := (first.trans (.denoted stops atLast fun _ _ _ => trivial)).trans
      (.denoted steps atStep fun _ _ _ => trivial)
    have kept := (((all.trans (.rangeCheck checks trivial moves)).trans
      (.store (loopVar "step_" number) hidesStep trivial)).trans
      (.store (loopVar "end_" number) hidesStop trivial)).trans (.store (.text var) stores trivial)
    have apart : (loopVar "step_" number).key ≠ (loopVar "end_" number).key := fun same => by
      have := (loopVar_inj (by simp [loopBounds]) (by simp [loopBounds]) same).1
      simp at this
    refine ⟨_, kept, ⟨?_, ?_, _, rfl, ?_⟩, ?_⟩
    · refine .kept "end_" (by simp [loopBounds]) (Nat.lt_succ_self number) ?_
      rw [hides, var_stored, if_pos rfl]
    iterate 2
      refine .kept "step_" (by simp [loopBounds]) (Nat.lt_succ_self number) ?_
      rw [hides, var_stored, if_neg apart, var_stored, if_pos rfl]
    · exact (((Ranged.refl (by rw [var_stored, if_pos rfl])).stored rfl).stored rfl).stored rfl

/-- A range prints its values, one in a line, and goes on behind its code. -/
theorem range_travels {first last by' : Expr} {a b : Int} {pos p call arg : Pos} {next n : Nat}
    (stands : code.Stands scope (.loopRange pos (.scalar (.text var)) first last (some by')
      [printing p call arg var]) number pc next)
    (own : scope.callOpcode (.text "print") = .call) (shown : isHidden (.text var) = false)
    (starts : Denotes m.var first a) (stops : Denotes m.var last b) (steps : Denotes m.var by' step)
    (moves : step ≠ 0) (length : RangeLength a b step n)
    (printable : Printable a step n)
    (free : m.host.find? (.text "print") = none) (loaded : m.code = some code)
    (under : m.status.isFinal = false) (here : m.pc = pc)
    (enough : (m.stepCount + 20 * (n + 1) : Nat) ≤ m.maxSteps) :
    ∃ m', Travels Machine.step (fun _ => True) m m' ∧ m'.status.isFinal = false ∧ m'.pc = next ∧
      m'.stack = m.stack ∧ Ranged m m' var (rangeLines a step n) (a + n * step) := by
  obtain ⟨_, _, placed⟩ := stands
  cases placed with | loopRange range test body again =>
  obtain ⟨base, sets, kept, ranged⟩ := rangeSetup_block m.frames.length m.stack range starts stops steps
    moves shown
  have free : base.host.find? (.text "print") = none := by
    rw [ranged.host]
    exact free
  obtain ⟨base', counts, ranged'⟩ := range_rounds m.frames.length m.stack test body again own shown
    length free printable kept ranged.value
  have going : Going code m.frames.length m (0 + (10 + (17 * n + 9))) pc m.stack m :=
    ⟨loaded, under, here, rfl, rfl, rfl, rfl, rfl, rfl, by omega⟩
  obtain ⟨m', travels, there⟩ := sets.trans counts m 0 going
  refine ⟨m', travels.mono fun _ _ => trivial, there.under, there.pc, there.stack, ?_, ?_, ?_, ?_⟩
  · rw [there.frames, ranged'.links, ranged.links]
  · rw [there.world, ranged'.output, ranged.output]
    simp
  · rw [there.host, ranged'.host, ranged.host]
  · rw [there.var, ranged'.value]

end Range

end Machine

end Stepwise
