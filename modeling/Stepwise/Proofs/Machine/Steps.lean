import Stepwise.Machine.Step
import Stepwise.Proofs.Outcome

/-!
What one step of the stack machine can do. What the building blocks of instructions do comes first, as
rules for `Act.Ends`. Then `Machine.Steps` lists the ways a step can go, said once: whatever is kept by
a step is proved by going through them.
-/
namespace Stepwise.Machine

section Actions

variable {α : Type} {m : Machine} {bad : Fault → Machine → Prop}

theorem pop_cons {v : Value} {rest : List Value} (top : m.stack = v :: rest) :
    pop m = (.ok v, { m with stack := rest }) := by
  simp only [pop, Act.bind_apply, Act.get_apply, top, Act.modify_apply, Act.pure_apply]

theorem take_eq {count : Nat} (enough : count ≤ m.stack.length) :
    take count m = (.ok (m.stack.take count).reverse, { m with stack := m.stack.drop count }) := by
  have fits : ¬ (count : Int) > (m.stack.length : Int) := by omega
  have plain : ¬ (count : Int) < 0 := by omega
  simp only [take, Act.bind_apply, Act.get_apply, fits, plain, if_false, Int.toNat_natCast,
    Act.set_apply, Act.pure_apply]

theorem store_global (name : Name) (v : Value) (outer : m.frames = []) :
    store name v m = (.ok (), { m with globals := m.globals.put name v }) := by
  simp only [store, Act.modify_apply, outer]
  rfl

theorem store_local {frame : CallFrame} {callers : List CallFrame} (name : Name) (v : Value)
    (inner : m.frames = frame :: callers) :
    store name v m =
      (.ok (), { m with
        frames := { frame with locals := frame.locals.put name v } :: callers }) := by
  simp only [store, Act.modify_apply, inner]

/-- An operator that fails leaves its operands off the stack and all else as it was. -/
theorem binary_error {op : BinaryOp} {a b : Value} {rest : List Value} {failure : Failure}
    (top : m.stack = b :: a :: rest) (failed : Value.binary op m.heap a b = .error failure) :
    binary op m = (.error failure, { m with stack := rest }) := by
  have heap : Value.binary op ({ m with stack := rest } : Machine).heap a b = .error failure := failed
  rw [binary, Act.bind_ok (pop_cons top), Act.bind_ok (pop_cons rfl)]
  simp only [getHeap, Act.bind_apply, Act.get_apply, Act.pure_apply, Act.lift_apply, heap]

/-- So does a look-up by position or by key, -/
theorem execute_arrayGet_error {i : Instruction} (op : i.op = .arrayGet) {object position : Value}
    {rest : List Value} {failure : Failure} (top : m.stack = position :: object :: rest)
    (failed : Value.getIndex m.heap object position = .error failure) :
    execute i m = (.error failure, { m with stack := rest }) := by
  have heap : Value.getIndex ({ m with stack := rest } : Machine).heap object position =
    .error failure := failed
  rw [execute, op]
  dsimp only
  rw [Act.bind_ok (pop_cons top), Act.bind_ok (pop_cons rfl)]
  simp only [getHeap, Act.bind_apply, Act.get_apply, Act.pure_apply, Act.lift_apply, heap]

/-- and an assignment to a position or a key. -/
theorem execute_arraySet_error {i : Instruction} (op : i.op = .arraySet) {object position v : Value}
    {rest : List Value} {failure : Failure} (top : m.stack = v :: position :: object :: rest)
    (failed : Value.setIndex m.heap object position v = .error failure) :
    execute i m = (.error failure, { m with stack := rest }) := by
  have heap : Value.setIndex ({ m with stack := rest } : Machine).heap object position v =
    .error failure := failed
  rw [execute, op]
  dsimp only
  rw [Act.bind_ok (pop_cons top), Act.bind_ok (pop_cons rfl), Act.bind_ok (pop_cons rfl)]
  simp only [getHeap, Act.bind_apply, Act.get_apply, Act.pure_apply, Act.lift_apply, heap]

/-- A return outside of calls ends the program. -/
theorem leave_outer {v : Value} {rest : List Value} (top : m.stack = v :: rest)
    (outer : m.frames = []) :
    leave m =
      (.ok (), { m with
        stack := [v], status := .completed, report := { m.report with done := true } }) := by
  simp only [leave, Act.bind_apply, pop_cons top, Act.get_apply, outer, Act.set_apply]

theorem leave_inner {v : Value} {rest : List Value} {frame : CallFrame} {callers : List CallFrame}
    (top : m.stack = v :: rest) (inner : m.frames = frame :: callers) :
    leave m =
      (.ok (), { m with
        frames := callers
        stack := (if frame.isConstructor then frame.receiver.getD .null else v) ::
          below frame.stackBase rest
        pc := frame.returnAddress }) := by
  simp only [leave, Act.bind_apply, pop_cons top, Act.get_apply, inner, Act.set_apply]

/-- What a call checks before it is opened. -/
def callFault? (m : Machine) (name : String) (argc : Int) (receiver : Option Value) :
    Option Fault :=
  let hidden : Int := if receiver.isSome then 1 else 0
  match (m.code.bind fun code => code.arities.get? name).filter (· ≠ argc + hidden) with
  | some expected =>
    let shown := if receiver.isSome then unqualified name else name
    let wanted := expected - hidden
    some (.running s!"{shown}() takes {wanted} argument(s) but {argc} were given" none)
  | none => if m.maxCallDepth ≤ m.frames.length then some depthExceeded else none

/-- The frame of a call that is opened. -/
def opened (m : Machine) (name : String) (line : Option Int) (base : Int)
    (receiver : Option Value) : CallFrame :=
  { returnAddress := m.pc
    functionName := name
    callLine := line
    stackBase := base
    isConstructor := receiver.isSome && isConstructor name
    receiver }

theorem enter_eq (name : String) (address argc : Int) (line : Option Int) (base : Int)
    (receiver : Option Value) :
    enter name address argc line base receiver m =
      match m.callFault? name argc receiver with
      | some fault => (.error (.fault fault), m)
      | none =>
        (.ok (), { m with
          frames := m.opened name line base receiver :: m.frames, pc := address }) := by
  unfold enter callFault?
  simp only [Act.bind_apply, Act.get_apply]
  cases m.code.bind fun code => code.arities.get? name with
  | none =>
    simp only [Option.filter_none]
    by_cases deep : m.maxCallDepth ≤ m.frames.length
    · simp only [if_pos deep]
      rfl
    · simp only [if_neg deep]
      rfl
  | some expected =>
    by_cases wrong : expected ≠ argc + if receiver.isSome then 1 else 0
    · simp only [Option.filter_some, decide_eq_true wrong, if_pos wrong, if_true, refuse]
      rfl
    · by_cases deep : m.maxCallDepth ≤ m.frames.length
      · simp only [Option.filter_some, wrong, decide_false, if_false, if_pos deep]
        rfl
      · simp only [Option.filter_some, wrong, decide_false, if_false, if_neg deep]
        rfl

theorem ends_of_eq {x : Action α} {a : α} {m' : Machine} {good : α → Machine → Prop}
    (done : x m = (.ok a, m')) (holds : good a m') : x.Ends m good bad := by
  unfold Act.Ends
  rw [done]
  exact holds

theorem ends_pop {v : Value} {rest : List Value} {good : Value → Machine → Prop}
    (top : m.stack = v :: rest) (holds : good v { m with stack := rest }) : pop.Ends m good bad :=
  ends_of_eq (pop_cons top) holds

theorem ends_peek {v : Value} {rest : List Value} {good : Value → Machine → Prop}
    (top : m.stack = v :: rest) (holds : good v m) : peek.Ends m good bad := by
  refine ends_of_eq ?_ holds
  simp only [peek, Act.bind_apply, Act.get_apply, top, Act.pure_apply]

theorem ends_take {count : Nat} {good : List Value → Machine → Prop}
    (enough : count ≤ m.stack.length)
    (holds : good (m.stack.take count).reverse { m with stack := m.stack.drop count }) :
    (take count).Ends m good bad :=
  ends_of_eq (take_eq enough) holds

theorem ends_push {v : Value} {good : Unit → Machine → Prop}
    (holds : good () { m with stack := v :: m.stack }) : (push v).Ends m good bad := holds

theorem ends_pushAll {values : List Value} {good : Unit → Machine → Prop}
    (holds : good () { m with stack := values.reverse ++ m.stack }) :
    (pushAll values).Ends m good bad := holds

theorem ends_get {good : Machine → Machine → Prop} (holds : good m m) :
    (get : Action Machine).Ends m good bad := holds

theorem ends_set {m' : Machine} {good : PUnit → Machine → Prop} (holds : good ⟨⟩ m') :
    (set m' : Action PUnit).Ends m good bad := holds

theorem ends_modify {f : Machine → Machine} {good : PUnit → Machine → Prop}
    (holds : good ⟨⟩ (f m)) : (modify f : Action PUnit).Ends m good bad := holds

theorem ends_getHeap {good : Heap → Machine → Prop} (holds : good m.heap m) :
    getHeap.Ends m good bad := holds

theorem ends_setHeap {heap : Heap} {good : Unit → Machine → Prop}
    (holds : good () { m with world := m.world.withHeap heap }) :
    (setHeap heap).Ends m good bad := holds

theorem ends_jumpTo {address : Int} {good : Unit → Machine → Prop}
    (holds : good () { m with pc := address }) : (jumpTo address).Ends m good bad := holds

theorem ends_nameOf {i : Instruction} {good : Name → Machine → Prop}
    (holds : ∀ name, i.operand.scalar? = some name → good name m) : (nameOf i).Ends m good bad := by
  unfold nameOf
  split
  next name found => exact .pure (holds name found)
  next => exact .host

theorem ends_addressOf {i : Instruction} {good : Int → Machine → Prop}
    (holds : ∀ address, i.operand.weight? = some (.int address) → good address m) :
    (addressOf i).Ends m good bad := by
  unfold addressOf
  split
  next address found => exact .pure (holds address found)
  next => exact .host

theorem ends_outside {call : Engine → Except Failure Value × Engine}
    {good : Value → Machine → Prop}
    (ok : ∀ v engine, call m.toEngine = (.ok v, engine) → good v { m with toEngine := engine })
    (error : ∀ f engine, call m.toEngine = (.error (.fault f), engine) →
      bad f { m with toEngine := engine }) : (outside call).Ends m good bad := by
  unfold Act.Ends outside
  rcases result : call m.toEngine with ⟨(f | _) | v, engine⟩
  · exact error f engine result
  · trivial
  · exact ok v engine result

end Actions

/-- A machine at the beginning of a step. -/
def begun (m : Machine) : Machine :=
  { m.remember with status := .running, stepCount := m.stepCount + 1 }

/-- A machine that has read the instruction it is about to execute. -/
def fetched (m : Machine) (i : Instruction) : Machine :=
  { m.begun with pc := m.pc + 1, report := { highlightLine := i.line } }

/-- A machine stopped by a fault; it stays at the instruction that failed. -/
def stoppedAt (m : Machine) (pc : Int) (fault : Fault) : Machine :=
  { m with pc, toEngine := m.toEngine.fail fault }

/-- A step goes ahead: the program is not over and the limit is not reached. -/
def Goes (m : Machine) : Prop := m.finished = false ∧ ¬ m.maxSteps < (m.stepCount + 1 : Nat)

inductive Steps (m : Machine) : Driven StepReport → Machine → Prop where
  | ended : m.finished = true → Steps m (.ok .ended) m
  | lost : m.finished = false → m.maxSteps < (m.stepCount + 1 : Nat) → m.isAstray = true →
      Steps m (.error .outOfBounds) m.begun
  | exhausted : m.finished = false → m.maxSteps < (m.stepCount + 1 : Nat) →
      Steps m (.ok .ended) (m.begun.stoppedAt m.pc (m.tooManySteps m.currentLine))
  | behind {code : Code} : m.Goes → m.code = some code → code.size ≤ m.pc →
      Steps m (.ok .ended) { m.begun with status := .completed }
  | nowhere {code : Code} : m.Goes → m.code = some code → code.at? m.pc = none →
      Steps m (.error .outOfBounds) m.begun
  | executed {i : Instruction} {next : Machine} : m.Goes → m.current? = some i →
      execute i (m.fetched i) = (.ok (), next) → Steps m (.ok next.report) next
  | faulted {i : Instruction} {fault : Fault} {next : Machine} : m.Goes → m.current? = some i →
      execute i (m.fetched i) = (.error (.fault fault), next) →
      Steps m (.ok { done := true, highlightLine := i.line })
        (next.stoppedAt m.pc (fault.withLine i.line))
  | broken {i : Instruction} {failure : HostFailure} {next : Machine} : m.Goes →
      m.current? = some i → execute i (m.fetched i) = (.error (.host failure), next) →
      Steps m (.error failure) next

theorem current?_eq {m : Machine} {code : Code} (loaded : m.code = some code) :
    m.current? = if code.size ≤ m.pc then none else code.at? m.pc := by
  rw [current?, loaded]
  rfl

theorem steps_advance {m : Machine} (goes : m.Goes) : Steps m m.begun.advance.1 m.begun.advance.2 := by
  unfold advance
  split
  next empty =>
    have empty : m.code = none := empty
    simp [Goes, finished, empty] at goes
  next code loaded =>
    have loaded : m.code = some code := loaded
    have current := current?_eq loaded
    split
    next behind => exact .behind goes loaded behind
    next before =>
      have before : ¬ code.size ≤ m.pc := before
      rw [if_neg before] at current
      split
      next none => exact .nowhere goes loaded none
      next i found =>
        have found : m.current? = some i := current.trans found
        unfold advanceBy
        split
        next next done => exact .executed goes found done
        next fault next failed => exact .faulted goes found failed
        next failure next failed => exact .broken goes found failed

theorem steps (m : Machine) : Steps m m.step.1 m.step.2 := by
  unfold step
  split
  next ended => exact .ended ended
  next under =>
    have unfinished : m.finished = false := by simpa using under
    dsimp only
    split
    next exceeds =>
      split
      next astray => exact .lost unfinished exceeds astray
      next => exact .exhausted unfinished exceeds
    next within => exact steps_advance ⟨unfinished, within⟩

theorem steps_of_eq {m m' : Machine} {result : Driven StepReport} (stepped : m.step = (result, m')) :
    Steps m result m' := by
  have taken := steps m
  rwa [stepped] at taken

end Stepwise.Machine
