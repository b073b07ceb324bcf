import Stepwise.Proofs.Machine.Frame
import Stepwise.Proofs.Machine.Steps

/-!
Calls of the host, as a machine makes them and as it reports them. A step calls one handler at most,
and its report tells of a call exactly if the handler answered (`step_calls`).
-/
namespace Stepwise

namespace Engine

/-- Whether the handler that a call goes to answers it. -/
def answers (engine : Engine) (call : HostCall) : Bool :=
  match engine.host.find? call.name with
  | some (_, bound) => (bound.handler bound.earlier call.args engine.heap).outcome.isOk
  | none => false

/-- A call is noted as what it is if its name is that of a handler in its role, and if it has the list
of arguments as the handler leaves it. -/
def Notes (engine : Engine) (call : HostCall) : Prop :=
  ∃ bound, engine.host.find? call.name = some (call.role, bound) ∧
    call.left = (bound.handler bound.earlier call.args engine.heap).left

/-- A call that goes to a handler is noted, however it ends, and reported if it is answered. -/
theorem call_bound {engine : Engine} {name : Name} {role : Role} {bound : Bound}
    (found : engine.host.find? name = some (role, bound)) (args : List Value) :
    (engine.call name args).1 = (bound.handler bound.earlier args engine.heap).outcome ∧
      (engine.call name args).2.host = engine.host.note role name bound args
        (bound.handler bound.earlier args engine.heap).left ∧
      (engine.call name args).2.report =
        if (bound.handler bound.earlier args engine.heap).outcome.isOk then
          engine.report.note role name (bound.handler bound.earlier args engine.heap).left
        else engine.report := by
  have granted := quiet_grants
    (engine.replied role name bound args (bound.handler bound.earlier args engine.heap))
    (bound.handler bound.earlier args engine.heap).requests
  unfold call callHandler
  rw [found]
  dsimp only
  cases (bound.handler bound.earlier args engine.heap).outcome with
  | ok v => exact ⟨rfl, granted.noted, by rw [granted.report]; rfl⟩
  | error failure => exact ⟨rfl, granted.noted, granted.report⟩

theorem call_unbound {engine : Engine} {name : Name} (unbound : engine.host.find? name = none)
    (args : List Value) : engine.Quiet (engine.call name args).2 := by
  unfold call
  rw [unbound]
  exact quiet_callBuiltin ..

end Engine

/-- What a report tells of the call that was answered in its step. -/
def StepReport.Tells (report : StepReport) : Option HostCall → Prop
  | none => report.action = .null ∧ report.actionArgs = [] ∧ report.sensorQuery = .null
  | some ⟨.command, name, _, left⟩ =>
    report.action = name ∧ report.actionArgs = left ∧ report.sensorQuery = .null
  | some ⟨.sensor, name, _, _⟩ =>
    report.action = .null ∧ report.actionArgs = [] ∧ report.sensorQuery = name

/-- What a call of a command is reported as. -/
def HostCall.command? : HostCall → Option (Name × List Value)
  | ⟨.command, name, _, left⟩ => some (name, left)
  | ⟨.sensor, _, _, _⟩ => none

/-- What a call of a sensor is reported as. -/
def HostCall.sensor? : HostCall → Option Name
  | ⟨.command, _, _, _⟩ => none
  | ⟨.sensor, name, _, _⟩ => some name

namespace Machine

variable {m m' : Machine}

/-- The call of the host that a step makes. -/
def invocation? (m : Machine) : Option HostCall :=
  if m.step.2.host.calls.length ≤ m.host.calls.length then none else m.step.2.host.calls.head?

/-- The call of the host that a step makes and that is answered. -/
def answered? (m : Machine) : Option HostCall := m.invocation?.filter m.toEngine.answers

/-- The sensor that the report of a step names. -/
def queried? (m : Machine) : Option Name :=
  match m.step.1 with
  | .ok report => if report.sensorQuery.isNull then none else some report.sensorQuery
  | .error _ => none

/-- What an instruction leaves alone that calls no handler. -/
structure Silent (m m' : Machine) : Prop where
  host : m'.host = m.host
  report : m'.report = { m.report with done := m'.report.done }

theorem aloof_silent : Aloof Silent where
  trans _ _ _ first second :=
    ⟨second.host.trans first.host, by rw [second.report, first.report]⟩
  stack _ _ := ⟨rfl, rfl⟩
  locals _ _ _ _ _ := ⟨rfl, rfl⟩
  inside _ _ quiet := ⟨quiet.noted, by rw [quiet.report]⟩
  control _ _ _ _ _ _ := ⟨rfl, rfl⟩

/-- What a computation within a step has to do with the host: nothing, or one call of a handler, which
is noted, and reported if it is answered. -/
inductive Invokes (m : Machine) : Except Failure Unit × Machine → Prop where
  | silent {result : Except Failure Unit} {m' : Machine} : Silent m m' → Invokes m (result, m')
  | answered {role : Role} {name : String} {bound : Bound} {args : List Value} {v : Value}
      {m' : Machine} : m.host.find? name = some (role, bound) →
      (bound.handler bound.earlier args m.heap).outcome = .ok v →
      m'.host = m.host.note role name bound args (bound.handler bound.earlier args m.heap).left →
      m'.report = m.report.note role name (bound.handler bound.earlier args m.heap).left →
      Invokes m (.ok (), m')
  | refused {role : Role} {name : String} {bound : Bound} {args : List Value} {failure : Failure}
      {m' : Machine} : m.host.find? name = some (role, bound) →
      (bound.handler bound.earlier args m.heap).outcome = .error failure →
      m'.host = m.host.note role name bound args (bound.handler bound.earlier args m.heap).left →
      Invokes m (.error failure, m')

theorem invokes_outside (name : String) (args : List Value) :
    Invokes m (((outside fun engine => engine.call name args) >>= push) m) := by
  have called : (outside fun engine => engine.call name args) m =
      ((m.toEngine.call name args).1, { m with toEngine := (m.toEngine.call name args).2 }) := rfl
  cases found : m.host.find? name with
  | none =>
    have quiet := aloof_silent.inside m _ (Engine.call_unbound found args)
    rw [Act.bind_apply, called]
    cases (m.toEngine.call name args).1 with
    | ok v => exact .silent (aloof_silent.trans _ _ _ quiet (aloof_silent.push v _))
    | error failure => exact .silent quiet
  | some entry =>
    obtain ⟨role, bound⟩ := entry
    obtain ⟨result, host, report⟩ := Engine.call_bound found args
    rw [Act.bind_apply, called, result]
    cases outcome : (bound.handler bound.earlier args m.heap).outcome with
    | ok v =>
      rw [outcome] at report
      exact .answered found outcome host report
    | error failure => exact .refused found outcome host

/-- Reading the operand of a call and taking its arguments changes nothing but the stack. -/
theorem calleeOf_state (i : Instruction) : (calleeOf i m).2 = m := by
  unfold calleeOf
  cases i.operand with
  | text operand =>
    dsimp only
    cases readCallOperand? operand <;> rfl
  | _ => rfl

theorem take_state (count : Int) : ∃ stack, (take count m).2 = { m with stack } := by
  unfold take
  rw [Act.bind_apply, Act.get_apply]
  dsimp only
  split
  · exact ⟨m.stack, rfl⟩
  · exact ⟨_, rfl⟩

/-- A call of something that the program does not define ends before it is made, or makes it on what it
began with, but for the stack. -/
theorem execute_call {i : Instruction} (calls : i.op = .call) (m : Machine) :
    (∃ failure stack, execute i m = (.error failure, { m with stack })) ∨
      ∃ (name : String) (args : List Value) (stack : List Value), execute i m =
        ((outside fun engine => engine.call name args) >>= push) { m with stack } := by
  obtain ⟨op, operand, line⟩ := i
  cases calls
  unfold execute
  dsimp only
  have unread := calleeOf_state (m := m) ⟨.call, operand, line⟩
  rw [Act.bind_apply]
  generalize calleeOf ⟨.call, operand, line⟩ m = read at unread ⊢
  rcases read with ⟨failure | ⟨name, argc⟩, m₁⟩
  all_goals
    obtain rfl : m₁ = m := unread
    dsimp only
  · exact .inl ⟨failure, m₁.stack, rfl⟩
  obtain ⟨stack, untouched⟩ := take_state (m := m₁) argc
  rw [Act.bind_apply]
  generalize take argc m₁ = taken at untouched ⊢
  rcases taken with ⟨failure | args, m₂⟩
  all_goals
    obtain rfl : m₂ = { m₁ with stack } := untouched
    dsimp only
  · exact .inl ⟨failure, stack, rfl⟩
  · exact .inr ⟨name, args, stack, rfl⟩

theorem invokes_execute (i : Instruction) (m : Machine) : Invokes m (execute i m) := by
  by_cases call : i.op = .call
  · rcases execute_call call m with ⟨failure, stack, early⟩ | ⟨name, args, stack, made⟩
    · rw [early]
      exact .silent (aloof_silent.stack m stack)
    · have called := invokes_outside (m := { m with stack }) name args
      rw [made]
      generalize ((outside fun engine => engine.call name args) >>= push) { m with stack } = ended
        at called ⊢
      cases called with
      | silent silent => exact .silent ⟨silent.host, silent.report⟩
      | answered found outcome host report => exact .answered found outcome host report
      | refused found outcome host => exact .refused found outcome host
  · exact .silent (aloof_silent.execute (fun same => absurd same call) m)

/-- What a step has to do with the host. A call that is not answered ends the program or the drive. -/
inductive Deals (m : Machine) : Driven StepReport → Machine → Prop where
  | none {result : Driven StepReport} {next : Machine} : next.host.calls = m.host.calls →
      (∀ report, result = .ok report → report.Tells none) → Deals m result next
  | answered (call : HostCall) {report : StepReport} {next : Machine} :
      next.host.calls = call :: m.host.calls → m.toEngine.Notes call → call.name.isText = true →
      m.toEngine.answers call = true → report.Tells (some call) → Deals m (.ok report) next
  | refused (call : HostCall) {result : Driven StepReport} {next : Machine} :
      next.host.calls = call :: m.host.calls → m.toEngine.Notes call → call.name.isText = true →
      m.toEngine.answers call = false →
      (∀ report, result = .ok report → report.done = true ∧ report.Tells none) → Deals m result next

theorem ended_tells : StepReport.ended.Tells none := ⟨rfl, rfl, rfl⟩

theorem answers_of_find {engine : Engine} {role : Role} {name : Name} {bound : Bound}
    {args left : List Value} (found : engine.host.find? name = some (role, bound)) :
    engine.answers ⟨role, name, args, left⟩ =
      (bound.handler bound.earlier args engine.heap).outcome.isOk := by
  unfold Engine.answers
  rw [found]

theorem step_deals (m : Machine) : Deals m m.step.1 m.step.2 := by
  have stepped := steps m
  generalize m.step.1 = result at stepped ⊢
  generalize m.step.2 = next at stepped ⊢
  cases stepped with
  | ended | exhausted | behind =>
    refine .none rfl ?_
    rintro _ ⟨⟩
    exact ended_tells
  | lost | nowhere => exact .none rfl fun _ failed => nomatch failed
  | @executed i next _ _ done =>
    have called := invokes_execute i (m.fetched i)
    rw [done] at called
    cases called with
    | silent silent =>
      refine .none (congrArg Host.calls silent.host) ?_
      rintro _ ⟨⟩
      rw [silent.report]
      exact ⟨rfl, rfl, rfl⟩
    | @answered role name bound args v _ found outcome host report =>
      refine .answered _ ((congrArg Host.calls host).trans (Host.note_calls ..))
        ⟨bound, found, rfl⟩ rfl ?_ ?_
      · exact (answers_of_find found).trans (congrArg Except.isOk outcome)
      · rw [report]
        cases role <;> exact ⟨rfl, rfl, rfl⟩
  | @faulted i fault next _ _ failed =>
    have called := invokes_execute i (m.fetched i)
    rw [failed] at called
    cases called with
    | silent silent =>
      refine .none (congrArg Host.calls silent.host) ?_
      rintro _ ⟨⟩
      exact ⟨rfl, rfl, rfl⟩
    | @refused role name bound args _ _ found outcome host =>
      refine .refused _ ((congrArg Host.calls host).trans (Host.note_calls ..))
        ⟨bound, found, rfl⟩ rfl ?_ ?_
      · exact (answers_of_find found).trans (congrArg Except.isOk outcome)
      · rintro _ ⟨⟩
        exact ⟨rfl, rfl, rfl, rfl⟩
  | @broken i failure next _ _ failed =>
    have called := invokes_execute i (m.fetched i)
    rw [failed] at called
    cases called with
    | silent silent => exact .none (congrArg Host.calls silent.host) fun _ failed => nomatch failed
    | @refused role name bound args _ _ found outcome host =>
      refine .refused _ ((congrArg Host.calls host).trans (Host.note_calls ..))
        ⟨bound, found, rfl⟩ rfl ?_ fun _ failed => nomatch failed
      exact (answers_of_find found).trans (congrArg Except.isOk outcome)

theorem invocation?_none (same : m.step.2.host.calls = m.host.calls) : m.invocation? = none :=
  if_pos (same ▸ Nat.le_refl _)

theorem invocation?_some {call : HostCall} (more : m.step.2.host.calls = call :: m.host.calls) :
    m.invocation? = some call := by
  unfold invocation?
  rw [more, if_neg (by simp), List.head?_cons]

/-- The call that a step makes is noted, and it is the only one; its report tells of the call that was
answered. -/
theorem step_calls (m : Machine) :
    m.step.2.host.calls = m.invocation?.toList ++ m.host.calls ∧
      (∀ call, m.invocation? = some call → m.toEngine.Notes call) ∧
      ∀ report, m.step.1 = .ok report → report.Tells m.answered? := by
  have dealt := step_deals m
  unfold answered?
  generalize m.step.1 = result at dealt ⊢
  generalize later : m.step.2 = next at dealt
  cases dealt with
  | none calls told => simpa [invocation?_none, later, calls] using told
  | answered _ calls notes _ answers told =>
    rw [invocation?_some (later ▸ calls)]
    refine ⟨calls, fun _ same => Option.some.inj same ▸ notes, ?_⟩
    rintro _ ⟨⟩
    rwa [Option.filter_some, if_pos answers]
  | refused _ calls notes _ refuses told =>
    rw [invocation?_some (later ▸ calls), Option.filter_some, refuses]
    exact ⟨calls, fun _ same => Option.some.inj same ▸ notes,
      fun report ended => (told report ended).2⟩

/-- A step behind which a program goes on without giving the host its turn calls no command. -/
theorem command_stops {report : StepReport} (stepped : m.step = (.ok report, m'))
    (undone : report.done = false) (quiet : report.acted = false) {call : HostCall}
    (called : m.invocation? = some call) : call.role = .sensor := by
  have dealt := step_deals m
  have later : m.step.2 = m' := congrArg Prod.snd stepped
  rw [stepped] at dealt
  cases dealt with
  | none calls => simp [invocation?_none (later ▸ calls)] at called
  | @answered made _ _ calls _ named _ told =>
    obtain rfl : made = call := by simpa [invocation?_some (later ▸ calls)] using called
    obtain ⟨_ | _, name, args, left⟩ := made
    · have action : report.action = name := told.1
      have unnamed : name.isNull = true := by simpa [StepReport.acted, action] using quiet
      cases name with
      | text => cases unnamed
      | _ => cases named
    · rfl
  | refused _ _ _ _ _ ended => simp [(ended report rfl).1] at undone

/-- The sensor that a report names was answered. -/
theorem queried?_eq (m : Machine) : m.queried? = m.answered?.bind HostCall.sensor? := by
  have dealt := step_deals m
  unfold queried? answered?
  generalize m.step.1 = result at dealt ⊢
  generalize later : m.step.2 = next at dealt
  cases dealt with
  | @none result _ calls told =>
    rw [invocation?_none (later ▸ calls)]
    cases result with
    | error => rfl
    | ok report => simp [(told report rfl).2.2, Scalar.isNull]
  | @answered call _ _ calls _ named answers told =>
    rw [invocation?_some (later ▸ calls), Option.filter_some, if_pos answers]
    obtain ⟨_ | _, name, args, left⟩ := call
    · simp [told.2.2, Scalar.isNull, HostCall.sensor?]
    · cases name with
      | text => simp [told.2.2, Scalar.isNull, HostCall.sensor?]
      | _ => cases named
  | @refused call result _ calls _ _ refuses told =>
    rw [invocation?_some (later ▸ calls), Option.filter_some, refuses]
    cases result with
    | error => rfl
    | ok report => simp [(told report rfl).2.2.2, Scalar.isNull]

/-- The action of a report, with its arguments. -/
def actionOf (report : StepReport) : Name × List Value := (report.action, report.actionArgs)

/-- A report that names a command tells of one that was answered. -/
theorem acted_eq {report : StepReport} (stepped : m.step.1 = .ok report) :
    (if report.acted then some (actionOf report) else none) =
      m.answered?.bind HostCall.command? := by
  have dealt := step_deals m
  unfold answered?
  rw [stepped] at dealt
  generalize later : m.step.2 = next at dealt
  cases dealt with
  | none calls told =>
    simp [invocation?_none (later ▸ calls), StepReport.acted, (told report rfl).1, Scalar.isNull]
  | @answered call _ _ calls _ named answers told =>
    rw [invocation?_some (later ▸ calls), Option.filter_some, if_pos answers]
    obtain ⟨_ | _, name, args, left⟩ := call
    · cases name with
      | text =>
        simp [StepReport.acted, actionOf, told.1, told.2.1, Scalar.isNull, HostCall.command?]
      | _ => cases named
    · simp [StepReport.acted, told.1, Scalar.isNull, HostCall.command?]
  | refused _ calls _ _ refuses told =>
    rw [invocation?_some (later ▸ calls), Option.filter_some, refuses]
    simp [StepReport.acted, (told report rfl).2.1, Scalar.isNull]

end Machine

end Stepwise
