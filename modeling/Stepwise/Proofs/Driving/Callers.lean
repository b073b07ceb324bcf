import Stepwise.Proofs.Driving.Stops
import Stepwise.Proofs.Walker.Callers

/-!
Calls and the variables of their callers. On both engines a call that returns has bound no global
variable and none of its callers, whatever it did with names of its own, unless a handler asked to bind
a global one: `calls_rebind_nothing`.
-/
namespace Stepwise

namespace Machine

variable {m : Machine} {i : Instruction} {count : Nat}

/-- A machine with more calls open and the same variables outside of these. -/
structure Deeper (m m' : Machine) : Prop where
  globals : m'.globals = m.globals
  frames : m.frames <:+ m'.frames

/-- A machine that is still within the call under way, if there is one: its callers wait with the
variables they had, and the global variables are the same. -/
def Inward (m m' : Machine) : Prop :=
  m.frames ≠ [] → m'.frames ≠ [] ∧ m'.globals = m.globals ∧ m.frames.tail <:+ m'.frames.tail

theorem opening_deeper : Opening Deeper where
  trans _ _ _ first second := ⟨second.globals.trans first.globals, first.frames.trans second.frames⟩
  stack _ _ := ⟨rfl, List.suffix_rfl⟩
  world _ _ _ := ⟨rfl, List.suffix_rfl⟩
  opened _ _ frame := ⟨rfl, List.suffix_cons frame _⟩

theorem advancing_inward : Advancing Inward where
  trans m m' m'' first second inside := by
    obtain ⟨under, globals, callers⟩ := first inside
    obtain ⟨under', globals', callers'⟩ := second under
    exact ⟨under', globals'.trans globals, callers.trans callers'⟩
  stack _ _ inside := ⟨inside, rfl, List.suffix_rfl⟩
  world _ _ _ inside := ⟨inside, rfl, List.suffix_rfl⟩
  opened m _ frame _ := ⟨List.cons_ne_nil _ _, rfl, List.tail_suffix _⟩
  locals m frame callers locals frames _ :=
    ⟨List.cons_ne_nil _ _, rfl, by rw [frames]; exact List.suffix_rfl⟩
  global m globals outside inside := absurd outside inside
  moved _ _ _ inside := ⟨inside, rfl, List.suffix_rfl⟩
  halted _ inside := ⟨inside, rfl, List.suffix_rfl⟩

/-- A call of the host binds no variable unless the handler asks for it. -/
theorem execute_call_keeps (calls : i.op = .call) (unbinding : ∀ call,
    (execute i m).2.host.calls = call :: m.host.calls → m.toEngine.binds call.name call.args = false) :
    (execute i m).2.globals = m.globals ∧ (execute i m).2.frames = m.frames := by
  rcases execute_call calls m with ⟨failure, stack, early⟩ | ⟨name, args, stack, made⟩
  · rw [early]
    exact ⟨rfl, rfl⟩
  have engine : ∃ stack, (execute i m).2 =
      { m with toEngine := (m.toEngine.call name args).2, stack } := by
    rw [made, Act.bind_apply]
    unfold outside
    dsimp only
    rcases m.toEngine.call name args with ⟨failure | v, engine⟩
    · exact ⟨stack, rfl⟩
    · exact ⟨v :: stack, rfl⟩
  obtain ⟨stack, next⟩ := engine
  rw [next] at unbinding ⊢
  refine ⟨?_, rfl⟩
  cases found : m.host.find? name with
  | none => 
    exact Engine.globals_call m.toEngine name args (by simp [Engine.binds, found])
  | some entry =>
    obtain ⟨role, bound⟩ := entry
    have noted := congrArg Host.calls (Engine.call_bound found args).2.1
    exact Engine.globals_call m.toEngine name args (unbinding _ (noted.trans (Host.note_calls ..)))

/-- An instruction within a call binds variables of that call at most, and leaves at most that call. -/
theorem execute_inward (inside : m.frames ≠ []) (unbinding : ∀ call,
    (execute i m).2.host.calls = call :: m.host.calls → m.toEngine.binds call.name call.args = false) :
    (execute i m).2.globals = m.globals ∧ m.frames.tail <:+ (execute i m).2.frames := by
  by_cases calls : i.op = .call
  · obtain ⟨globals, frames⟩ := execute_call_keeps calls unbinding
    exact ⟨globals, frames ▸ List.tail_suffix _⟩
  by_cases returns : i.op = .ret
  · obtain ⟨frame, callers, frames⟩ := List.exists_cons_of_ne_nil inside
    obtain ⟨op, operand, line⟩ := i
    cases returns
    show (leave m).2.globals = m.globals ∧ m.frames.tail <:+ (leave m).2.frames
    cases top : m.stack with
    | nil =>
      unfold leave
      rw [Act.bind_apply, pop_nil top]
      exact ⟨rfl, List.tail_suffix _⟩
    | cons v rest =>
      rw [leave_inner top frames, frames]
      exact ⟨rfl, List.suffix_rfl⟩
  · obtain ⟨-, globals, callers⟩ :=
      advancing_inward.execute returns (fun same => absurd same calls) m inside
    exact ⟨globals, callers.trans (List.tail_suffix _)⟩

/-- A step leaves the variables alone, or it executes an instruction that decides about them. -/
theorem step_variables (m : Machine) :
    (m.step.2.globals = m.globals ∧ m.step.2.frames = m.frames) ∨
      ∃ i, m.current? = some i ∧ m.step.2.globals = (execute i (m.fetched i)).2.globals ∧
        m.step.2.frames = (execute i (m.fetched i)).2.frames ∧
        m.step.2.host = (execute i (m.fetched i)).2.host := by
  have stepped := steps m
  generalize m.step.1 = result at stepped
  generalize m.step.2 = next at stepped ⊢
  cases stepped with
  | ended | lost | exhausted | behind | nowhere => exact .inl ⟨rfl, rfl⟩
  | @executed i _ _ current ran | @faulted i _ _ _ current ran | @broken i _ _ _ current ran =>
    refine .inr ⟨i, current, ?_⟩
    rw [ran]
    exact ⟨rfl, rfl, rfl⟩

theorem step_deeper (current : m.current? = some i) (calls : i.op.isInvoking = true) :
    Deeper m m.step.2 := by
  rcases step_variables m with ⟨globals, frames⟩ | ⟨j, current', globals, frames, -⟩
  · exact ⟨globals, frames ▸ List.suffix_rfl⟩
  · cases current.symm.trans current'
    have deeper := opening_deeper.execute calls (m.fetched i)
    exact ⟨globals.trans deeper.globals, frames ▸ deeper.frames⟩

/-- No handler that the step calls asks to bind a global variable. -/
def BindsNothing (m : Machine) : Prop :=
  ∀ call, m.invocation? = some call → m.toEngine.binds call.name call.args = false

instance (m : Machine) : Decidable m.BindsNothing :=
  decidable_of_iff (m.invocation?.all (fun call => !m.toEngine.binds call.name call.args) =
    true) (by
    unfold BindsNothing
    cases m.invocation? <;> simp)

theorem step_inward (unbinding : m.BindsNothing) (inside : m.frames ≠ []) :
    m.step.2.globals = m.globals ∧ m.frames.tail <:+ m.step.2.frames := by
  rcases step_variables m with ⟨globals, frames⟩ | ⟨i, -, globals, frames, host⟩
  · exact ⟨globals, frames ▸ List.tail_suffix _⟩
  · have executed := execute_inward (i := i) (m := m.fetched i) inside fun call noted =>
      unbinding call (invocation?_some ((congrArg Host.calls host).trans noted))
    exact ⟨globals.trans executed.1, frames ▸ executed.2⟩

/-- The step from a machine makes a call that is under way behind it for `count` steps, and the step
after these returns from it. -/
structure Returns (m : Machine) (count : Nat) : Prop where
  calls : ∃ i, m.current? = some i ∧ i.op.isInvoking = true
  under : ∀ k < count, m.frames.length < (m.behind (k + 1)).frames.length
  back : (m.behind (count + 1)).frames.length ≤ m.frames.length

theorem Returns.deeper (returns : m.Returns count)
    (unbinding : ∀ k ≤ count, (m.behind k).BindsNothing) {k : Nat} (within : k ≤ count) :
    Deeper m (m.behind (k + 1)) := by
  induction k with
  | zero =>
    obtain ⟨i, current, calls⟩ := returns.calls
    exact step_deeper current calls
  | succ k ih =>
    have deeper := ih (by omega)
    have under := returns.under k (by omega)
    obtain ⟨frame, callers, frames⟩ := List.exists_cons_of_length_pos (Nat.zero_lt_of_lt under)
    have waiting : m.frames <:+ callers := by
      rcases List.suffix_cons_iff.mp (frames ▸ deeper.frames) with same | waiting
      · rw [frames, ← same] at under
        exact absurd under (Nat.lt_irrefl _)
      · exact waiting
    have inside := step_inward (unbinding (k + 1) within) (by rw [frames]; exact List.cons_ne_nil _ _)
    rw [behind_succ]
    refine ⟨inside.1.trans deeper.globals, waiting.trans ?_⟩
    rw [frames] at inside
    exact inside.2

/-- A call that returns leaves the variables of its callers as they were, and the global ones. -/
theorem Returns.keeps (returns : m.Returns count)
    (unbinding : ∀ k ≤ count, (m.behind k).BindsNothing) :
    (m.behind (count + 1)).globals = m.globals ∧ (m.behind (count + 1)).frames = m.frames := by
  have deeper := returns.deeper unbinding (Nat.le_refl _)
  exact ⟨deeper.globals, (deeper.frames.eq_of_length_le returns.back).symm⟩

theorem Returns.keeps_scheduled (returns : m.Returns count)
    (unbinding : ∀ k ≤ count, (m.behind k).BindsNothing) {orders : List Order} {last : Machine}
    (taken : (scheduled obey stepsOf orders m)[count]? = some last) :
    last.step.2.globals = m.globals ∧ last.step.2.frames = m.frames := by
  have passed := congrArg (·[count]?)
    ((leads_scheduled leads_obey orders m).passes blind.semiconj)
  obtain ⟨short, -⟩ := List.getElem?_eq_some_iff.mp taken
  simp only [List.getElem?_map, taken, Option.map_some, List.getElem?_range short,
    Option.some.injEq] at passed
  have same : last.step.2.inner = (m.behind (count + 1)).inner :=
    passed.trans (blind.semiconj.iterate_right (count + 1) m).symm
  obtain ⟨globals, frames⟩ := returns.keeps unbinding
  exact ⟨(congrArg (fun k => k.globals) same).trans globals,
    (congrArg Machine.frames same).trans frames⟩

end Machine

/-- Calls bind no variables of their callers. Where a call of a function, a constructor or a method
returns, the global variables and the variables of all calls that were under way are what they were when
it was made, provided that no handler asks to bind a global one in between: on the machine behind the
step that returns, however the machine is driven there, and on the walker behind the call. -/
theorem calls_rebind_nothing :
    (∀ (m : Machine) (count : Nat), m.Returns count → (∀ k ≤ count, (m.behind k).BindsNothing) →
      ((m.behind (count + 1)).globals = m.globals ∧ (m.behind (count + 1)).frames = m.frames) ∧
      ∀ (orders : List Machine.Order) (last : Machine),
        (scheduled Machine.obey Machine.stepsOf orders m)[count]? = some last →
        last.step.2.globals = m.globals ∧ last.step.2.frames = m.frames) ∧
    ∀ (invoke : Walker.Invoke) (callee : Walker.Callee) (args : List Value) (w w' : Walker) (v : Value),
      Walker.Calls invoke → Walker.dispatch invoke callee args w = (.ok v, w') →
      Walker.NoneBinds (Walker.dispatch invoke callee args) w →
      w'.globals = w.globals ∧ w'.locals = w.locals ∧ w'.frames = w.frames :=
  ⟨fun _ _ returns unbinding =>
      ⟨returns.keeps unbinding, fun _ _ taken => returns.keeps_scheduled unbinding taken⟩,
    fun _ _ _ _ _ _ calls returned unbinding => calls.keeps returned unbinding⟩

/-- A function whose parameter and variables have the names of the caller's and of global ones. -/
def shadowing : String :=
  "def tally(n):\n    for i in range(1):\n        total = look()\n    return total\n" ++
    "def visit(i):\n    total = i\n    return tally(i)\ni = 7\ntotal = visit(i)\n"

/-- A host with a sensor that counts its calls. -/
def looking : Host := Host.register {} .sensor (.text "look") .counting

/-- On the machine, `tally` is called from within `visit`; on the walker, `visit` from the main program. -/
theorem calls_rebind_nothing_shadowing : ∃ program code loaded,
    Program.parse shadowing unnamedSource = .ok program ∧
      program.compile unnamedSource = .ok code ∧
      Walker.load { Walker.new {} with host := looking } program = .ok loaded ∧
      (let m := (Machine.load { Machine.new {} with host := looking } code).behind 8
       m.Returns 25 ∧ (∀ k ≤ 25, (m.behind k).BindsNothing) ∧
        (m.behind 25).frames.map (fun frame => frame.locals.keys) =
          [[.text "n", .text "__for_end_0", .text "i", .text "total"], [.text "i", .text "total"]] ∧
        ((m.behind 26).globals = m.globals ∧ (m.behind 26).frames = m.frames) ∧
        ∃ last, (scheduled Machine.obey Machine.stepsOf [.step, .pause, .runAll] m)[25]? = some last ∧
          last.step.2.globals = m.globals ∧ last.step.2.frames = m.frames) ∧
      ∃ v next,
        Walker.dispatch Walker.invokeTop (.plain (.text "visit")) [.int 3] loaded.step.2 =
          (.ok v, next) ∧
        Walker.NoneBinds (Walker.dispatch Walker.invokeTop (.plain (.text "visit")) [.int 3])
          loaded.step.2 ∧
        next.globals = loaded.step.2.globals ∧ next.locals = loaded.step.2.locals ∧
        next.frames = loaded.step.2.frames := by
  have ran : (Machine.codeOf shadowing).toOption.any (fun code =>
      let m := (Machine.load { Machine.new {} with host := looking } code).behind 8
      m.current?.any (fun i => i.op.isInvoking) &&
      ((List.range 25).all fun k => m.frames.length < (m.behind (k + 1)).frames.length) &&
      (m.behind 26).frames.length ≤ m.frames.length &&
      ((List.range 26).all fun k => (m.behind k).BindsNothing) &&
      (m.behind 25).frames.map (fun frame => frame.locals.keys) =
        [[.text "n", .text "__for_end_0", .text "i", .text "total"], [.text "i", .text "total"]] &&
      (scheduled Machine.obey Machine.stepsOf [.step, .pause, .runAll] m)[25]?.isSome) = true := by
    rw [Machine.codeOf_eq_ofChars shadowing (append_eq_ofList rfl rfl)]
    decide +kernel
  have walked : (Walker.reading { Walker.new {} with host := looking } shadowing).toOption.any
      (fun loaded =>
        let visit := Walker.dispatch Walker.invokeTop (.plain (.text "visit")) [.int 3]
        (visit loaded.step.2).1.isOk && (visit loaded.step.2.barring).1.isOk) = true := by
    rw [Walker.reading_eq_ofChars _ shadowing (append_eq_ofList rfl rfl)]
    decide +kernel
  obtain ⟨program, code, parsed, compiled, machine⟩ := Machine.exists_codeOf ran
  obtain ⟨other, loaded, reparsed, done, walker⟩ := Walker.exists_reading walked
  obtain rfl : program = other := Except.ok.inj (parsed.symm.trans reparsed)
  refine ⟨program, code, loaded, parsed, compiled, done, ?_, ?_⟩
  · dsimp only at machine ⊢
    generalize (Machine.load { Machine.new {} with host := looking } code).behind 8 = m at machine ⊢
    simp only [Bool.and_eq_true, decide_eq_true_eq, List.all_eq_true, List.mem_range,
      Option.any_eq_true, Option.isSome_iff_exists] at machine
    obtain ⟨⟨⟨⟨⟨calls, under⟩, back⟩, unbinding⟩, bound⟩, last, taken⟩ := machine
    have returns : m.Returns 25 := ⟨calls, under, back⟩
    have unbinding : ∀ k ≤ 25, (m.behind k).BindsNothing := fun k le =>
      unbinding k (Nat.lt_succ_of_le le)
    have keeps := calls_rebind_nothing.1 m 25 returns unbinding
    simp only [Nat.reduceAdd] at keeps
    exact ⟨returns, unbinding, bound, keeps.1, last, taken, keeps.2 _ last taken⟩
  · dsimp only at walker
    simp only [Bool.and_eq_true] at walker
    obtain ⟨answers, free⟩ := walker
    rcases returned : Walker.dispatch Walker.invokeTop (.plain (.text "visit")) [.int 3]
      loaded.step.2 with ⟨failure | v, next⟩
    · rw [returned] at answers
      cases answers
    · have unbinding : Walker.NoneBinds
          (Walker.dispatch Walker.invokeTop (.plain (.text "visit")) [.int 3]) loaded.step.2 := by
        intro refused
        rw [refused] at free
        cases free
      exact ⟨v, next, rfl, unbinding,
        calls_rebind_nothing.2 _ _ _ _ _ v .main returned unbinding⟩

end Stepwise
