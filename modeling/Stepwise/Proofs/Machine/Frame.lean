import Stepwise.Proofs.Machine.Steps
import Stepwise.Proofs.Renaming.Builtins
import Stepwise.Proofs.Stack.Effect

/-!
What an instruction leaves alone, however it ends: with an answer, with a fault or with a failure of
the host. Instructions are gone through once for relations between machines that do not look at
certain parts of them (`Binding.execute`, `Opening.execute`, `Advancing.execute`, `Aloof.execute`);
`spares_execute` says what no instruction touches.
-/
namespace Stepwise

namespace Act

variable {σ α β : Type} {R : σ → σ → Prop} {s : σ}

/-- However a computation ends, the state it reaches is related to the one it began in. -/
def Keeps (R : σ → σ → Prop) (x : Act σ α) : Prop := ∀ s, R s (x s).2

theorem bind_state (x : Act σ α) (f : α → Act σ β) (s : σ) :
    ((x >>= f) s).2 = (x s).2 ∨ ∃ a, x s = (.ok a, (x s).2) ∧ ((x >>= f) s).2 = (f a (x s).2).2 := by
  rw [bind_apply]
  rcases x s with ⟨_ | a, s'⟩
  · exact .inl rfl
  · exact .inr ⟨a, rfl, rfl⟩

theorem Keeps.bind (trans : ∀ a b c, R a b → R b c → R a c) {x : Act σ α} {f : α → Act σ β}
    (first : x.Keeps R) (rest : ∀ a, (f a).Keeps R) : (x >>= f).Keeps R := by
  intro s
  rcases bind_state x f s with early | ⟨a, -, late⟩
  · exact early ▸ first s
  · exact late ▸ trans _ _ _ (first s) (rest a _)

theorem Keeps.ite {c : Prop} [Decidable c] {x y : Act σ α} (yes : x.Keeps R) (no : y.Keeps R) :
    (if c then x else y).Keeps R := by
  split
  · exact yes
  · exact no

end Act

/-- Opcodes that call a part of the program: a function, a constructor or a method. -/
def Opcode.isInvoking : Opcode → Bool
  | .callUser | .new | .methodCall => true
  | _ => false

/-- The same handlers under the same names, with more calls noted. -/
structure Host.Grows (host later : Host) : Prop where
  commands : ∀ name : Name, (later.commands.get? name).map Bound.handler =
    (host.commands.get? name).map Bound.handler
  sensors : ∀ name : Name, (later.sensors.get? name).map Bound.handler =
    (host.sensors.get? name).map Bound.handler
  calls : host.calls <:+ later.calls

/-- The lines that were printed stay, and random numbers come from the same source. -/
structure World.Extends (world later : World) : Prop where
  output : world.output.toList <+: later.output.toList
  numbers : later.numbers = world.numbers

/-- What a call that leaves the program cannot touch in an engine. -/
structure Engine.Spares (engine later : Engine) : Prop where
  stepCount : later.stepCount = engine.stepCount
  maxSteps : later.maxSteps = engine.maxSteps
  maxCallDepth : later.maxCallDepth = engine.maxCallDepth
  world : engine.world.Extends later.world
  host : engine.host.Grows later.host

/-- What an engine keeps as long as no handler of the host is called. -/
structure Engine.Quiet (engine later : Engine) : Prop extends engine.Spares later where
  noted : later.host = engine.host
  report : later.report = engine.report

namespace Host

variable {host : Host}

theorem Grows.refl (host : Host) : host.Grows host :=
  ⟨fun _ => rfl, fun _ => rfl, List.suffix_refl _⟩

theorem Grows.trans {first second third : Host} (early : first.Grows second)
    (late : second.Grows third) : first.Grows third :=
  ⟨fun name => (late.commands name).trans (early.commands name),
    fun name => (late.sensors name).trans (early.sensors name), early.calls.trans late.calls⟩

/-- Binding a name to a handler it has already. -/
theorem handler_put {bindings : Bindings Bound} {name : Name} {bound bound' : Bound}
    (found : bindings.get? name = some bound) (same : bound'.handler = bound.handler)
    (other : Name) : ((bindings.put name bound').get? other).map Bound.handler =
      (bindings.get? other).map Bound.handler := by
  rw [Bindings.get?_put]
  split
  next key => rw [Bindings.get?_congr key, found, Option.map_some, Option.map_some, same]
  next => rfl

theorem grows_note {role : Role} {name : Name} {bound : Bound}
    (found : host.find? name = some (role, bound)) (args left : List Value) :
    host.Grows (host.note role name bound args left) := by
  unfold find? at found
  split at found
  next command =>
    cases found
    exact ⟨handler_put command rfl, fun _ => rfl, List.suffix_cons ..⟩
  next =>
    obtain ⟨_, sensor, same⟩ := Option.map_eq_some_iff.mp found
    cases same
    exact ⟨fun _ => rfl, handler_put sensor rfl, List.suffix_cons ..⟩

end Host

namespace World.Extends

theorem refl (world : World) : world.Extends world := ⟨List.prefix_rfl, rfl⟩

theorem trans {first second third : World} (early : first.Extends second)
    (late : second.Extends third) : first.Extends third :=
  ⟨early.output.trans late.output, late.numbers.trans early.numbers⟩

theorem withHeap (world : World) (heap : Heap) : world.Extends (world.withHeap heap) :=
  ⟨List.prefix_rfl, rfl⟩

theorem draw (world : World) (bound : Nat) : world.Extends (world.draw bound).2 :=
  ⟨List.prefix_rfl, rfl⟩

theorem print (world : World) (line : String) : world.Extends (world.print line) := by
  refine ⟨?_, rfl⟩
  rw [World.print, Array.toList_push]
  exact List.prefix_append _ _

end World.Extends

namespace Builtin

theorem world_of_reading {f : Heap → List Value → Except Failure Value} {world world' : World}
    {args : List Value} {v : Value} (ran : reading f world args = .ok (v, world')) :
    world' = world := by
  obtain ⟨_, _, done⟩ := bind_eq_ok.mp ran
  cases done
  rfl

theorem extends_of_changing {f : Prelude.Changing} {world world' : World} {args : List Value}
    {v : Value} (ran : changing f world args = .ok (v, world')) : world.Extends world' := by
  obtain ⟨_, _, done⟩ := bind_eq_ok.mp ran
  cases done
  exact .withHeap ..

theorem extends_of_random {world world' : World} {args : List Value} {v : Value}
    (ran : Prelude.random world args = .ok (v, world')) : world.Extends world' := by
  obtain ⟨_, _, done⟩ := bind_eq_ok.mp ran
  have drawn : (world.draw (pow2 53)).2 = world' := congrArg Prod.snd (Except.ok.inj done)
  exact drawn ▸ .draw ..

theorem extends_of_randint {world world' : World} {args : List Value} {v : Value}
    (ran : Prelude.randint world args = .ok (v, world')) : world.Extends world' := by
  obtain ⟨_, _, done⟩ := bind_eq_ok.mp ran
  split at done
  · split at done
    · cases done
    next low high _ _ _ =>
      have drawn : (world.draw (high - low + 1).toNat).2 = world' :=
        congrArg Prod.snd (Except.ok.inj done)
      exact drawn ▸ .draw ..
  · cases done

/-- A builtin function can print a line, and takes none back. -/
theorem extends_of_run (b : Builtin) {world world' : World} {args : List Value} {v : Value}
    (ran : b.run world args = .ok (v, world')) : world.Extends world' := by
  cases b
  case print =>
    obtain ⟨line, -, done⟩ := bind_eq_ok.mp ran
    cases done
    exact .print ..
  case random => exact extends_of_random ran
  case randint => exact extends_of_randint ran
  case append | pop | insert | sort | reverse | clear | split => exact extends_of_changing ran
  all_goals exact world_of_reading ran ▸ .refl _

end Builtin

namespace Engine

variable {engine : Engine}

theorem Spares.refl (engine : Engine) : engine.Spares engine :=
  ⟨rfl, rfl, rfl, .refl _, .refl _⟩

theorem Spares.trans {first second third : Engine} (early : first.Spares second)
    (late : second.Spares third) : first.Spares third :=
  ⟨late.stepCount.trans early.stepCount, late.maxSteps.trans early.maxSteps,
    late.maxCallDepth.trans early.maxCallDepth, early.world.trans late.world,
    early.host.trans late.host⟩

theorem Quiet.refl (engine : Engine) : engine.Quiet engine := ⟨.refl engine, rfl, rfl⟩

theorem Quiet.trans {first second third : Engine} (early : first.Quiet second)
    (late : second.Quiet third) : first.Quiet third :=
  ⟨early.toSpares.trans late.toSpares, late.noted.trans early.noted, late.report.trans early.report⟩

theorem quiet_grant (engine : Engine) (request : Request) : engine.Quiet (engine.grant request) := by
  cases request with
  | pause =>
    show engine.Quiet engine.pause
    unfold pause
    split
    · exact ⟨⟨rfl, rfl, rfl, .refl _, .refl _⟩, rfl, rfl⟩
    · exact .refl engine
  | setGlobal => exact ⟨⟨rfl, rfl, rfl, .refl _, .refl _⟩, rfl, rfl⟩

theorem quiet_grants (engine : Engine) (requests : List Request) :
    engine.Quiet (requests.foldl grant engine) := by
  induction requests generalizing engine with
  | nil => exact .refl engine
  | cons request requests ih => exact (quiet_grant engine request).trans (ih _)

/-- All that a builtin function can touch of an engine is the world. -/
theorem callBuiltin_world (engine : Engine) (name : Name) (args : List Value) :
    ∃ world : World, (engine.callBuiltin name args).2 = { engine with world } ∧
      engine.world.Extends world := by
  unfold callBuiltin Builtin.call
  split
  next v world called =>
    split at called
    next b _ => exact ⟨world, rfl, b.extends_of_run called⟩
    next => cases called
  next => exact ⟨engine.world, rfl, .refl _⟩

theorem quiet_callBuiltin (engine : Engine) (name : Name) (args : List Value) :
    engine.Quiet (engine.callBuiltin name args).2 := by
  obtain ⟨world, called, more⟩ := callBuiltin_world engine name args
  rw [called]
  exact ⟨⟨rfl, rfl, rfl, more, .refl _⟩, rfl, rfl⟩

theorem spares_callHandler {role : Role} {name : Name} {bound : Bound}
    (found : engine.host.find? name = some (role, bound)) (args : List Value) :
    engine.Spares (engine.callHandler role name bound args).2 := by
  have noted : engine.Spares (engine.replied role name bound args
      (bound.handler bound.earlier args engine.heap)) :=
    ⟨rfl, rfl, rfl, .withHeap .., Host.grows_note found ..⟩
  have granted := noted.trans
    (quiet_grants _ (bound.handler bound.earlier args engine.heap).requests).toSpares
  unfold callHandler
  dsimp only
  split
  · exact granted.trans ⟨rfl, rfl, rfl, .refl _, .refl _⟩
  · exact granted

theorem spares_call (engine : Engine) (name : Name) (args : List Value) :
    engine.Spares (engine.call name args).2 := by
  unfold call
  split
  next found => exact spares_callHandler found args
  next => exact (quiet_callBuiltin ..).toSpares

end Engine

namespace Machine

/-- A relation between machines that does not look at what instructions work on: not at the stack or
the heap, nor at what is printed. -/
structure Mild (R : Machine → Machine → Prop) : Prop where
  trans : ∀ m m' m'' : Machine, R m m' → R m' m'' → R m m''
  stack : ∀ (m : Machine) (stack : List Value), R m { m with stack }
  world : ∀ (m : Machine) (world : World), m.world.Extends world → R m { m with world }

/-- A relation that is kept where a call is opened. -/
structure Opening (R : Machine → Machine → Prop) : Prop extends Mild R where
  opened : ∀ (m : Machine) (pc : Int) (frame : CallFrame),
    R m { m with pc, frames := frame :: m.frames }

/-- A relation that does not look at the variables that a program can bind. -/
structure Binding (R : Machine → Machine → Prop) : Prop extends Mild R where
  locals : ∀ (m : Machine) (frame : CallFrame) (callers : List CallFrame) (locals : Bindings Value),
    m.frames = frame :: callers → R m { m with frames := { frame with locals } :: callers }
  global : ∀ (m : Machine) (globals : Bindings Value), m.frames = [] → R m { m with globals }

/-- A relation that is kept wherever an instruction leads that does not return. -/
structure Advancing (R : Machine → Machine → Prop) : Prop extends Binding R, Opening R where
  moved : ∀ (m : Machine) (pc : Int) (classes : Bindings (Bindings Int)),
    R m { m with pc, classes }
  halted : ∀ m : Machine, R m { m with
    pc := m.pc - 1, status := .completed, report := { m.report with done := true } }

/-- A relation between machines that does not look at values: not at the stack, at variables or at the
heap. -/
structure Lenient (R : Machine → Machine → Prop) : Prop extends Binding R where
  inside : ∀ (m : Machine) (engine : Engine), m.toEngine.Quiet engine →
    R m { m with toEngine := engine }
  world := fun m world more =>
    inside m { m.toEngine with world } ⟨⟨rfl, rfl, rfl, more, .refl _⟩, rfl, rfl⟩
  global := fun m globals _ =>
    inside m { m.toEngine with globals } ⟨⟨rfl, rfl, rfl, .refl _, .refl _⟩, rfl, rfl⟩

/-- A relation that does not look at the place in the program either. -/
structure Aloof (R : Machine → Machine → Prop) : Prop extends Lenient R, Advancing R where
  control : ∀ (m : Machine) (pc : Int) (frames : List CallFrame)
    (classes : Bindings (Bindings Int)) (status : Status) (done : Bool),
    R m { m with pc, frames, classes, status, report := { m.report with done } }
  opened := fun m pc frame => control m pc (frame :: m.frames) m.classes m.status m.report.done
  moved := fun m pc classes => control m pc m.frames classes m.status m.report.done
  halted := fun m => control m (m.pc - 1) m.frames m.classes .completed true

/-- A relation that looks at the place in the program, but not at what the host does. -/
structure Tolerant (R : Machine → Machine → Prop) : Prop extends Lenient R where
  outside : ∀ (m : Machine) (engine : Engine), m.toEngine.Spares engine →
    R m { m with toEngine := engine }
  inside := fun m engine quiet => outside m engine quiet.toSpares

theorem pop_nil {m : Machine} (empty : m.stack = []) :
    pop m = (.error (.fault (.running underflow none)), m) := by
  simp only [pop, Act.bind_apply, Act.get_apply, empty]
  rfl

namespace Mild

variable {R : Machine → Machine → Prop} {α : Type} (mild : Mild R)

include mild

theorem refl (m : Machine) : R m m := mild.stack m m.stack

theorem bind {β : Type} {x : Action α} {f : α → Action β} (first : x.Keeps R)
    (rest : ∀ a, (f a).Keeps R) : (x >>= f).Keeps R :=
  .bind mild.trans first rest

theorem pure (a : α) : (Pure.pure a : Action α).Keeps R := fun m => mild.refl m

theorem throw (failure : Failure) : (throw failure : Action α).Keeps R := fun m => mild.refl m

theorem lift (x : Except Failure α) : (liftM x : Action α).Keeps R := fun m => mild.refl m

theorem get : (get : Action Machine).Keeps R := fun m => mild.refl m

theorem getHeap : getHeap.Keeps R := fun m => mild.refl m

theorem setHeap (heap : Heap) : (setHeap heap).Keeps R := fun m =>
  mild.world m (m.world.withHeap heap) (.withHeap ..)

theorem push (v : Value) : (push v).Keeps R := fun m => mild.stack m _

theorem pushAll (values : List Value) : (pushAll values).Keeps R := fun m => mild.stack m _

theorem pop : pop.Keeps R := by
  intro m
  cases top : m.stack with
  | nil =>
    rw [pop_nil top]
    exact mild.refl m
  | cons v rest =>
    rw [pop_cons top]
    exact mild.stack m rest

theorem peek : peek.Keeps R := by
  refine mild.bind mild.get fun m => ?_
  split
  · exact mild.throw _
  · exact mild.pure _

theorem take (count : Int) : (take count).Keeps R := by
  intro m
  unfold Machine.take
  rw [Act.bind_apply, Act.get_apply]
  dsimp only
  split
  · exact mild.refl m
  · exact mild.stack m _

theorem lookup (name : Name) : (lookup name).Keeps R := by
  refine mild.bind mild.get fun m => ?_
  split
  · exact mild.pure _
  · exact mild.throw _

theorem callBuiltin (name : Name) (args : List Value) :
    (Machine.outside fun engine => engine.callBuiltin name args).Keeps R := by
  intro m
  obtain ⟨world, called, more⟩ := Engine.callBuiltin_world m.toEngine name args
  show R m { m with toEngine := (m.toEngine.callBuiltin name args).2 }
  rw [called]
  exact mild.world m world more

theorem nameOf (i : Instruction) : (nameOf i).Keeps R := by
  unfold Machine.nameOf
  split
  · exact mild.pure _
  · exact mild.throw _

theorem addressOf (i : Instruction) : (addressOf i).Keeps R := by
  unfold Machine.addressOf
  split
  · exact mild.pure _
  · exact mild.throw _

theorem calleeOf (i : Instruction) : (calleeOf i).Keeps R := by
  unfold Machine.calleeOf
  split
  · split
    · exact mild.pure _
    · exact mild.throw _
  · exact mild.throw _

theorem takeCounted (i : Instruction) (factor : Int) : (takeCounted i factor).Keeps R := by
  unfold Machine.takeCounted
  split
  · exact mild.take _
  · refine mild.bind mild.get fun m => .ite (mild.throw _) (.ite (mild.pure _) ?_)
    exact mild.throw _
  · exact mild.throw _

theorem pairUp (heap : Heap) (values : List Value) : (pairUp heap values).Keeps R := by
  induction values using pairUp.induct with
  | case1 => exact mild.pure _
  | case2 key v rest ih =>
    unfold Machine.pairUp
    exact mild.bind (mild.lift _) fun _ => mild.bind ih fun _ => mild.pure _
  | case3 => exact mild.throw _

theorem binary (op : BinaryOp) : (binary op).Keeps R :=
  mild.bind mild.pop fun _ => mild.bind mild.pop fun _ =>
    mild.bind mild.getHeap fun _ => mild.bind (mild.lift _) fun _ => mild.push _

end Mild

namespace Binding

variable {R : Machine → Machine → Prop} (binding : Binding R)

include binding

theorem store (name : Name) (v : Value) : (store name v).Keeps R := by
  intro m
  cases frames : m.frames with
  | nil =>
    rw [store_global name v frames]
    exact binding.global m _ frames
  | cons frame callers =>
    rw [store_local name v frames]
    exact binding.locals m frame callers _ frames

/-- An instruction that stays within a call changes values at most, however it ends. -/
theorem execute {i : Instruction} (plain : i.op.isPlain = true)
    (call : i.op = .call → (execute i).Keeps R) : (execute i).Keeps R := by
  obtain ⟨op, operand, line⟩ := i
  unfold Machine.execute
  cases op
  case push => exact binding.push _
  case pop => exact binding.bind binding.pop fun _ => binding.pure _
  case dup => exact binding.bind binding.peek fun _ => binding.push _
  case load =>
    exact binding.bind (binding.nameOf _) fun _ => binding.bind (binding.lookup _) fun _ =>
      binding.push _
  case store =>
    exact binding.bind binding.pop fun _ => binding.bind (binding.nameOf _) fun _ =>
      binding.store _ _
  case add | sub | mul | div | mod | floorDiv | pow | eq | neq | lt | gt | lte | gte | isIn =>
    exact binding.binary _
  case neg | repeatCount =>
    exact binding.bind binding.pop fun _ => binding.bind binding.getHeap fun _ =>
      binding.bind (binding.lift _) fun _ => binding.push _
  case not =>
    exact binding.bind binding.pop fun _ => binding.bind binding.getHeap fun _ =>
      binding.push _
  case nop => exact binding.pure _
  case rangeCheck =>
    refine binding.bind (binding.take _) fun bounds => ?_
    dsimp only
    split
    · exact binding.bind (binding.lift _) fun _ => binding.pushAll _
    · exact binding.pushAll _
  case call => exact call rfl
  case arrayCreate =>
    exact binding.bind (binding.takeCounted _ _) fun _ => binding.bind binding.getHeap fun _ =>
      binding.bind (binding.setHeap _) fun _ => binding.push _
  case arrayGet =>
    exact binding.bind binding.pop fun _ => binding.bind binding.pop fun _ =>
      binding.bind binding.getHeap fun _ => binding.bind (binding.lift _) fun _ => binding.push _
  case arraySet =>
    exact binding.bind binding.pop fun _ => binding.bind binding.pop fun _ =>
      binding.bind binding.pop fun _ => binding.bind binding.getHeap fun _ =>
      binding.bind (binding.lift _) fun _ => binding.setHeap _
  case slice =>
    refine binding.bind binding.pop fun _ => binding.bind binding.pop fun _ =>
      binding.bind binding.pop fun _ => binding.bind binding.getHeap fun _ =>
      binding.bind (binding.lift _) fun _ => ?_
    exact binding.bind (binding.setHeap _) fun _ => binding.push _
  case objectCreate =>
    refine binding.bind binding.getHeap fun _ => binding.bind (binding.takeCounted _ _) fun _ =>
      binding.bind (binding.pairUp _ _) fun _ => binding.bind binding.getHeap fun _ => ?_
    exact binding.bind (binding.setHeap _) fun _ => binding.push _
  case memberGet =>
    exact binding.bind binding.pop fun _ => binding.bind binding.pop fun _ =>
      binding.bind binding.getHeap fun _ => binding.bind (binding.lift _) fun _ =>
      binding.bind (binding.lift _) fun _ => binding.push _
  case memberSet =>
    exact binding.bind binding.pop fun _ => binding.bind binding.pop fun _ =>
      binding.bind binding.pop fun _ => binding.bind binding.getHeap fun _ =>
      binding.bind (binding.lift _) fun _ => binding.bind (binding.lift _) fun _ =>
      binding.setHeap _
  all_goals cases plain

end Binding

/-- So does an instruction that stays within a call where the host may be called. -/
theorem Tolerant.execute {R : Machine → Machine → Prop} (tolerant : Tolerant R) {i : Instruction}
    (plain : i.op.isPlain = true) : (execute i).Keeps R := by
  refine tolerant.toBinding.execute plain fun call => ?_
  unfold Machine.execute
  rw [call]
  refine tolerant.bind (tolerant.calleeOf _) fun _ => tolerant.bind (tolerant.take _) fun _ => ?_
  exact tolerant.bind (fun m => tolerant.outside m _ (Engine.spares_call ..)) fun _ => tolerant.push _

/-- What no instruction touches: the code, and all that was set up to watch and to limit the run. -/
structure Spares (m m' : Machine) : Prop where
  code : m'.code = m.code
  history : m'.history = m.history
  historyCap : m'.historyCap = m.historyCap
  evaluationSteps : m'.evaluationSteps = m.evaluationSteps
  breakpoints : m'.breakpoints = m.breakpoints
  watches : m'.watches = m.watches
  engine : m.toEngine.Spares m'.toEngine

theorem tolerant_spares : Tolerant Spares where
  trans _ _ _ first second :=
    { code := second.code.trans first.code
      history := second.history.trans first.history
      historyCap := second.historyCap.trans first.historyCap
      evaluationSteps := second.evaluationSteps.trans first.evaluationSteps
      breakpoints := second.breakpoints.trans first.breakpoints
      watches := second.watches.trans first.watches
      engine := first.engine.trans second.engine }
  stack _ _ := ⟨rfl, rfl, rfl, rfl, rfl, rfl, .refl _⟩
  locals _ _ _ _ _ := ⟨rfl, rfl, rfl, rfl, rfl, rfl, .refl _⟩
  outside _ _ spares := ⟨rfl, rfl, rfl, rfl, rfl, rfl, spares⟩

/-- Going elsewhere within the code. -/
theorem spares_control (m : Machine) (pc : Int) (frames : List CallFrame)
    (classes : Bindings (Bindings Int)) (stack : List Value) (status : Status)
    (report : StepReport) : Spares m { m with pc, frames, classes, stack, status, report } :=
  ⟨rfl, rfl, rfl, rfl, rfl, rfl, rfl, rfl, rfl, .refl _, .refl _⟩

namespace Opening

variable {R : Machine → Machine → Prop} (opening : Opening R)

include opening

theorem enter (name : String) (address argc : Int) (line : Option Int) (base : Int)
    (receiver : Option Value) : (enter name address argc line base receiver).Keeps R := by
  intro m
  rw [enter_eq]
  split
  · exact opening.refl m
  · exact opening.opened m address _

theorem instantiate (className : String) (argc : Int) (line : Option Int) :
    (instantiate className argc line).Keeps R := by
  refine opening.bind (opening.take _) fun args => opening.bind opening.get fun m => ?_
  split
  next => exact opening.throw _
  next =>
    split
    next =>
      refine .ite (opening.bind opening.getHeap fun _ => ?_) (opening.throw _)
      exact opening.bind (opening.setHeap _) fun _ => opening.push _
    next =>
      refine opening.bind opening.getHeap fun _ => opening.bind (opening.setHeap _) fun _ => ?_
      exact opening.bind opening.get fun _ => opening.bind (opening.pushAll _) fun _ =>
        opening.enter _ _ _ _ _ _

theorem callMethod (method : String) (argc : Int) (line : Option Int) :
    (callMethod method argc line).Keeps R := by
  refine opening.bind (opening.take _) fun taken => ?_
  split
  next => exact opening.throw _
  next receiver args =>
    refine opening.bind opening.get fun m => ?_
    split
    next =>
      dsimp only
      split
      next => exact opening.throw _
      next => exact opening.bind (opening.pushAll _) fun _ => opening.enter _ _ _ _ _ _
    next =>
      refine .ite ?_ (opening.throw _)
      exact opening.bind (opening.callBuiltin _ _) fun _ => opening.push _

/-- However an instruction ends that calls a part of the program. -/
theorem execute {i : Instruction} (calls : i.op.isInvoking = true) : (execute i).Keeps R := by
  obtain ⟨op, operand, line⟩ := i
  unfold Machine.execute
  cases op
  case callUser =>
    refine opening.bind (opening.calleeOf _) fun _ => opening.bind opening.get fun _ => ?_
    split
    · exact opening.throw _
    · exact opening.enter _ _ _ _ _ _
  case new => exact opening.bind (opening.calleeOf _) fun _ => opening.instantiate _ _ _
  case methodCall => exact opening.bind (opening.calleeOf _) fun _ => opening.callMethod _ _ _
  all_goals cases calls

end Opening

namespace Advancing

variable {R : Machine → Machine → Prop} (advancing : Advancing R)

include advancing

theorem jumpTo (address : Int) : (jumpTo address).Keeps R :=
  fun m => advancing.moved m address m.classes

/-- However an instruction ends that neither returns nor calls the host. -/
theorem execute {i : Instruction} (stays : i.op ≠ .ret)
    (call : i.op = .call → (execute i).Keeps R) : (execute i).Keeps R := by
  cases plain : i.op.isPlain with
  | true => exact advancing.toBinding.execute plain call
  | false =>
    obtain ⟨op, operand, line⟩ := i
    cases op
    case callUser | new | methodCall => exact advancing.toOpening.execute rfl
    case ret => exact absurd rfl stays
    all_goals unfold Machine.execute
    case jump => exact advancing.bind (advancing.addressOf _) advancing.jumpTo
    case jumpIf =>
      refine advancing.bind advancing.pop fun _ => advancing.bind advancing.getHeap fun _ => ?_
      exact .ite (advancing.bind (advancing.addressOf _) advancing.jumpTo) (advancing.pure _)
    case jumpIfNot =>
      refine advancing.bind advancing.pop fun _ => advancing.bind advancing.getHeap fun _ => ?_
      exact .ite (advancing.pure _) (advancing.bind (advancing.addressOf _) advancing.jumpTo)
    case halt => exact advancing.halted
    case classDef => exact advancing.bind (advancing.nameOf _) fun name m => advancing.moved m m.pc _
    all_goals cases plain

end Advancing

namespace Aloof

variable {R : Machine → Machine → Prop} (aloof : Aloof R)

include aloof

theorem leave : leave.Keeps R := by
  intro m
  cases top : m.stack with
  | nil =>
    unfold Machine.leave
    rw [Act.bind_apply, pop_nil top]
    exact aloof.refl m
  | cons v rest =>
    cases frames : m.frames with
    | nil =>
      rw [leave_outer top frames]
      exact aloof.trans _ _ _ (aloof.control m m.pc m.frames m.classes .completed true)
        (aloof.stack _ [v])
    | cons frame callers =>
      rw [leave_inner top frames]
      exact aloof.trans _ _ _
        (aloof.control m frame.returnAddress callers m.classes m.status m.report.done)
        (aloof.stack _ _)

/-- However an instruction ends that does not call the host. -/
theorem execute {i : Instruction} (call : i.op = .call → (execute i).Keeps R) :
    (execute i).Keeps R := by
  by_cases returns : i.op = .ret
  · obtain ⟨op, operand, line⟩ := i
    cases returns
    exact aloof.leave
  · exact aloof.toAdvancing.execute returns call

end Aloof

theorem aloof_spares : Aloof Spares where
  toLenient := tolerant_spares.toLenient
  control m pc frames classes status done :=
    spares_control m pc frames classes m.stack status { m.report with done }

/-- However an instruction ends, it touches none of this. -/
theorem spares_execute (i : Instruction) : (execute i).Keeps Spares :=
  aloof_spares.execute fun call => tolerant_spares.execute (by rw [call]; rfl)

end Machine

end Stepwise
