import Stepwise.Proofs.Bindings
import Stepwise.Proofs.Host.Calls

/-!
What a call that leaves the program makes of the engine. The work of the program itself and its
builtin functions leave an engine still; a handler of the host can pause it while it runs, and cannot
end the program: `status_call`. Where a handler does not ask to bind global variables, a call binds
none (`globals_call`). Handlers can be barred from asking: such a one fails instead, and the others
notice nothing (`call_barring`).
-/
namespace Stepwise

def Request.isPause : Request → Bool
  | .pause => true
  | .setGlobal _ _ => false

namespace Engine

variable {engine : Engine}

/-- What an engine keeps while a program only computes. Variables and the world may change, and the
line that is shown. -/
structure Still (engine later : Engine) : Prop where
  status : later.status = engine.status
  fault : later.fault = engine.fault
  stepCount : later.stepCount = engine.stepCount
  maxSteps : later.maxSteps = engine.maxSteps
  maxCallDepth : later.maxCallDepth = engine.maxCallDepth
  host : later.host = engine.host
  report : later.report = { engine.report with highlightLine := later.report.highlightLine }

theorem Still.refl (engine : Engine) : engine.Still engine := ⟨rfl, rfl, rfl, rfl, rfl, rfl, rfl⟩

/-- Variables, the world and the line that is shown are all that may change. -/
theorem still_work (engine : Engine) (globals : Bindings Value) (world : World)
    (line : Option Int) :
    engine.Still { engine with
      globals, world, report := { engine.report with highlightLine := line } } :=
  ⟨rfl, rfl, rfl, rfl, rfl, rfl, rfl⟩

theorem still_callBuiltin (engine : Engine) (name : Name) (args : List Value) :
    engine.Still (engine.callBuiltin name args).2 := by
  unfold callBuiltin
  split
  next v world _ => exact still_work engine engine.globals world engine.report.highlightLine
  next => exact .refl engine

/-- Whether the handler that a call goes to asks for a pause. -/
def pauses (engine : Engine) (name : Name) (args : List Value) : Bool :=
  match engine.host.find? name with
  | some (_, bound) => (bound.handler bound.earlier args engine.heap).requests.any Request.isPause
  | none => false

/-- Requests are granted one after the other; the first pause counts, and only if the engine runs. -/
theorem status_of_grants (engine : Engine) (requests : List Request) :
    (requests.foldl grant engine).status =
      if engine.status = .running ∧ requests.any Request.isPause = true then .paused
      else engine.status := by
  induction requests generalizing engine with
  | nil => simp
  | cons request requests ih =>
    rw [List.foldl_cons, ih]
    cases request with
    | setGlobal => rfl
    | pause =>
      by_cases running : engine.status = .running
      · simp [grant, pause, running, Request.isPause]
      · simp [grant, pause, running]

theorem fault_of_grants (engine : Engine) (requests : List Request) :
    (requests.foldl grant engine).fault = engine.fault := by
  induction requests generalizing engine with
  | nil => rfl
  | cons request requests ih =>
    rw [List.foldl_cons, ih]
    cases request with
    | setGlobal => rfl
    | pause =>
      show engine.pause.fault = engine.fault
      unfold pause
      split <;> rfl

/-- However a call ends, all it can do to the status is to pause an engine that runs. -/
theorem status_call (engine : Engine) (name : Name) (args : List Value) :
    (engine.call name args).2.status =
      if engine.status = .running ∧ engine.pauses name args = true then .paused
      else engine.status := by
  unfold call pauses
  cases found : engine.host.find? name with
  | none => simpa using (still_callBuiltin engine name args).status
  | some entry =>
    obtain ⟨_, bound⟩ := entry
    dsimp only
    unfold callHandler
    dsimp only
    split <;> exact status_of_grants ..

theorem fault_call (engine : Engine) (name : Name) (args : List Value) :
    (engine.call name args).2.fault = engine.fault := by
  unfold call
  cases engine.host.find? name with
  | none => exact (still_callBuiltin engine name args).fault
  | some entry =>
    obtain ⟨_, bound⟩ := entry
    dsimp only
    unfold callHandler
    dsimp only
    split <;> exact fault_of_grants ..

/-- A handler asks an engine for a pause while it runs; the call is noted later. -/
structure Pausing (during later : Engine) (call : HostCall) : Prop where
  running : during.status = .running
  asked : during.pauses call.name call.args = true
  noted : call :: during.host.calls <:+ later.host.calls

theorem Pausing.grown {during later last : Engine} {call : HostCall}
    (pausing : during.Pausing later call) (more : later.host.calls <:+ last.host.calls) :
    during.Pausing last call :=
  ⟨pausing.running, pausing.asked, pausing.noted.trans more⟩

/-- A call pauses an engine only if the handler asks for it and the engine runs. -/
theorem pausing_of_call {name : Name} {args : List Value} (awake : engine.status ≠ .paused)
    (paused : (engine.call name args).2.status = .paused) :
    ∃ call, engine.Pausing (engine.call name args).2 call := by
  cases found : engine.host.find? name with
  | none =>
    rw [status_call, pauses, found] at paused
    exact absurd (by simpa using paused) awake
  | some entry =>
    obtain ⟨role, bound⟩ := entry
    have host := (call_bound found args).2.1
    rw [status_call] at paused
    split at paused
    next asked =>
      have noted := congrArg Host.calls host
      rw [Host.note_calls] at noted
      exact ⟨⟨role, name, args, (bound.handler bound.earlier args engine.heap).left⟩, asked.1, asked.2,
        noted ▸ List.suffix_refl _⟩
    next => exact absurd paused awake

end Engine

def Request.isBinding : Request → Bool
  | .pause => false
  | .setGlobal _ _ => true

def Bindings.mapValues {α β : Type} (f : α → β) (bindings : Bindings α) : Bindings β :=
  bindings.map fun binding => (binding.1, f binding.2)

theorem Bindings.mapValues_put {α β : Type} (f : α → β) (name : Name) (value : α)
    (bindings : Bindings α) :
    (bindings.put name value).mapValues f = (bindings.mapValues f).put name (f value) :=
  (put_map f name value bindings).symm

/-- How a handler fails that asks to bind a global variable and may not. -/
def barred : Failure := .host (.handler "A handler may not bind variables here")

/-- A handler that fails instead of binding a global variable. -/
def Bound.barring (bound : Bound) : Bound :=
  { bound with
    handler := fun earlier args heap =>
      let reply := bound.handler earlier args heap
      if reply.requests.any Request.isBinding then
        { heap, outcome := .error barred, left := args }
      else reply }

def Host.barring (host : Host) : Host :=
  { host with
    commands := host.commands.mapValues Bound.barring
    sensors := host.sensors.mapValues Bound.barring }

theorem Host.find?_barring (host : Host) (name : Name) :
    host.barring.find? name = (host.find? name).map fun entry => (entry.1, entry.2.barring) := by
  unfold find?
  rw [show host.barring.commands.get? name = (host.commands.get? name).map Bound.barring from
      Bindings.get?_map ..,
    show host.barring.sensors.get? name = (host.sensors.get? name).map Bound.barring from
      Bindings.get?_map ..]
  cases host.commands.get? name <;> cases host.sensors.get? name <;> rfl

theorem Host.note_barring (host : Host) (role : Role) (name : Name) (bound : Bound)
    (args left : List Value) :
    host.barring.note role name bound.barring args left =
      (host.note role name bound args left).barring := by
  cases role <;> simp only [note, barring, Bindings.mapValues_put] <;> rfl

namespace Engine

variable {engine : Engine}

/-- Whether the handler that a call goes to asks to bind a global variable. -/
def binds (engine : Engine) (name : Name) (args : List Value) : Bool :=
  match engine.host.find? name with
  | some (_, bound) => (bound.handler bound.earlier args engine.heap).requests.any Request.isBinding
  | none => false

theorem globals_of_grants (engine : Engine) {requests : List Request}
    (unbinding : requests.any Request.isBinding = false) :
    (requests.foldl grant engine).globals = engine.globals := by
  induction requests generalizing engine with
  | nil => rfl
  | cons request requests ih =>
    rw [List.any_cons, Bool.or_eq_false_iff] at unbinding
    rw [List.foldl_cons, ih _ unbinding.2]
    cases request with
    | setGlobal => cases unbinding.1
    | pause =>
      show engine.pause.globals = engine.globals
      unfold pause
      split <;> rfl

theorem globals_callBuiltin (engine : Engine) (name : Name) (args : List Value) :
    (engine.callBuiltin name args).2.globals = engine.globals := by
  obtain ⟨world, called, -⟩ := callBuiltin_world engine name args
  rw [called]

/-- However a call ends, it binds no global variable unless a handler asks for it. -/
theorem globals_call (engine : Engine) (name : Name) (args : List Value)
    (unbinding : engine.binds name args = false) :
    (engine.call name args).2.globals = engine.globals := by
  unfold binds at unbinding
  unfold call
  cases found : engine.host.find? name with
  | none => exact globals_callBuiltin engine name args
  | some entry =>
    rw [found] at unbinding
    unfold callHandler
    dsimp only
    split <;> exact globals_of_grants _ unbinding

def barring (engine : Engine) : Engine := { engine with host := engine.host.barring }

theorem grants_barring (engine : Engine) (requests : List Request) :
    requests.foldl grant engine.barring = (requests.foldl grant engine).barring := by
  induction requests generalizing engine with
  | nil => rfl
  | cons request requests ih =>
    have granted : engine.barring.grant request = (engine.grant request).barring := by
      cases request with
      | setGlobal => rfl
      | pause =>
        show engine.barring.pause = engine.pause.barring
        unfold pause
        rw [show engine.barring.status = engine.status from rfl]
        split <;> rfl
    rw [List.foldl_cons, granted, ih]
    rfl

theorem callBuiltin_barring (engine : Engine) (name : Name) (args : List Value) :
    engine.barring.callBuiltin name args =
      ((engine.callBuiltin name args).1, (engine.callBuiltin name args).2.barring) := by
  unfold callBuiltin
  rw [show engine.barring.world = engine.world from rfl]
  split <;> rfl

/-- Where handlers are barred, a call fails if its handler asks to bind a global variable. -/
theorem call_refused {name : Name} {args : List Value} (binding : engine.binds name args = true) :
    (engine.barring.call name args).1 = .error barred := by
  unfold binds at binding
  unfold call
  rw [show engine.barring.host = engine.host.barring from rfl, Host.find?_barring]
  cases found : engine.host.find? name with
  | none =>
    rw [found] at binding
    cases binding
  | some entry =>
    rw [found] at binding
    have refused : entry.2.barring.handler entry.2.barring.earlier args engine.barring.heap =
        { heap := engine.heap, outcome := .error barred, left := args } := if_pos binding
    simp only [Option.map_some, callHandler, refused]

/-- Otherwise it goes the same way. -/
theorem call_barring {name : Name} {args : List Value}
    (unbinding : engine.binds name args = false) :
    engine.barring.call name args =
      ((engine.call name args).1, (engine.call name args).2.barring) := by
  unfold binds at unbinding
  unfold call
  rw [show engine.barring.host = engine.host.barring from rfl, Host.find?_barring]
  cases found : engine.host.find? name with
  | none => exact callBuiltin_barring engine name args
  | some entry =>
    obtain ⟨role, bound⟩ := entry
    rw [found] at unbinding
    have same : bound.barring.handler bound.barring.earlier args engine.barring.heap =
        bound.handler bound.earlier args engine.heap :=
      if_neg (Bool.eq_false_iff.mp unbinding)
    have noted (reply : Reply) : engine.barring.replied role name bound.barring args reply =
        (engine.replied role name bound args reply).barring := by
      show Engine.mk .. = Engine.mk ..
      rw [show engine.barring.host = engine.host.barring from rfl, Host.note_barring]
      rfl
    simp only [Option.map_some, callHandler, same, noted, grants_barring]
    cases (bound.handler bound.earlier args engine.heap).outcome <;> rfl

end Engine

end Stepwise
