import Stepwise.Proofs.Agreement.Reach
import Stepwise.Proofs.Code.Layout
import Stepwise.Walker.Step

/-!
The tree walker and the machine at the same point of a program, and what it means that a
computation of the walker is followed by the machine: `Tracks` for the code of a tree, `Carries`
for what is left of an instruction. Both are closed under sequencing, so that the code of a tree
is followed part by part.
-/
namespace Stepwise

/-- What does not change while a program runs. -/
structure Setting where
  code : Code
  scope : Scope
  /-- The classes as the machine knows them. -/
  table : Bindings (Bindings Int)
  functions : Bindings Func
  classes : Bindings (Bindings Func)
  depth : Int

namespace Machine

variable {m m' : Machine} {number : Nat}

/-- A step ends the program. -/
def Completes (engine : Engine) (m : Machine) : Prop :=
  ∃ report m', m.step = (.ok report, m') ∧ report.done = true ∧ m'.status = .completed ∧
    engine.Shares m'.toEngine

/-- A step stops the program with a fault. -/
def Faults (fault : Fault) (engine : Engine) (m : Machine) : Prop :=
  ∃ report m', m.step = (.ok report, m') ∧ report.done = true ∧ m'.status = .error ∧
    (engine.fail fault).Shares m'.toEngine

/-- A step is left by a failure of the host. -/
def Breaks (failure : HostFailure) (engine : Engine) (m : Machine) : Prop :=
  ∃ m', m.step = (.error failure, m') ∧ engine.Shares m'.toEngine

/-- The variable that a name stands for. -/
def var (m : Machine) (name : Name) : Option Value :=
  (m.frames.head?.bind fun frame => frame.locals.get? name).or (m.globals.get? name)

/-- The same calls, and in the innermost one the same hidden variables below a number. -/
inductive SameCalls (number : Nat) : List CallFrame → List CallFrame → Prop where
  | outer : SameCalls number [] []
  | inner {frame : CallFrame} {callers : List CallFrame} {locals : Bindings Value} :
      (∀ bound ∈ loopBounds, ∀ k < number,
        locals.get? (loopVar bound k) = frame.locals.get? (loopVar bound k)) →
      SameCalls number (frame :: callers) ({ frame with locals } :: callers)

theorem sameCalls_refl : ∀ frames : List CallFrame, SameCalls number frames frames
  | [] => .outer
  | _ :: _ => .inner fun _ _ _ _ => rfl

/-- What running a piece of code leaves of the calls under way and of hidden variables: those of
loops with a smaller number, and inside of a call all global ones. -/
structure Keeps (number : Nat) (m m' : Machine) : Prop where
  calls : SameCalls number m.frames m'.frames
  globals : ∀ bound ∈ loopBounds, ∀ k, (m.frames = [] → k < number) →
    m'.globals.get? (loopVar bound k) = m.globals.get? (loopVar bound k)

theorem Keeps.of_hidden (frames : m'.frames = m.frames) (hidden : ∀ name,
    isHidden name = true → m'.globals.get? name = m.globals.get? name) : m.Keeps number m' where
  calls := frames ▸ sameCalls_refl _
  globals _ _ _ _ := hidden _ (isHidden_loopVar ..)

theorem Keeps.of_eq (frames : m'.frames = m.frames) (globals : m'.globals = m.globals) :
    m.Keeps number m' :=
  .of_hidden frames fun _ _ => by rw [globals]

theorem Keeps.refl (m : Machine) : m.Keeps number m := .of_eq rfl rfl

theorem SameCalls.trans {first second third : List CallFrame}
    (early : SameCalls number first second) (late : SameCalls number second third) :
    SameCalls number first third := by
  cases early with
  | outer => exact late
  | inner same =>
    cases late with
    | inner same' =>
      exact .inner fun bound known k less =>
        (same' bound known k less).trans (same bound known k less)

theorem SameCalls.eq_nil_iff {first second : List CallFrame}
    (same : SameCalls number first second) : second = [] ↔ first = [] := by
  cases same <;> simp

theorem Keeps.trans {m'' : Machine} (first : m.Keeps number m') (rest : m'.Keeps number m'') :
    m.Keeps number m'' where
  calls := first.calls.trans rest.calls
  globals bound known k less :=
    (rest.globals bound known k fun outer => less (first.calls.eq_nil_iff.mp outer)).trans
      (first.globals bound known k less)

/-- Inside of a call the calls under way stay, apart from the innermost one's variables. -/
theorem Keeps.inner {frame : CallFrame} {callers : List CallFrame} (kept : m.Keeps number m')
    (inside : m.frames = frame :: callers) :
    ∃ locals, m'.frames = { frame with locals } :: callers := by
  have calls := kept.calls
  rw [inside] at calls
  generalize m'.frames = frames at calls ⊢
  cases calls with
  | inner => exact ⟨_, rfl⟩

theorem Keeps.weaken {less : Nat} (kept : m.Keeps number m') (le : less ≤ number) :
    m.Keeps less m' where
  calls := by
    have calls := kept.calls
    generalize m.frames = first at calls ⊢
    generalize m'.frames = second at calls ⊢
    cases calls with
    | outer => exact .outer
    | inner same => exact .inner fun bound known k below => same bound known k (by omega)
  globals bound known k less := kept.globals bound known k fun outer => by
    have := less outer
    omega

/-- A hidden variable that is kept stands for what it stood for. -/
theorem Keeps.var (kept : m.Keeps number m') {bound : String} (known : bound ∈ loopBounds) {k : Nat}
    (less : k < number) : m'.var (loopVar bound k) = m.var (loopVar bound k) := by
  have calls := kept.calls
  unfold Machine.var
  rw [kept.globals bound known k fun _ => less]
  generalize m.frames = first at calls ⊢
  generalize m'.frames = second at calls ⊢
  cases calls with
  | outer => rfl
  | inner same => simp [same bound known k less]

/-- Local variables that agree: outside of calls there are none. -/
def Scoped : Option (Bindings Value) → List CallFrame → Prop
  | none, [] => True
  | some locals, frame :: _ =>
    ∀ name, isHidden name = false → locals.get? name = frame.locals.get? name
  | _, _ => False

end Machine

open Machine (Reaches Completes Faults Breaks Keeps Scoped isHidden)

/-- The walker and the machine are at the same point of a program: the machine stands at an
address, with some operands, at some depth of calls. -/
structure At (S : Setting) (height : Nat) (w : Walker) (m : Machine) (pc : Nat)
    (stack : List Value) : Prop where
  code : m.code = some S.code
  table : m.classes = S.table
  depth : m.maxCallDepth = S.depth
  unfinished : m.status.isFinal = false
  pc : m.pc = pc
  stack : m.stack = stack
  height : m.frames.length = height
  shares : w.toEngine.Shares m.toEngine
  discreet : m.host.Discreet
  functions : w.functions = S.functions
  classes : w.classes = S.classes
  limit : w.maxCallDepth = S.depth
  locals : Scoped w.locals m.frames
  awake : w.status.isFinal = false

theorem At.modest {S : Setting} {height pc : Nat} {w : Walker} {m : Machine} {stack : List Value}
    (here : At S height w m pc stack) : w.host.Discreet :=
  here.shares.host ▸ here.discreet

/-- What evaluating and running to an end leaves of a walker. -/
structure Walker.Steady (w later : Walker) : Prop where
  frames : later.frames = w.frames
  program : later.program = w.program
  stepCount : later.stepCount = w.stepCount
  maxSteps : later.maxSteps = w.maxSteps

namespace Walker

theorem Steady.refl (w : Walker) : w.Steady w := ⟨rfl, rfl, rfl, rfl⟩

theorem Steady.trans {w next last : Walker} (first : w.Steady next) (rest : next.Steady last) :
    w.Steady last :=
  ⟨rest.frames.trans first.frames, rest.program.trans first.program,
    rest.stepCount.trans first.stepCount, rest.maxSteps.trans first.maxSteps⟩

end Walker

variable {α β : Type}

/-- The machine follows a computation of the walker: it gets to where the computation leaves the
walker, or stops as it does. Nothing is said of a walker that takes too many steps. -/
def Simulates (x : Walker.Walk α) (w : Walker) (m : Machine)
    (good : α → Walker → Machine → Prop) : Prop :=
  match x w with
  | (.ok a, w') => m.Reaches (good a w')
  | (.error (.fault fault), w') => fault.IsExhaustion ∨ m.Reaches (Faults fault w'.toEngine)
  | (.error (.host failure), w') => m.Reaches (Breaks failure w'.toEngine)

/-- The machine follows a computation on the code of a tree. -/
def Tracks (number : Nat) (x : Walker.Walk α) (w : Walker) (m : Machine)
    (post : α → Walker → Machine → Prop) : Prop :=
  Simulates x w m fun a w' m' => post a w' m' ∧ m.Keeps number m' ∧ w.Steady w'

/-- What is left of an instruction, and what the machine does behind it, follow a computation. -/
def Carries (number : Nat) (x : Walker.Walk α) (w : Walker) (y : Machine.Action Unit) (k : Machine)
    (post : α → Walker → Machine → Prop) : Prop :=
  match y k with
  | (.ok (), k') => k'.report.done = false ∧
    Simulates x w k' fun a w' m' => post a w' m' ∧ k.Keeps number m' ∧ w.Steady w'
  | (.error (.fault fault'), k') => ∃ fault w', x w = (.error (.fault fault), w') ∧
    (fault.IsExhaustion ∨ fault.message = fault'.message ∧ w'.toEngine.Shares k'.toEngine)
  | (.error (.host failure), k') => ∃ w', x w = (.error (.host failure), w') ∧
    w'.toEngine.Shares k'.toEngine

section Simulates

variable {x : Walker.Walk α} {f : α → Walker.Walk β} {w w' : Walker} {m : Machine}
  {good : α → Walker → Machine → Prop} {good' : β → Walker → Machine → Prop}

theorem simulates_spent (spent : m.Spent) : Simulates x w m good := by
  unfold Simulates
  rcases x w with ⟨(fault | failure) | a, w'⟩
  · exact .inr (.spent spent)
  · exact .spent spent
  · exact .spent spent

/-- The machine may take more steps behind a computation. -/
theorem Simulates.onward {other : α → Walker → Machine → Prop} (first : Simulates x w m good)
    (rest : ∀ a w' m', good a w' m' → m'.Reaches (other a w')) : Simulates x w m other := by
  unfold Simulates at first ⊢
  split
  next done =>
    rw [done] at first
    exact first.bind fun m' => rest _ _ m'
  next done =>
    rw [done] at first
    exact first
  next done =>
    rw [done] at first
    exact first

theorem Simulates.mono {other : α → Walker → Machine → Prop} (first : Simulates x w m good)
    (implies : ∀ a w' m', good a w' m' → other a w' m') : Simulates x w m other :=
  first.onward fun a w' m' holds => .here (implies a w' m' holds)

/-- The machine may take steps on its own. -/
theorem simulates_after {goal : Machine → Prop} (first : m.Reaches goal)
    (rest : ∀ m', goal m' → Simulates x w m' good) : Simulates x w m good := by
  unfold Simulates at rest ⊢
  split
  next done => exact first.bind fun m' holds => by simpa [done] using rest m' holds
  next fault w' done =>
    by_cases exhausted : fault.IsExhaustion
    · exact .inl exhausted
    · exact .inr (first.bind fun m' holds => by simpa [done, exhausted] using rest m' holds)
  next done => exact first.bind fun m' holds => by simpa [done] using rest m' holds

theorem Simulates.bind (first : Simulates x w m good)
    (rest : ∀ a w' m', good a w' m' → Simulates (f a) w' m' good') :
    Simulates (x >>= f) w m good' := by
  unfold Simulates at first
  rcases result : x w with ⟨(fault | failure) | a, w'⟩ <;> rw [result] at first
  · unfold Simulates
    rw [Act.bind_error result]
    exact first
  · unfold Simulates
    rw [Act.bind_error result]
    exact first
  · have second := simulates_after first fun m' holds => rest a w' m' holds
    unfold Simulates at second ⊢
    rwa [Act.bind_ok result]

theorem simulates_walk {a : α} (done : x w = (.ok a, w')) (rest : Simulates (f a) w' m good') :
    Simulates (x >>= f) w m good' := by
  unfold Simulates at rest ⊢
  rwa [Act.bind_ok done]

end Simulates

section Tracks

variable {number : Nat} {x : Walker.Walk α} {f : α → Walker.Walk β} {w w' : Walker} {m : Machine}
  {post : α → Walker → Machine → Prop} {post' : β → Walker → Machine → Prop}

theorem Tracks.bind (first : Tracks number x w m post)
    (rest : ∀ a w' m', m.Keeps number m' → post a w' m' → Tracks number (f a) w' m' post') :
    Tracks number (x >>= f) w m post' := by
  refine Simulates.bind first fun a w' m' ⟨holds, kept, steady⟩ => ?_
  refine Simulates.mono (rest a w' m' kept holds) fun b w'' m'' ⟨holds, kept', steady'⟩ => ?_
  exact ⟨holds, kept.trans kept', steady.trans steady'⟩

/-- The walker does something on its own to the end. -/
theorem tracks_alone {a : α} (walked : x w = (.ok a, w')) (steady : w.Steady w')
    (holds : post a w' m) : Tracks number x w m post := by
  unfold Tracks Simulates
  rw [walked]
  exact .here ⟨holds, .refl m, steady⟩

theorem tracks_pure {a : α} (holds : post a w m) : Tracks number (pure a) w m post :=
  tracks_alone rfl (.refl w) holds

theorem Tracks.mono {other : α → Walker → Machine → Prop} (first : Tracks number x w m post)
    (implies : ∀ a w' m', m.Keeps number m' → post a w' m' → other a w' m') :
    Tracks number x w m other :=
  Simulates.mono first fun a w' m' ⟨holds, kept, steady⟩ =>
    ⟨implies a w' m' kept holds, kept, steady⟩

theorem Tracks.weaken {less : Nat} (first : Tracks number x w m post) (le : less ≤ number) :
    Tracks less x w m post :=
  Simulates.mono first fun _ _ _ ⟨holds, kept, steady⟩ => ⟨holds, kept.weaken le, steady⟩

/-- The machine may take steps on its own. -/
theorem tracks_after {goal : Machine → Prop}
    (first : m.Reaches fun m' => goal m' ∧ m.Keeps number m')
    (rest : ∀ m', m.Keeps number m' → goal m' → Tracks number x w m' post) :
    Tracks number x w m post := by
  refine simulates_after first fun m' ⟨holds, kept⟩ => ?_
  exact Simulates.mono (rest m' kept holds) fun a w' m'' ⟨holds, kept', steady⟩ =>
    ⟨holds, kept.trans kept', steady⟩

/-- The walker may do something on its own. -/
theorem tracks_walk {a : α} (done : x w = (.ok a, w')) (steady : w.Steady w')
    (rest : Tracks number (f a) w' m post') : Tracks number (x >>= f) w m post' :=
  simulates_walk done (Simulates.mono rest fun _ _ _ ⟨holds, kept, steady'⟩ =>
    ⟨holds, kept, steady.trans steady'⟩)

/-- The machine may do something that the walker does not. -/
theorem Tracks.first {a : β} {done : β → Walker → Machine → Prop}
    (first : Tracks number (pure a) w m done)
    (rest : ∀ m', m.Keeps number m' → done a w m' → Tracks number x w m' post) :
    Tracks number x w m post := by
  have reached : m.Reaches fun m' => done a w m' ∧ m.Keeps number m' ∧ w.Steady w := first
  exact tracks_after (reached.mono fun _ ⟨holds, kept, _⟩ => ⟨holds, kept⟩) rest

/-- Only what a computation does to the walker it starts from counts. -/
theorem tracks_congr {other : Walker.Walk α} (same : x w = other w)
    (tracks : Tracks number other w m post) : Tracks number x w m post := by
  unfold Tracks Simulates at tracks ⊢
  rwa [same]

theorem tracks_exhausted {fault : Fault} (exhausted : fault.IsExhaustion) :
    Tracks number (throw (.fault fault)) w m post := .inl exhausted

end Tracks

section Carries

variable {number : Nat} {x : Walker.Walk α} {f : α → Walker.Walk β} {w w' : Walker}
  {y : Machine.Action Unit} {k j : Machine} {post : α → Walker → Machine → Prop}
  {post' : β → Walker → Machine → Prop}

/-- Both are over. -/
theorem carries_ends {a : α} (walked : x w = (.ok a, w')) (steady : w.Steady w')
    (done : y k = (.ok (), j)) (going : j.report.done = false) (kept : k.Keeps number j)
    (holds : post a w' j) : Carries number x w y k post := by
  unfold Carries Simulates
  rw [done, walked]
  exact ⟨going, .here ⟨holds, kept, steady⟩⟩

/-- The instruction is over. -/
theorem carries_done {a : α} (done : y k = (.ok (), j)) (going : j.report.done = false)
    (kept : k.Keeps number j) (holds : post a w j) : Carries number (pure a) w y k post :=
  carries_ends rfl (.refl w) done going kept holds

/-- The machine does something on its own. -/
theorem carries_machine {z : Machine.Action β} {g : β → Machine.Action Unit} {b : β}
    (done : z k = (.ok b, j)) (kept : k.Keeps number j)
    (rest : Carries number x w (g b) j post) : Carries number x w (z >>= g) k post := by
  unfold Carries at rest ⊢
  rw [Act.bind_ok done]
  split
  next ran =>
    rw [ran] at rest
    exact ⟨rest.1, Simulates.mono rest.2 fun _ _ _ ⟨holds, kept', steady⟩ =>
      ⟨holds, kept.trans kept', steady⟩⟩
  next failed =>
    rw [failed] at rest
    exact rest
  next failed =>
    rw [failed] at rest
    exact rest

/-- The walker does something on its own. -/
theorem carries_walk {a : α} (done : x w = (.ok a, w')) (steady : w.Steady w')
    (rest : Carries number (f a) w' y k post') : Carries number (x >>= f) w y k post' := by
  unfold Carries at rest ⊢
  rw [Act.bind_ok done]
  split
  next ran =>
    rw [ran] at rest
    exact ⟨rest.1, simulates_walk done (Simulates.mono rest.2 fun _ _ _ ⟨holds, kept, steady'⟩ =>
      ⟨holds, kept, steady.trans steady'⟩)⟩
  next failed =>
    rw [failed] at rest
    exact rest
  next failed =>
    rw [failed] at rest
    exact rest

/-- Only what a computation does to the walker it starts from counts. -/
theorem carries_congr {other : Walker.Walk α} (same : x w = other w)
    (carries : Carries number other w y k post) : Carries number x w y k post := by
  unfold Carries Simulates at carries ⊢
  rwa [same]

/-- Both do the same to values. -/
theorem carries_lift {e : Except Failure α} {g : α → Machine.Action Unit}
    (shares : w.toEngine.Shares k.toEngine)
    (rest : ∀ a, e = .ok a → Carries number (f a) w (g a) k post') :
    Carries number (liftM e >>= f) w (liftM e >>= g) k post' := by
  rcases e with (fault | failure) | a
  · exact ⟨fault, w, rfl, .inr ⟨rfl, shares⟩⟩
  · exact ⟨w, rfl, shares⟩
  · exact carries_walk rfl (.refl w) (carries_machine rfl (.refl k) (rest a rfl))

theorem carries_value {e : Except Failure α} {g : α → Machine.Action Unit}
    (shares : w.toEngine.Shares k.toEngine)
    (rest : ∀ a, e = .ok a → Carries number (pure a) w (g a) k post) :
    Carries number (liftM e) w (liftM e >>= g) k post := by
  rw [← bind_pure (liftM e : Walker.Walk α)]
  exact carries_lift shares rest

/-- Both stop with a fault of the same message. -/
theorem carries_stopped {fault fault' : Fault} (walked : x w = (.error (.fault fault), w'))
    (failed : y k = (.error (.fault fault'), j)) (same : fault.message = fault'.message)
    (shares : w'.toEngine.Shares j.toEngine) : Carries number x w y k post := by
  unfold Carries
  rw [failed]
  exact ⟨fault, w', walked, .inr ⟨same, shares⟩⟩

theorem carries_broken {failure : HostFailure} (walked : x w = (.error (.host failure), w'))
    (failed : y k = (.error (.host failure), j)) (shares : w'.toEngine.Shares j.toEngine) :
    Carries number x w y k post := by
  unfold Carries
  rw [failed]
  exact ⟨w', walked, shares⟩

/-- The walker goes on behind what the instruction does. -/
theorem Carries.bind (first : Carries number x w y k post)
    (rest : ∀ a w' m', post a w' m' → Tracks number (f a) w' m' post') :
    Carries number (x >>= f) w y k post' := by
  unfold Carries at first ⊢
  split
  next ran =>
    rw [ran] at first
    refine ⟨first.1, first.2.bind fun a w' m' ⟨holds, kept, steady⟩ => ?_⟩
    exact Simulates.mono (rest a w' m' holds) fun b w'' m'' ⟨holds, kept', steady'⟩ =>
      ⟨holds, kept.trans kept', steady.trans steady'⟩
  next failed =>
    rw [failed] at first
    obtain ⟨fault, w', walked, same⟩ := first
    exact ⟨fault, w', Act.bind_error walked, same⟩
  next failed =>
    rw [failed] at first
    obtain ⟨w', walked, shares⟩ := first
    exact ⟨w', Act.bind_error walked, shares⟩

end Carries

variable {S : Setting} {height number pc : Nat} {stack : List Value} {w : Walker} {m : Machine}

/-- A machine that has read an instruction is at the next one, in some report. -/
theorem At.fetched (here : At S height w m pc stack) (i : Instruction) :
    At S height w (m.fetched i) (pc + 1) stack :=
  { here with
    unfinished := rfl
    pc := by
      show m.pc + 1 = _
      rw [here.pc]
      rfl
    shares :=
      ⟨here.shares.world, here.shares.host, here.shares.globals, here.shares.message⟩ }

/-- The machine executes an instruction that goes well. -/
theorem At.reaches {i : Instruction} {next : Machine} (here : At S height w m pc stack)
    (has : S.code.Has pc i) (ran : Machine.execute i (m.fetched i) = (.ok (), next))
    (going : next.report.done = false) : m.Reaches (· = next) := by
  rcases Machine.step_at here.code here.unfinished here.pc has with spent | stepped
  · exact .spent spent
  have taken : m.step = match Machine.execute i (m.fetched i) with
      | (.ok (), next) => (.ok next.report, next)
      | (.error (.fault fault), next) => (.ok { done := true, highlightLine := i.line },
          next.stoppedAt m.pc (fault.withLine i.line))
      | (.error (.host failure), next) => (.error failure, next) := stepped
  rw [ran] at taken
  exact ⟨next, .on trivial taken going (.here next), .inl rfl⟩

/-- The walker and the machine are at the same point while an instruction is executed. -/
structure During (S : Setting) (height : Nat) (w : Walker) (k : Machine) (pc : Nat)
    (stack : List Value) : Prop extends At S height w k pc stack where
  going : k.report.done = false

/-- The machine executes the instruction that it stands at. -/
theorem At.perform {x : Walker.Walk α} {i : Instruction} {post : α → Walker → Machine → Prop}
    (here : At S height w m pc stack) (has : S.code.Has pc i)
    (carries : During S height w (m.fetched i) (pc + 1) stack →
      Carries number x w (Machine.execute i) (m.fetched i) post) :
    Tracks number x w m post := by
  rcases Machine.step_at here.code here.unfinished here.pc has with spent | stepped
  · exact simulates_spent spent
  have carries := carries ⟨here.fetched i, rfl⟩
  have taken : m.step = match Machine.execute i (m.fetched i) with
      | (.ok (), next) => (.ok next.report, next)
      | (.error (.fault fault), next) => (.ok { done := true, highlightLine := i.line },
          next.stoppedAt m.pc (fault.withLine i.line))
      | (.error (.host failure), next) => (.error failure, next) := stepped
  have kept : m.Keeps number (m.fetched i) := .of_eq rfl rfl
  unfold Carries at carries
  split at carries
  next next ran =>
    rw [ran] at taken
    have reached : m.Reaches (· = next) := ⟨next, .on trivial taken carries.1 (.here next), .inl rfl⟩
    refine simulates_after reached ?_
    rintro _ rfl
    exact Simulates.mono carries.2 fun _ _ _ ⟨holds, kept', steady⟩ =>
      ⟨holds, kept.trans kept', steady⟩
  next fault' next failed =>
    rw [failed] at taken
    obtain ⟨fault, w', walked, same⟩ := carries
    unfold Tracks Simulates
    rw [walked]
    exact same.imp id fun ⟨message, shares⟩ => .here ⟨_, _, taken, rfl, rfl, shares.fail message⟩
  next failure next failed =>
    rw [failed] at taken
    obtain ⟨w', walked, shares⟩ := carries
    unfold Tracks Simulates
    rw [walked]
    exact .here ⟨_, taken, shares⟩

end Stepwise
