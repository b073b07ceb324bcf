import Stepwise.Proofs.Agreement.Invocations
import Stepwise.Walker.Step

/-!
The frames of the walker and the machine between steps. Frames say what code the machine has still
to go through: the statements that are left of each, and around them the rounds of a loop that is
open.
-/
namespace Stepwise

open Machine (Keeps Reaches Completes isHidden)

/-- The code at an address goes on at a target, at most behind a jump. -/
def Setting.Leads (S : Setting) (pc target : Nat) : Prop :=
  pc = target ∨ ∃ line, S.code.Has pc ⟨.jump, .int target, line⟩

theorem ExitAt.leads {S : Setting} {line : Option Int} {inner finish skip : Nat} {last : Bool}
    (exit : ExitAt S.code line inner finish skip last) : S.Leads inner finish := by
  cases last with
  | true => exact .inl (exit.1.trans exit.2)
  | false => exact .inr ⟨line, exit.2⟩

/-- The code of what frames without an open loop have left to run, up to the halt. -/
inductive Rest (S : Setting) : List Frame → Nat → Prop
  | halt {pc : Nat} : S.code.Has pc ⟨.halt, .null, none⟩ → Rest S [] pc
  | frame {statements : List Stmt} {index number second pc next target : Nat} {outer : List Frame} :
      StmtsAt S.code S.scope none number pc (statements.drop index) second next →
      Stmt.EveryIn Expr.Common Stmt.Common (statements.drop index) →
      S.Leads next target → Rest S outer target → Rest S ({ statements, index } :: outer) pc

/-- The code around the body of a loop, whose own hidden variables have numbers from `number` on.
-/
structure Span where
  number : Nat
  body : Nat
  last : Nat
  targets : LoopTargets
  finish : Nat

/-- What decides on the rounds of an open loop: code, operands and hidden variables. -/
inductive Turns (S : Setting) (line : Option Int) (m : Machine) :
    LoopKind → Span → List Value → Prop
  | times {done limit start again number : Nat} {i : Instruction} :
      S.code.Holds start [⟨.push, .int 0, line⟩, ⟨.dup, .null, line⟩, i, ⟨.gte, .null, line⟩,
        ⟨.jumpIf, .int (again + 3 : Nat), line⟩] →
      S.code.Holds again [⟨.push, .int 1, line⟩, ⟨.add, .null, line⟩,
        ⟨.jump, .int (start + 1 : Nat), line⟩, ⟨.pop, .null, line⟩] →
      Provides number (.int limit) m i →
      Turns S line m (.times done limit)
        ⟨number, start + 5, again, ⟨again + 3, again⟩, again + 4⟩ [.int done]
  | whileTrue {test : Expr} {base mid again number : Nat} :
      ExprAt S.code S.scope line base test mid → test.Every Expr.Common →
      S.code.Has mid ⟨.jumpIfNot, .int (again + 1 : Nat), line⟩ →
      S.code.Has again ⟨.jump, .int (base : Nat), line⟩ →
      Turns S line m (.whileTrue test)
        ⟨number, mid + 1, again, ⟨again + 1, base⟩, again + 1⟩ []
  | range {var stopName : String} {stop step : Value} {start again number : Nat}
      {known : Number ⊕ String} {pushStep : Instruction} : isHidden (.text var) = false →
      S.code.Holds start (Code.rangeTest line start (.scalar (.text var)) stopName known ++
        [⟨.jumpIfNot, .int (again + 5 : Nat), line⟩]) →
      S.code.Holds again [⟨.load, .text var, line⟩, pushStep, ⟨.add, .null, line⟩,
        ⟨.store, .text var, line⟩, ⟨.jump, .int (start : Nat), line⟩] →
      RangeKept number stop step m line stopName known pushStep →
      Turns S line m (.range (.scalar (.text var)) stop step)
        ⟨number,
          start + (Code.rangeTest line start (.scalar (.text var)) stopName known).length + 1,
          again, ⟨again + 5, again⟩, again + 5⟩ []

variable {S : Setting} {m m' : Machine} {w : Walker} {stack : List Value} {pc number : Nat}
  {frames : List Frame} {span : Span} {α β : Type}

theorem Turns.mono {line : Option Int} {kind : LoopKind} (turns : Turns S line m kind span stack)
    (kept : m.Keeps span.number m') : Turns S line m' kind span stack := by
  cases turns with
  | times test next provides => exact .times test next (provides.mono kept)
  | whileTrue tested common jumps back => exact .whileTrue tested common jumps back
  | range shown test next range => exact .range shown test next (range.mono kept)

/-- The machine stands in the body of a loop where a position of the walker says. -/
inductive Within (S : Setting) (span : Span) (body : List Stmt) : Nat → Nat → Prop
  | inside {position pc number second : Nat} : span.number ≤ number →
      StmtsAt S.code S.scope (some span.targets) number pc (body.drop position) second span.last →
      Stmt.EveryIn Expr.Common Stmt.Common (body.drop position) → Within S span body position pc
  | again {position : Nat} : body.length ≤ position →
      Within S span body position span.targets.again

/-- What the machine has still to go through, given the frames of the walker. -/
inductive Under (S : Setting) (m : Machine) : List Frame → Nat → List Value → Prop
  | rest {frames : List Frame} {pc : Nat} : Rest S frames pc → Under S m frames pc []
  | turn {statements : List Stmt} {index pc : Nat} {outer : List Frame} {loop : OpenLoop}
      {span : Span} {stack : List Value} : Turns S loop.line m loop.kind span stack →
      Within S span loop.body 0 span.body → Within S span loop.body loop.position pc →
      Rest S ({ statements, index := index + 1 } :: outer) span.finish →
      Under S m ({ statements, index, loop := some loop } :: outer) pc stack

/-- The walker and the machine are at the same point of a program, outside of calls. -/
def Abreast (S : Setting) (w : Walker) (m : Machine) : Prop :=
  ∃ pc stack, At S 0 w m pc stack ∧ Under S m w.frames pc stack

/-- The program has ended for the walker and ends for the machine, or both go on. -/
def Settled (S : Setting) (w : Walker) (m : Machine) : Prop :=
  (w.frames = [] ∧ w.status = .completed ∧ m.Completes w.toEngine) ∨ Abreast S w m

/-- What a step keeps of a walker: the program and how far the run may go. -/
structure Walker.Steers (w later : Walker) : Prop where
  program : later.program = w.program
  stepCount : later.stepCount = w.stepCount
  maxSteps : later.maxSteps = w.maxSteps

theorem Walker.Steady.steers {later : Walker} (steady : w.Steady later) : w.Steers later :=
  ⟨steady.program, steady.stepCount, steady.maxSteps⟩

theorem Walker.Steers.trans {next last : Walker} (first : w.Steers next) (rest : next.Steers last) :
    w.Steers last :=
  ⟨rest.program.trans first.program, rest.stepCount.trans first.stepCount,
    rest.maxSteps.trans first.maxSteps⟩

/-- The machine follows what is left of a step of the walker. -/
def Follows (S : Setting) (x : Walker.Walk α) (w : Walker) (m : Machine) : Prop :=
  Simulates x w m fun _ w' m' => Settled S w' m' ∧ w.Steers w'

section Follows

variable {x : Walker.Walk α} {f : α → Walker.Walk β} {w' : Walker}

/-- The walker does something on its own. -/
theorem follows_walk {a : α} (done : x w = (.ok a, w')) (steers : w.Steers w')
    (rest : Follows S (f a) w' m) : Follows S (x >>= f) w m :=
  simulates_walk done (Simulates.mono rest fun _ _ _ ⟨settled, steers'⟩ =>
    ⟨settled, steers.trans steers'⟩)

/-- The walker is through with its step. -/
theorem follows_last {a : α} (done : x w = (.ok a, w')) (steers : w.Steers w')
    (settled : Settled S w' m) : Follows S x w m := by
  unfold Follows Simulates
  rw [done]
  exact .here ⟨settled, steers⟩

theorem Tracks.follows {post : α → Walker → Machine → Prop} (first : Tracks number x w m post)
    (rest : ∀ a w' m', m.Keeps number m' → w'.frames = w.frames → post a w' m' →
      Follows S (f a) w' m') : Follows S (x >>= f) w m := by
  refine Simulates.bind first fun a w' m' ⟨holds, kept, steady⟩ => ?_
  refine Simulates.mono (rest a w' m' kept steady.frames holds) fun _ _ _ ⟨settled, steers⟩ => ?_
  exact ⟨settled, steady.steers.trans steers⟩

/-- The machine does something on its own. -/
theorem Tracks.ahead {a : α} {y : Walker.Walk β} {done : α → Walker → Machine → Prop}
    (first : Tracks number (pure a) w m done)
    (rest : ∀ m', m.Keeps number m' → done a w m' → Follows S y w m') : Follows S y w m := by
  have reached : m.Reaches fun m' => done a w m' ∧ m.Keeps number m' ∧ w.Steady w := first
  exact simulates_after reached fun m' ⟨holds, kept, _⟩ => rest m' kept holds

end Follows

section Endings

/-- What belongs to the walker alone. -/
theorem At.own {height : Nat} (here : At S height w m pc stack) (frames : List Frame)
    (status : Status) (report : StepReport) (stepCount begun : Nat)
    (awake : status.isFinal = false) :
    At S height { w with frames, status, report, stepCount, begun } m pc stack :=
  { here with
    shares := ⟨here.shares.world, here.shares.host, here.shares.globals, here.shares.message⟩
    awake }

theorem At.withFrames {height : Nat} (here : At S height w m pc stack) (frames : List Frame) :
    At S height { w with frames } m pc stack :=
  here.own frames w.status w.report w.stepCount w.begun here.awake

/-- The machine executes an instruction that ends the program. -/
theorem At.completes {i : Instruction} {next : Machine} {height : Nat}
    (here : At S height w m pc stack) (has : S.code.Has pc i)
    (ran : Machine.execute i (m.fetched i) = (.ok (), next)) (done : next.report.done = true)
    (completed : next.status = .completed) {engine : Engine}
    (shares : engine.Shares next.toEngine) :
    m.Reaches (Completes engine) := by
  rcases Machine.step_at here.code here.unfinished here.pc has with spent | stepped
  · exact .spent spent
  unfold Machine.advanceBy at stepped
  change Machine.execute i { m.begun with
    pc := m.begun.pc + 1, report := { highlightLine := i.line } } = _ at ran
  rw [ran] at stepped
  exact .here ⟨_, _, stepped, done, completed, shares⟩

/-- The halt ends the program. -/
theorem At.halts {height : Nat} (here : At S height w m pc stack)
    (has : S.code.Has pc ⟨.halt, .null, none⟩) {engine : Engine} (same : engine.Shares w.toEngine) :
    m.Reaches (Completes engine) := by
  have shares := same.trans here.shares
  exact here.completes has rfl rfl rfl ⟨shares.world, shares.host, shares.globals, shares.message⟩

/-- A return outside of calls ends the program. -/
theorem Returns.completes {v : Value} (returns : Returns S 0 stack v w m) {engine : Engine}
    (same : engine.Shares w.toEngine) : m.Reaches (Completes engine) := by
  obtain ⟨address, line, junk, has, here⟩ := returns
  have fetched := here.fetched ⟨.ret, .null, line⟩
  have left := Machine.leave_outer fetched.stack (List.length_eq_zero_iff.mp fetched.height)
  have shares := same.trans fetched.shares
  exact here.completes has left rfl rfl
    ⟨shares.world, shares.host, shares.globals, shares.message⟩

theorem follows_finishProgram {v : Value} (returns : Returns S 0 stack v w m) :
    Follows S Walker.finishProgram w m := by
  have same : Engine.Shares { w.toEngine with status := .completed } w.toEngine :=
    ⟨rfl, rfl, rfl, rfl⟩
  refine simulates_after (returns.completes same) fun m' completes => ?_
  exact follows_last rfl ⟨rfl, rfl, rfl⟩ (.inl ⟨rfl, rfl, completes⟩)

/-- The machine goes to where code leads. -/
theorem tracks_leads {height target : Nat} (leads : S.Leads pc target)
    (here : At S height w m pc stack) :
    Tracks number (pure ()) w m (Rests S height target stack) := by
  obtain rfl | ⟨line, jump⟩ := leads
  · exact tracks_pure here
  · exact tracks_jump here jump

/-- The machine leaves the code of frames that have nothing left to run. -/
theorem Rest.settle (rest : Rest S frames pc) (here : At S 0 w m pc []) :
    m.Reaches fun m' =>
      ∃ pc', At S 0 w m' pc' [] ∧ Rest S (frames.dropWhile Frame.finished) pc' := by
  induction rest generalizing m with
  | halt has => exact .here ⟨_, here, .halt has⟩
  | @frame statements index number second pc next target outer placed common leads rest ih =>
    cases ended : Frame.finished { statements, index } with
    | false =>
      rw [List.dropWhile_cons, ended, if_neg Bool.false_ne_true]
      exact .here ⟨pc, here, .frame placed common leads rest⟩
    | true =>
      rw [List.dropWhile_cons, ended, if_pos rfl]
      have through : statements.length ≤ index := by simpa [Frame.finished] using ended
      rw [List.drop_eq_nil_of_le through] at placed
      cases placed
      have reached : m.Reaches fun m' => At S 0 w m' target [] ∧ m.Keeps 0 m' ∧ w.Steady w :=
        tracks_leads leads here
      exact reached.bind fun m' ⟨here, _⟩ => ih here

theorem Abreast.unwind (abreast : Abreast S w m) : m.Reaches (Abreast S w.unwind) := by
  obtain ⟨pc, stack, here, under⟩ := abreast
  have stays := here.withFrames (w.frames.dropWhile Frame.finished)
  generalize same : w.frames = frames at under
  cases under with
  | rest rest =>
    refine (rest.settle here).mono fun m' ⟨pc', here, rest⟩ => ?_
    rw [← same] at rest
    exact ⟨pc', [], here.withFrames _, .rest rest⟩
  | turn turns body within rest =>
    refine .here ⟨pc, stack, stays, ?_⟩
    show Under S m (w.frames.dropWhile Frame.finished) pc stack
    rw [same]
    exact .turn turns body within rest

end Endings

end Stepwise
