import Stepwise.Machine.Debug
import Stepwise.Proofs.Machine.Steps
import Stepwise.Proofs.Reading.Sources
import Stepwise.Proofs.Reading.Trees
import Stepwise.Proofs.Stack.Calls

/-!
The operand stack of a machine that runs a compiled program, however the machine is driven. Main
statement: between steps the height of the stack depends on the address alone, above the base of the
innermost call.
-/
namespace Stepwise

namespace Machine

/-- What can be reached from a machine by driving it, as long as nothing fails in the host. -/
inductive Reached (start : Machine) : Machine → Prop where
  | start : Reached start start
  | step {m m' : Machine} {report : StepReport} : Reached start m → m.step = (.ok report, m') →
      Reached start m'
  | run {m m' : Machine} {report : StepReport} : Reached start m → m.run = (.ok report, m') →
      Reached start m'
  | runAll {m m' : Machine} {reports : List StepReport} : Reached start m →
      m.runAll = (.ok reports, m') → Reached start m'
  | runUntilBreakpoint {m m' : Machine} {report : StepReport × Bool} : Reached start m →
      m.runUntilBreakpoint = (.ok report, m') → Reached start m'
  | pause {m : Machine} : Reached start m → Reached start m.paused
  | resume {m : Machine} : Reached start m → Reached start m.resumed
  | stepBack {m : Machine} : Reached start m → Reached start m.stepBack.2
  | setGlobal {m : Machine} {name : Name} {v : Value} : Reached start m →
      Reached start { m with toEngine := m.toEngine.setGlobal name v }

/-- The machine and all states it can go back to keep the discipline of the stack. -/
structure Disciplined (program : Program) (code : Code) (H : Nat → Nat) (finish : Nat)
    (m : Machine) : Prop where
  loaded : m.code = some code
  leveled : m.status.isFinal = false → m.snapshot.Leveled program code H finish
  history : ∀ s ∈ m.history, s.Leveled program code H finish

/-- How a step of a program that is not over may end it. -/
structure EndsWell (m m' : Machine) (report : StepReport) (result : Nat) : Prop where
  /-- Only a handler can say that the stack is empty. -/
  sound : ∀ fault, m'.status = .error → m'.fault = some fault → fault.message = underflow →
    ∃ raised line, m.Raises raised ∧ fault = raised.withLine line
  complete : m'.status = .completed → m.frames = [] ∧ ∃ i, m.current? = some i ∧
    ((i.op = .halt ∧ m'.stack.length = result) ∨ (i.op = .ret ∧ m'.stack.length = 1))
  reported : m'.status.isFinal = true → report.done = true

variable {program : Program} {scope : Scope} {keepResult : Bool} {code : Code} {H : Nat → Nat}
  {finish result : Nat} {m m' : Machine} {i : Instruction}

theorem at?_of_has {a : Nat} (has : code.Has a i) : code.at? a = some i := by
  have inside : ¬ ((a : Int) < 0) := by omega
  rw [Code.at?]
  simp only [inside, if_false]
  exact has

theorem lt_size_of_has {a : Nat} (has : code.Has a i) : a < code.size :=
  (Array.getElem?_eq_some_iff.mp has).1

theorem current?_of_has {a : Nat} (loaded : m.code = some code) (pc : m.pc = a)
    (has : code.Has a i) : m.current? = some i := by
  have before : ¬ (code.size : Int) ≤ a := by
    have := lt_size_of_has has
    omega
  rw [current?_eq loaded, pc, if_neg before, at?_of_has has]

/-- A machine under way stands in its program, before an instruction that fits the heights. -/
theorem Disciplined.standing (disciplined : Disciplined program code H finish m)
    (under : m.status.isFinal = false) :
    ∃ a : Nat, m.pc = a ∧ m.Inside program finish a ∧
      (m.stack.length : Int) = baseOf (m.frames.map CallFrame.link) + H a := by
  obtain ⟨⟨a, pc, inside, height⟩, -⟩ := (disciplined.leveled under).level.stands
  have height : (m.stack.length : Int) - baseOf (m.frames.map CallFrame.link) = H a := height
  exact ⟨a, pc, inside, by omega⟩

theorem Disciplined.begun (disciplined : Disciplined program code H finish m)
    (under : m.status.isFinal = false) : ∀ s ∈ m.begun.history, s.Leveled program code H finish := by
  intro s member
  rcases List.mem_cons.mp (List.mem_of_mem_take member) with rfl | older
  · exact disciplined.leveled under
  · exact disciplined.history s older

theorem Disciplined.ready (disciplined : Disciplined program code H finish m)
    (under : m.status.isFinal = false) {a : Nat} (pc : m.pc = a) (i : Instruction) :
    Ready program code H finish a (m.fetched i) where
  loaded := disciplined.loaded
  awake := .inl rfl
  pc := by
    show m.pc + 1 = _
    rw [pc, Int.natCast_add]
    rfl
  classes := (disciplined.leveled under).classes
  level := by
    have level := (disciplined.leveled under).level
    change Level H (program.Region finish) (m.frames.map CallFrame.link) m.pc _ at level
    rw [pc] at level
    exact level

theorem isFinal_of_awake (awake : m.Awake) : m.status.isFinal = false := by
  rcases awake with running | paused
  · rw [running]
    rfl
  · rw [paused]
    rfl

theorem ne_completed_of_awake (awake : m.Awake) : m.status ≠ .completed ∧ m.status ≠ .error := by
  rcases awake with same | same
  all_goals
    rw [same]
    decide

/-- At the halt no call is under way. -/
theorem halt_disciplined (balanced : program.Balanced code H finish result)
    (disciplined : Disciplined program code H finish m) (under : m.status.isFinal = false)
    (pc : m.pc = finish) : m.frames = [] ∧ m.stack.length = result := by
  obtain ⟨a, same, inside, height⟩ := disciplined.standing under
  obtain rfl : a = finish := by omega
  cases frames : m.frames with
  | nil =>
    rw [frames, balanced.finished] at height
    simp only [List.map_nil, baseOf] at height
    exact ⟨rfl, by omega⟩
  | cons frame callers =>
    rw [Inside, frames] at inside
    exact absurd (balanced.behind _ inside) (Nat.lt_irrefl _)

/-- What an instruction may leave behind: a machine under way, or the end of the program. -/
def Leaves (program : Program) (code : Code) (H : Nat → Nat) (finish result : Nat) (i : Instruction)
    (m next : Machine) : Prop :=
  next.code = some code ∧ next.history = m.begun.history ∧
    ((next.Awake ∧ next.snapshot.Leveled program code H finish) ∨
      (next.status = .completed ∧ next.report.done = true ∧ m.frames = [] ∧
        ((i.op = .halt ∧ next.stack.length = result) ∨ (i.op = .ret ∧ next.stack.length = 1))))

theorem execute_leaves (laid : program.LaidOut scope keepResult code finish)
    (balanced : program.Balanced code H finish result)
    (disciplined : Disciplined program code H finish m) (under : m.status.isFinal = false) :
    ∃ i, m.current? = some i ∧
      (execute i).Ends (m.fetched i) (fun _ => Leaves program code H finish result i m)
        (Failed (m.fetched i)) := by
  obtain ⟨a, pc, inside, -⟩ := disciplined.standing under
  by_cases last : a = finish
  · subst last
    obtain ⟨frames, height⟩ := halt_disciplined balanced disciplined under pc
    refine ⟨_, current?_of_has disciplined.loaded pc balanced.halts, ends_modify ?_⟩
    exact ⟨disciplined.loaded, rfl, .inr ⟨rfl, rfl, frames, .inl ⟨rfl, height⟩⟩⟩
  · obtain ⟨i, taken, given, has, moves, enough, leads⟩ := balanced.fits _ a inside last
    refine ⟨i, current?_of_has disciplined.loaded pc has, ?_⟩
    refine (execute_lands laid balanced (disciplined.ready under pc i)
      ⟨moves, enough, leads⟩).mono ?_ fun _ _ failed => failed
    rintro _ next ⟨loaded, history, ⟨awake, leveled, -⟩ | ⟨returns, frames, completed, reported, height⟩⟩
    · exact ⟨loaded.trans disciplined.loaded, history, .inl ⟨awake, leveled⟩⟩
    · exact ⟨loaded.trans disciplined.loaded, history, .inr ⟨completed, reported,
        frames, .inr ⟨returns, height⟩⟩⟩

theorem leaves_disciplined {next : Machine} (disciplined : Disciplined program code H finish m)
    (under : m.status.isFinal = false) (current : m.current? = some i)
    (leaves : Leaves program code H finish result i m next) :
    Disciplined program code H finish next ∧ EndsWell m next next.report result := by
  obtain ⟨loaded, history, ⟨awake, leveled⟩ | ⟨completed, reported, frames, ends⟩⟩ := leaves
  all_goals refine ⟨⟨loaded, ?_, history ▸ disciplined.begun under⟩, ?_, ?_, ?_⟩
  · exact fun _ => leveled
  · exact fun _ error => absurd error (ne_completed_of_awake awake).2
  · exact fun completed => absurd completed (ne_completed_of_awake awake).1
  · intro final
    rw [isFinal_of_awake awake] at final
    cases final
  · intro running
    rw [completed] at running
    cases running
  · intro _ error
    rw [completed] at error
    cases error
  · exact fun _ => ⟨frames, i, current, ends⟩
  · exact fun _ => reported

theorem stopped_disciplined {next : Machine} (disciplined : Disciplined program code H finish m)
    (under : m.status.isFinal = false) (loaded : next.code = m.code)
    (history : next.history = m.begun.history) {fault : Fault}
    (sound : fault.message = underflow →
      ∃ raised line, m.Raises raised ∧ fault = raised.withLine line) {report : StepReport}
    (reported : report.done = true) :
    Disciplined program code H finish (next.stoppedAt m.pc fault) ∧
      EndsWell m (next.stoppedAt m.pc fault) report result := by
  refine ⟨⟨loaded.trans disciplined.loaded, ?_, history ▸ disciplined.begun under⟩, ?_, ?_,
    fun _ => reported⟩
  · exact fun running => nomatch running
  · rintro _ - ⟨⟩
    exact sound
  · exact fun completed => nomatch completed

theorem step_ends_well (laid : program.LaidOut scope keepResult code finish)
    (balanced : program.Balanced code H finish result)
    (disciplined : Disciplined program code H finish m) (under : m.status.isFinal = false)
    {report : StepReport} (stepped : Steps m (.ok report) m') :
    Disciplined program code H finish m' ∧ EndsWell m m' report result := by
  obtain ⟨i, current, ends⟩ := execute_leaves laid balanced disciplined under
  unfold Act.Ends at ends
  cases stepped with
  | ended ended => simp [finished, disciplined.loaded, under] at ended
  | exhausted =>
    refine @stopped_disciplined _ _ _ _ _ _ m.begun disciplined under rfl rfl _
      (fun same => absurd same ?_) _ rfl
    exact ne_underflow '(' (by simp [underflow_toList, Engine.tooManySteps, Fault.running])
  | behind goes loaded behind => simp [current?_eq loaded, behind] at current
  | executed goes found done =>
    obtain rfl := Option.some.inj (found.symm.trans current)
    rw [done] at ends
    exact leaves_disciplined disciplined under current ends
  | faulted goes found failed =>
    obtain rfl := Option.some.inj (found.symm.trans current)
    rw [failed] at ends
    obtain ⟨loaded, history, apart | raised⟩ := ends
    · refine stopped_disciplined disciplined under loaded history ?_ rfl
      exact fun same => absurd same apart
    · refine stopped_disciplined disciplined under loaded history ?_ rfl
      exact fun _ => ⟨_, _, raised, rfl⟩

/-- What the discipline of the stack needs to know of a compiled program. -/
structure Sound (program : Program) (code : Code) (H : Nat → Nat) (finish result : Nat) : Prop where
  balanced : program.Balanced code H finish result
  laid : ∃ scope keepResult, program.LaidOut scope keepResult code finish

theorem step_disciplined (sound : Sound program code H finish result)
    (disciplined : Disciplined program code H finish m) {report : StepReport}
    (stepped : m.step = (.ok report, m')) :
    Disciplined program code H finish m' ∧ (m'.status.isFinal = true → report.done = true) := by
  have taken := steps_of_eq stepped
  cases under : m.status.isFinal with
  | true =>
    have ended : m.finished = true := by simp [finished, under]
    rw [step, if_pos ended] at stepped
    cases stepped
    exact ⟨disciplined, fun _ => rfl⟩
  | false =>
    obtain ⟨scope, keepResult, laid⟩ := sound.laid
    have ends := step_ends_well laid sound.balanced disciplined under taken
    exact ⟨ends.1, ends.2.reported⟩

/-- A step behind which the program is still under way goes where its instruction may lead. -/
theorem step_turns (sound : Sound program code H finish result)
    (disciplined : Disciplined program code H finish m) (under : m.status.isFinal = false)
    {report : StepReport} (stepped : m.step = (.ok report, m')) (going : report.done = false) :
    ∃ (a : Nat) (i : Instruction) (taken given : Nat), m.pc = a ∧ code.Has a i ∧
      Promised H (m.Inside program finish) a i taken given ∧
      (m.stack.length : Int) = baseOf (m.frames.map CallFrame.link) + H a ∧ Turns i a taken m m' := by
  obtain ⟨scope, keepResult, laid⟩ := sound.laid
  obtain ⟨a, pc, inside, height⟩ := disciplined.standing under
  cases steps_of_eq stepped with
  | ended | exhausted | behind | faulted => cases going
  | @executed j _ goes found ran =>
    by_cases last : a = finish
    · subst last
      rw [current?_of_has disciplined.loaded pc sound.balanced.halts] at found
      cases found
      cases ran
      cases going
    · obtain ⟨i, taken, given, has, moves, enough, leads⟩ := sound.balanced.fits _ a inside last
      rw [current?_of_has disciplined.loaded pc has] at found
      cases found
      have promised : Promised H (m.Inside program finish) a j taken given := ⟨moves, enough, leads⟩
      have lands := execute_lands laid sound.balanced (disciplined.ready under pc j) promised
      unfold Act.Ends at lands
      rw [ran] at lands
      obtain ⟨-, -, ⟨-, -, turns⟩ | ⟨-, -, -, done, -⟩⟩ := lands
      · refine ⟨a, j, taken, given, pc, has, promised, height, ?_⟩
        cases turns with
        | goes leads links rest => exact .goes leads links rest
        | enters base leads under links rest => exact .enters base leads under links rest
        | returns base links rest => exact .returns base links rest
      · rw [done] at going
        cases going

theorem runFor_disciplined (sound : Sound program code H finish result) (fuel : Nat)
    (disciplined : Disciplined program code H finish m) {report : StepReport}
    (ran : m.runFor fuel = (.ok report, m')) : Disciplined program code H finish m' := by
  induction fuel generalizing m with
  | zero =>
    cases ran
    exact disciplined
  | succ fuel ih =>
    unfold runFor at ran
    split at ran
    next => cases ran
    next report next stepped =>
      have disciplined := (step_disciplined sound disciplined stepped).1
      split at ran
      · cases ran
        exact disciplined
      · exact ih disciplined ran

theorem runAllFor_disciplined (sound : Sound program code H finish result) (fuel : Nat)
    {acted reports : List StepReport} (disciplined : Disciplined program code H finish m)
    (ran : m.runAllFor fuel acted = (.ok reports, m')) :
    Disciplined program code H finish m' := by
  induction fuel generalizing m acted with
  | zero =>
    cases ran
    exact disciplined
  | succ fuel ih =>
    unfold runAllFor at ran
    split at ran
    next => cases ran
    next report next stepped =>
      have disciplined := (step_disciplined sound disciplined stepped).1
      dsimp only at ran
      split at ran
      · cases ran
        exact disciplined
      · exact ih disciplined ran

/-- Changing the status of a machine under way does not touch the stack. -/
theorem Disciplined.withStatus (disciplined : Disciplined program code H finish m)
    (under : m.status.isFinal = false) (status : Status) :
    Disciplined program code H finish { m with status } :=
  ⟨disciplined.loaded, fun _ => disciplined.leveled under, disciplined.history⟩

theorem seekFor_disciplined (sound : Sound program code H finish result) (fuel : Nat)
    (disciplined : Disciplined program code H finish m) {report : StepReport × Bool}
    (sought : m.seekFor fuel = (.ok report, m')) : Disciplined program code H finish m' := by
  -- a breakpoint changes the status only of a machine that is still under way
  induction fuel generalizing m with
  | zero =>
    cases sought
    exact disciplined
  | succ fuel ih =>
    unfold seekFor at sought
    split at sought
    · cases sought
    · split at sought
      next => cases sought
      next report next stepped =>
        obtain ⟨disciplined, reported⟩ := step_disciplined sound disciplined stepped
        split at sought
        · cases sought
        · split at sought
          next stops =>
            cases sought
            have going : report.done = false := by simpa using (Bool.and_eq_true_iff.mp stops).1
            refine disciplined.withStatus ?_ .paused
            cases final : next.status.isFinal with
            | false => rfl
            | true => rw [reported final] at going; cases going
          · split at sought
            · cases sought
              exact disciplined
            · exact ih disciplined sought

theorem runUntilBreakpoint_disciplined (sound : Sound program code H finish result)
    (disciplined : Disciplined program code H finish m) {report : StepReport × Bool}
    (ran : m.runUntilBreakpoint = (.ok report, m')) : Disciplined program code H finish m' := by
  unfold runUntilBreakpoint at ran
  split at ran
  next stops =>
    cases ran
    have fresh : m.status = .ready := by simpa using (Bool.and_eq_true_iff.mp stops).1
    exact disciplined.withStatus (by rw [fresh]; rfl) .paused
  next => exact seekFor_disciplined sound _ disciplined ran

theorem paused_disciplined (disciplined : Disciplined program code H finish m) :
    Disciplined program code H finish m.paused := by
  unfold paused Engine.pause
  split
  next running => exact disciplined.withStatus (by rw [running]; rfl) .paused
  next => exact disciplined

theorem resumed_disciplined (disciplined : Disciplined program code H finish m) :
    Disciplined program code H finish m.resumed := by
  unfold resumed Engine.resume
  split
  next paused => exact disciplined.withStatus (by rw [paused]; rfl) .running
  next => exact disciplined

/-- Renaming values changes neither the height of the stack nor the bases of calls. -/
theorem restore_disciplined (loaded : m.code = some code)
    (history : ∀ s ∈ m.history, s.Leveled program code H finish) {s : Snapshot}
    (leveled : s.Leveled program code H finish) :
    Disciplined program code H finish (m.restore s) := by
  refine ⟨loaded, fun _ => ⟨leveled.classes, ?_⟩, history⟩
  have level := leveled.level
  have links : ∀ rename, (s.frames.map (CallFrame.rename rename)).map CallFrame.link =
      s.frames.map CallFrame.link := by
    intro rename
    rw [List.map_map]
    rfl
  show Level H (program.Region finish) ((s.frames.map (CallFrame.rename _)).map CallFrame.link) s.pc
    (s.stack.map (Value.rename _)).length
  rw [links, List.length_map]
  exact level

theorem stepBack_disciplined (disciplined : Disciplined program code H finish m) :
    Disciplined program code H finish m.stepBack.2 := by
  have history := disciplined.history
  unfold stepBack
  split
  next => exact disciplined
  next s older kept =>
    rw [kept] at history
    refine restore_disciplined ?_ ?_ (history s (.head _))
    · exact disciplined.loaded
    · exact fun s member => history s (.tail _ member)

theorem load_disciplined (balanced : program.Balanced code H finish result) (machine : Machine) :
    Disciplined program code H finish (machine.load code) := by
  refine ⟨rfl, fun _ => ⟨?_, 0, rfl, Nat.zero_le _, ?_⟩, ?_⟩
  · exact fun _ _ _ _ found => nomatch found
  · rw [balanced.start]
    rfl
  · exact fun _ member => nomatch member

/-- However a machine is driven, it keeps the discipline of the stack. -/
theorem reached_disciplined (sound : Sound program code H finish result) {start : Machine}
    (fresh : Disciplined program code H finish start) (reached : Reached start m) :
    Disciplined program code H finish m := by
  induction reached with
  | start => exact fresh
  | step _ stepped ih => exact (step_disciplined sound ih stepped).1
  | run _ ran ih => exact runFor_disciplined sound _ ih ran
  | runAll _ ran ih => exact runAllFor_disciplined sound _ ih ran
  | runUntilBreakpoint _ ran ih => exact runUntilBreakpoint_disciplined sound ih ran
  | pause _ ih => exact paused_disciplined ih
  | resume _ ih => exact resumed_disciplined ih
  | stepBack _ ih => exact stepBack_disciplined ih
  | setGlobal _ ih =>
    exact ⟨ih.loaded, fun under => ⟨(ih.leveled under).classes, (ih.leveled under).level⟩, ih.history⟩

theorem sound_of_compile {source readAs filename : String}
    (parsed : Program.parse source readAs = .ok program)
    (compiled : program.compile filename keepResult = .ok code) :
    ∃ finish, Sound program code (program.heightAt keepResult) finish
      (resultHeight keepResult program.main) := by
  have shaped := Program.parse_shaped parsed
  obtain ⟨finish, laid⟩ := Program.laidOut_of_compile shaped compiled
  exact ⟨finish, Program.balanced_of_laidOut shaped laid, _, _, laid⟩

/-- The height of the stack below the innermost call, or below everything outside of calls. -/
def stackBase (m : Machine) : Int := m.frames.head?.elim 0 CallFrame.stackBase

theorem baseOf_links (m : Machine) : baseOf (m.frames.map CallFrame.link) = m.stackBase := by
  unfold stackBase
  cases m.frames <;> rfl

/-- The operand stack of a compiled program is disciplined. One function gives its height above the
innermost call at each address, for every run; so no step finds the stack empty, a halt leaves the
result that was asked for and nothing else, and a return outside of calls leaves one value. -/
theorem stack_disciplined {source readAs filename : String} {program : Program} {keepResult : Bool}
    {code : Code} (parsed : Program.parse source readAs = .ok program)
    (compiled : program.compile filename keepResult = .ok code) :
    ∃ H : Nat → Nat, ∀ machine m : Machine, Reached (machine.load code) m → m.status.isFinal = false →
      (∃ a : Nat, a < code.size ∧ m.pc = a ∧ (m.stack.length : Int) = m.stackBase + H a) ∧
      m.frames.Pairwise (fun inner outer => outer.stackBase ≤ inner.stackBase) ∧
      ∀ report m', m.step = (.ok report, m') →
        (∀ fault, m'.status = .error → m'.fault = some fault → fault.message = underflow →
          ∃ raised line, m.Raises raised ∧ fault = raised.withLine line) ∧
        (m'.status = .completed → m.frames = [] ∧ ∃ i, m.current? = some i ∧
          ((i.op = .halt ∧ m'.stack.length = resultHeight keepResult program.main) ∨
            (i.op = .ret ∧ m'.stack.length = 1))) := by
  obtain ⟨finish, sound⟩ := sound_of_compile parsed compiled
  refine ⟨program.heightAt keepResult, fun machine m reached under => ?_⟩
  have disciplined := reached_disciplined sound (load_disciplined sound.balanced machine) reached
  obtain ⟨scope, kept, laid⟩ := sound.laid
  refine ⟨?_, ?_, ?_⟩
  · obtain ⟨i, current, -⟩ := execute_leaves laid sound.balanced disciplined under
    obtain ⟨a, pc, -, height⟩ := disciplined.standing under
    rw [baseOf_links] at height
    refine ⟨a, ?_, pc, height⟩
    rw [current?_eq disciplined.loaded] at current
    split at current
    next => cases current
    next before => omega
  · exact List.pairwise_map.mp (disciplined.leveled under).level.sorted
  · intro report m' stepped
    have ends := (step_ends_well laid sound.balanced disciplined under (steps_of_eq stepped)).2
    exact ⟨ends.sound, ends.complete⟩

/-- Calls itself out of a loop that counts on the stack. -/
def countdown : String :=
  "def depth(n):\n    repeat 2 times:\n        if n == 0:\n            return n\n" ++
  "        return depth(n - 1) + 1\n    return n\ndepth(2)\n"

/-- Runs a source to a breakpoint on a line. -/
def runToLine (source : String) (line : Int) :
    Except Failure (Driven (StepReport × Bool) × Machine) := do
  let program ← Program.parse source unnamedSource
  let code ← program.compile unnamedSource true
  return (((new {}).addBreakpoint line).load code).runUntilBreakpoint

theorem runToLine_eq_ofChars (source : String) {cs : List Char} (chars : source = String.ofList cs)
    (line : Int) : runToLine source line = (do
      let code ← (← Program.ofChars cs unnamedSource).compile unnamedSource true
      return (((new {}).addBreakpoint line).load code).runUntilBreakpoint) := by
  rw [runToLine, Program.parse_eq_ofChars chars]

theorem reached_of_runToLine {line : Int} {source : String} {report : StepReport × Bool}
    (ran : runToLine source line = .ok (.ok report, m)) :
    ∃ program code, Program.parse source unnamedSource = .ok program ∧
      program.compile unnamedSource true = .ok code ∧
      Reached (((new {}).addBreakpoint line).load code) m := by
  obtain ⟨program, parsed, ran⟩ := bind_eq_ok.mp ran
  obtain ⟨code, compiled, ran⟩ := bind_eq_ok.mp ran
  exact ⟨program, code, parsed, compiled, .runUntilBreakpoint .start (Except.ok.inj ran)⟩

/-- At a breakpoint in the third of three calls, each of which left its counter on the stack. -/
theorem stack_disciplined_countdown : ∃ program code m,
    Program.parse countdown unnamedSource = .ok program ∧
      program.compile unnamedSource true = .ok code ∧
      Reached (((new {}).addBreakpoint 4).load code) m ∧ m.status = .paused ∧
      m.frames.length = 3 ∧ m.stack.length = 3 ∧
      ∃ H : Nat → Nat, ∀ machine m : Machine, Reached (machine.load code) m →
        m.status.isFinal = false →
        ∃ a : Nat, a < code.size ∧ m.pc = a ∧ (m.stack.length : Int) = m.stackBase + H a := by
  have ran : (runToLine countdown 4).toOption.any (fun result => result.1.toOption.isSome &&
      result.2.status = .paused && result.2.frames.length = 3 && result.2.stack.length = 3) = true := by
    rw [runToLine_eq_ofChars countdown (append_eq_ofList rfl rfl)]
    decide +kernel
  obtain ⟨⟨answer, m⟩, result, ran⟩ := exists_ok ran
  cases answer with
  | error failure => cases ran
  | ok report =>
    simp only [Bool.and_eq_true, decide_eq_true_eq] at ran
    obtain ⟨⟨⟨-, paused⟩, frames⟩, stack⟩ := ran
    obtain ⟨program, code, parsed, compiled, reached⟩ := reached_of_runToLine result
    obtain ⟨H, holds⟩ := stack_disciplined parsed compiled
    exact ⟨program, code, m, parsed, compiled, reached, paused, frames, stack, H,
      fun machine m reached under => (holds machine m reached under).1⟩

end Machine

end Stepwise
