import Stepwise.Machine.Debug
import Stepwise.Proofs.Machine.Frame
import Stepwise.Proofs.Stack.Discipline

/-!
Evaluating an expression in the middle of a run. The evaluation takes place on the machine itself,
with another code in the place of the program; whatever becomes of it, the machine is as it was before
but for global variables, cells and the world outside: `evaluate_undisturbed`. Without its limit it
executes instructions until its run is completed or one of them fails, and their number is determined
(`Evaluates`, `Evaluates.unique`). A limit that allows for so many makes no difference
(`Evaluates.finishWithin`).
-/
namespace Stepwise.Machine

variable {m : Machine}

/-- One instruction, and the way its fault stops the machine, touch nothing that was set up. -/
theorem spares_advance (m : Machine) : Spares m m.advance.2 := by
  have tolerant := tolerant_spares
  unfold advance
  split
  next => exact tolerant.refl m
  next code _ =>
    split
    next => exact spares_control m m.pc m.frames m.classes m.stack _ m.report
    next =>
      split
      next => exact tolerant.refl m
      next i _ =>
        have fetched := spares_control m (m.pc + 1) m.frames m.classes m.stack m.status
          { highlightLine := i.line }
        have executed := tolerant.trans _ _ _ fetched (spares_execute i _)
        unfold advanceBy
        split
        next next done => rwa [done] at executed
        next fault next failed =>
          rw [failed] at executed
          exact tolerant.trans _ _ _ executed ⟨rfl, rfl, rfl, rfl, rfl, rfl, rfl, rfl, rfl, .refl _,
            .refl _⟩
        next failure next failed => rwa [failed] at executed

theorem spares_finishWithin (fuel : Nat) (m : Machine) : Spares m (m.finishWithin fuel).2 := by
  have tolerant := tolerant_spares
  induction fuel generalizing m with
  | zero =>
    unfold finishWithin
    split <;> exact tolerant.refl m
  | succ fuel ih =>
    have running := spares_control m m.pc m.frames m.classes m.stack .running m.report
    have advanced := tolerant.trans _ _ _ running (spares_advance _)
    unfold finishWithin
    split
    · exact tolerant.refl m
    · split
      · exact tolerant.refl m
      · split
        next failure next result => rwa [result] at advanced
        next report next result =>
          rw [result] at advanced
          exact tolerant.trans _ _ _ advanced (ih next)

/-- Only a run that completed has a result. -/
theorem completed_of_finishWithin {fuel : Nat} {v : Value} {ended : Machine}
    (finished : m.finishWithin fuel = (some v, ended)) :
    ended.status = .completed ∧ ended.stack.head? = some v := by
  induction fuel generalizing m with
  | zero =>
    unfold finishWithin at finished
    split at finished
    next completed =>
      obtain ⟨top, rfl⟩ := Prod.mk.inj finished
      exact ⟨completed, top⟩
    next => cases finished
  | succ fuel ih =>
    unfold finishWithin at finished
    split at finished
    next completed =>
      obtain ⟨top, rfl⟩ := Prod.mk.inj finished
      exact ⟨completed, top⟩
    next =>
      split at finished
      · cases finished
      · split at finished
        · cases finished
        · exact ih finished

/-- What comes back is the machine from before in all that the evaluation had to spare or that is put
back. -/
theorem reinstate_eq {ended : Machine} (code : Code) (spares : Spares (m.probe code) ended) :
    ended.reinstate m =
      { m with
        globals := ended.globals
        host := ended.host
        world := { m.world with heap := ended.heap, drawn := ended.world.drawn } } := by
  obtain ⟨-, history, historyCap, evaluationSteps, breakpoints, watches, -, maxSteps, maxCallDepth,
    world, -⟩ := spares
  have printed : ended.world.output.take m.world.output.size = m.world.output :=
    World.take_output world.output
  have numbers : ended.world.numbers = m.world.numbers := world.numbers
  simp only [reinstate, printed, numbers, history, historyCap, evaluationSteps, breakpoints, watches,
    maxSteps, maxCallDepth, probe]
  rfl

/-- The machine after an evaluation. -/
theorem evaluate_machine (m : Machine) (source : String) :
    ∃ globals host heap drawn, m.host.Grows host ∧
      (m.evaluate source).2 =
        { m with globals, host, world := { m.world with heap, drawn } } := by
  unfold evaluate
  cases compileExpression source with
  | error failure =>
    refine ⟨m.globals, m.host, m.heap, m.world.drawn, .refl _, ?_⟩
    have printed : m.world.output.take m.world.output.size = m.world.output :=
      World.take_output List.prefix_rfl
    simp only [reinstate, printed]
    rfl
  | ok code =>
    have spares := spares_finishWithin m.evaluationSteps.toNat (m.probe code)
    exact ⟨_, _, _, _, spares.engine.host, reinstate_eq code spares⟩

/-- The value of an evaluation. -/
theorem evaluate_value (m : Machine) (source : String) (proper : (m.evaluate source).1 ≠ .null) :
    ∃ code, compileExpression source = .ok code ∧
      ∃ ended, (m.probe code).finishWithin m.evaluationSteps.toNat =
          (some (m.evaluate source).1, ended) ∧
        ended.status = .completed ∧ ended.stack.head? = some (m.evaluate source).1 := by
  cases compiled : compileExpression source with
  | error failure =>
    simp only [evaluate, compiled] at proper
    exact absurd rfl proper
  | ok code =>
    rcases ran : (m.probe code).finishWithin m.evaluationSteps.toNat with ⟨_ | v, ended⟩
    all_goals simp only [evaluate, compiled, ran] at proper ⊢
    · exact absurd rfl proper
    · exact ⟨code, rfl, ended, ran, completed_of_finishWithin ran⟩

/-- Evaluating never disturbs the program under way, in whatever state the machine is and however the
evaluation ends: it cannot be read or compiled, it fails, it runs out of steps or a handler fails.
Apart from global variables and cells, only what lies outside of the machine can tell that it took
place: the calls that the host has noted and the source of random numbers. So the next step, if there
is one, executes the same instruction in the same place. The value is null unless the source compiles
and its run completes within its steps, with that value on top of the stack. -/
theorem evaluate_undisturbed (m : Machine) (source : String) :
    (∃ globals host heap drawn, m.host.Grows host ∧
      (m.evaluate source).2 =
        { m with globals, host, world := { m.world with heap, drawn } }) ∧
    (m.evaluate source).2.finished = m.finished ∧
    (m.evaluate source).2.current? = m.current? ∧
    ((m.evaluate source).1 ≠ .null → ∃ code, compileExpression source = .ok code ∧
      ∃ ended, (m.probe code).finishWithin m.evaluationSteps.toNat =
          (some (m.evaluate source).1, ended) ∧
        ended.status = .completed ∧ ended.stack.head? = some (m.evaluate source).1) := by
  obtain ⟨globals, host, heap, drawn, grows, same⟩ := evaluate_machine m source
  refine ⟨⟨globals, host, heap, drawn, grows, same⟩, ?_, ?_, evaluate_value m source⟩
  all_goals
    rw [same]
    rfl

/-- A machine about to execute an instruction of an evaluation. -/
def going (m : Machine) : Machine := { m with status := .running }

/-- How an evaluation ends that may execute any number of instructions: how many they are, the value,
if there is one, and the machine that is left. -/
inductive Evaluates : Machine → Nat → Option Value → Machine → Prop where
  | completed {m : Machine} : m.status = .completed → Evaluates m 0 m.stack.head? m
  | stopped {m : Machine} : m.status = .error → Evaluates m 0 none m
  /-- An instruction is left by a failure of the host. -/
  | broken {m ended : Machine} {failure : HostFailure} : m.status.isFinal = false →
      m.going.advance = (.error failure, ended) → Evaluates m 1 none ended
  | further {m next ended : Machine} {report : StepReport} {n : Nat} {v : Option Value} :
      m.status.isFinal = false → m.going.advance = (.ok report, next) → Evaluates next n v ended →
      Evaluates m (n + 1) v ended

/-- An evaluation without a limit executes so many instructions. -/
def Executes (m : Machine) (n : Nat) : Prop := ∃ v ended, m.Evaluates n v ended

variable {m' ended ended' : Machine} {n n' fuel : Nat} {v v' : Option Value}

theorem isFinal_completed (completed : m.status = .completed) : m.status.isFinal = true := by
  rw [completed]
  rfl

theorem isFinal_error (stopped : m.status = .error) : m.status.isFinal = true := by
  rw [stopped]
  rfl

theorem Evaluates.unique (first : m.Evaluates n v ended) (second : m.Evaluates n' v' ended') :
    n' = n ∧ v' = v ∧ ended' = ended := by
  induction first generalizing n' with
  | completed completed =>
    cases second with
    | completed => exact ⟨rfl, rfl, rfl⟩
    | stopped stopped => simp [completed] at stopped
    | broken under | further under => simp [isFinal_completed completed] at under
  | stopped stopped =>
    cases second with
    | completed completed => simp [stopped] at completed
    | stopped => exact ⟨rfl, rfl, rfl⟩
    | broken under | further under => simp [isFinal_error stopped] at under
  | broken under failed =>
    cases second with
    | completed completed => simp [isFinal_completed completed] at under
    | stopped stopped => simp [isFinal_error stopped] at under
    | broken _ failed' =>
      cases failed.symm.trans failed'
      exact ⟨rfl, rfl, rfl⟩
    | further _ advanced => cases failed.symm.trans advanced
  | further under advanced _ ih =>
    cases second with
    | completed completed => simp [isFinal_completed completed] at under
    | stopped stopped => simp [isFinal_error stopped] at under
    | broken _ failed => cases advanced.symm.trans failed
    | further _ advanced' rest =>
      cases advanced.symm.trans advanced'
      obtain ⟨rfl, same⟩ := ih rest
      exact ⟨rfl, same⟩

theorem finishWithin_further (under : m.status.isFinal = false) :
    m.finishWithin (fuel + 1) = match m.going.advance with
      | (.error _, ended) => (none, ended)
      | (.ok _, next) => next.finishWithin fuel := by
  rw [finishWithin, if_neg, if_neg]
  · rfl
  · exact fun stopped => by simp [isFinal_error stopped] at under
  · exact fun completed => by simp [isFinal_completed completed] at under

/-- Within a limit that allows for all instructions an evaluation ends as it does without one. -/
theorem Evaluates.finishWithin (evaluates : m.Evaluates n v ended) (enough : n ≤ fuel) :
    m.finishWithin fuel = (v, ended) := by
  induction evaluates generalizing fuel with
  | completed completed =>
    unfold Machine.finishWithin
    split <;> rw [if_pos completed]
  | @stopped m stopped =>
    have other : ¬ m.status = .completed := by rw [stopped]; decide
    unfold Machine.finishWithin
    split
    · rw [if_neg other]
    · rw [if_neg other, if_pos stopped]
  | broken under failed =>
    obtain ⟨fuel, rfl⟩ := Nat.exists_eq_add_one_of_ne_zero (Nat.ne_of_gt enough)
    rw [finishWithin_further under, failed]
  | further under advanced _ ih =>
    obtain ⟨fuel, rfl⟩ := Nat.exists_eq_add_one_of_ne_zero (Nat.ne_of_gt (Nat.zero_lt_of_lt enough))
    rw [finishWithin_further under, advanced]
    exact ih (Nat.le_of_succ_le_succ enough)

/-- However an evaluation goes on from the second machine, that of the first one comes to the same. -/
def Leads (m m' : Machine) : Prop :=
  ∃ k, ∀ n v ended, m'.Evaluates n v ended → m.Evaluates (n + k) v ended

theorem Leads.refl (m : Machine) : m.Leads m := ⟨0, fun _ _ _ => id⟩

theorem Leads.trans {m'' : Machine} (first : m.Leads m') (rest : m'.Leads m'') : m.Leads m'' := by
  obtain ⟨k, first⟩ := first
  obtain ⟨l, rest⟩ := rest
  exact ⟨l + k, fun n v ended evaluates =>
    Nat.add_assoc n l k ▸ first _ _ _ (rest _ _ _ evaluates)⟩

/-- What every evaluation without calls leaves alone. -/
structure Untouched (m m' : Machine) : Prop where
  globals : m'.globals = m.globals
  cells : ∀ ref cell, m.heap.get? ref = some cell → m'.heap.get? ref = some cell

theorem Untouched.of_eq (globals : m'.globals = m.globals) (heap : m'.heap = m.heap) :
    m.Untouched m' := ⟨globals, fun ref cell => by rw [heap]; exact id⟩

theorem Untouched.trans {m'' : Machine} (first : m.Untouched m') (rest : m'.Untouched m'') :
    m.Untouched m'' :=
  ⟨rest.globals.trans first.globals, fun ref cell here => rest.cells ref cell (first.cells ref cell here)⟩

/-- An evaluation that comes to nothing. -/
def ComesToNothing (m : Machine) : Prop := ∃ n ended, m.Evaluates n none ended ∧ m.Untouched ended

theorem ComesToNothing.after (leads : m.Leads m') (untouched : m.Untouched m')
    (nothing : m'.ComesToNothing) : m.ComesToNothing := by
  obtain ⟨k, leads⟩ := leads
  obtain ⟨n, ended, evaluates, untouched'⟩ := nothing
  exact ⟨n + k, ended, leads n none ended evaluates, untouched.trans untouched'⟩

end Stepwise.Machine
