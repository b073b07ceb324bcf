import Stepwise.Proofs.Activation.Stepping
import Stepwise.Proofs.Driving.Statuses

/-!
Whatever the host does with an interpreter and with a walker, as long as it does the same, they stay
abreast, and the activations of the interpreter are at rest between two uses (`at_rest`).
-/
namespace Stepwise.Interpreter

variable {w : Walker} {i : Interpreter}

theorem Abreast.runFor (fuel : Nat) : ∀ {w i}, Abreast w i → Answers (w.runFor fuel) (i.runFor fuel) := by
  induction fuel with
  | zero => exact fun abreast => ⟨rfl, abreast⟩
  | succ fuel ih =>
    intro w i abreast
    obtain ⟨same, next⟩ := abreast.step
    unfold Walker.runFor Interpreter.runFor
    generalize w.step = p at same next ⊢
    generalize i.step = q at same next ⊢
    obtain ⟨_, w⟩ := p
    obtain ⟨result, i⟩ := q
    dsimp only at same next
    subst same
    cases result with
    | error failure => exact ⟨rfl, next⟩
    | ok report =>
      have status : w.status = i.status := congrArg Engine.status next.on.engine
      dsimp only
      rw [status]
      split
      · exact ⟨rfl, next⟩
      · exact ih next

theorem Abreast.runAllFor (fuel : Nat) : ∀ {w i} (acted : List StepReport), Abreast w i →
    Answers (w.runAllFor fuel acted) (i.runAllFor fuel acted) := by
  induction fuel with
  | zero => exact fun acted abreast => ⟨rfl, abreast⟩
  | succ fuel ih =>
    intro w i acted abreast
    obtain ⟨same, next⟩ := abreast.step
    unfold Walker.runAllFor Interpreter.runAllFor
    generalize w.step = p at same next ⊢
    generalize i.step = q at same next ⊢
    obtain ⟨_, w⟩ := p
    obtain ⟨result, i⟩ := q
    dsimp only at same next
    subst same
    cases result with
    | error failure => exact ⟨rfl, next⟩
    | ok report =>
      dsimp only
      split
      · exact ⟨rfl, next⟩
      · exact ih _ next

theorem Abreast.run (abreast : Abreast w i) : Answers w.run i.run := by
  unfold Walker.run Interpreter.run
  rw [abreast.on.engine]
  exact abreast.runFor _

theorem Abreast.runAll (abreast : Abreast w i) : Answers w.runAll i.runAll := by
  unfold Walker.runAll Interpreter.runAll
  rw [abreast.on.engine]
  exact abreast.runAllFor _ []

theorem abreast_reset (engine : w.toEngine = i.toEngine) (program : w.program = i.program)
    (begun : w.begun = i.begun) : Abreast w.reset i.reset := by
  have rewound : w.toEngine.rewind = i.toEngine.rewind := congrArg Engine.rewind engine
  unfold Walker.reset Interpreter.reset
  dsimp only
  rw [program]
  cases loaded : i.program with
  | none => exact ⟨⟨by simp, .nil⟩, rewound, rfl, rfl, rfl, rfl, begun, rfl, rfl, rfl, rfl⟩
  | some program' =>
    refine ⟨⟨?_, .singleton _⟩, rewound, rfl, rfl, rfl, rfl, begun, rfl, rfl, rfl, rfl⟩
    exact List.forall_mem_singleton.mpr (Activation.resting_start program'.main)

/-- What the host can do with an interpreter: what it can do with a walker, and any change of what the
engines have in common, such as another handler or another limit. -/
inductive Use where
  | walk (use : Walker.Use)
  | alter (f : Engine → Engine)

def obey (order : Walker.Order) (i : Interpreter) : Interpreter :=
  match order with
  | .step => i.step.2
  | .run => i.run.2
  | .runAll => i.runAll.2
  | .pause => { i with toEngine := i.toEngine.pause }
  | .resume => { i with toEngine := i.toEngine.resume }
  | .look => i

def apply (use : Use) (i : Interpreter) : Interpreter :=
  match use with
  | .walk (.order order) => i.obey order
  | .walk .reset => i.reset
  | .walk (.load program) => Interpreter.reset { i with program := some program }
  | .walk (.setGlobal name v) => { i with toEngine := i.toEngine.setGlobal name v }
  | .alter f => { i with toEngine := f i.toEngine }

/-- The same use of a walker. -/
def Use.onWalker (use : Use) (w : Walker) : Walker :=
  match use with
  | .walk use => w.apply use
  | .alter f => { w with toEngine := f w.toEngine }

theorem Abreast.obey (abreast : Abreast w i) (order : Walker.Order) :
    Abreast (w.obey order) (i.obey order) := by
  cases order with
  | step => exact abreast.step.abreast
  | run => exact abreast.run.abreast
  | runAll => exact abreast.runAll.abreast
  | pause => exact abreast.alter Engine.pause
  | resume => exact abreast.alter Engine.resume
  | look => exact abreast

/-- The same use takes both equally far. -/
theorem Abreast.apply (abreast : Abreast w i) (use : Use) : Abreast (use.onWalker w) (i.apply use) := by
  obtain ⟨engine, program, -, -, -, begun, -, -, -, -⟩ := abreast.on
  cases use with
  | alter f => exact abreast.alter f
  | walk use =>
    cases use with
    | order order => exact abreast.obey order
    | reset => exact abreast_reset engine program begun
    | load program =>
      exact abreast_reset (w := { w with program := some program })
        (i := { i with program := some program }) engine rfl begun
    | setGlobal name v => exact abreast.alter (Engine.setGlobal · name v)

theorem Abreast.uses (abreast : Abreast w i) (uses : List Use) :
    Abreast (uses.foldl (fun w use => use.onWalker w) w) (uses.foldl (fun i use => i.apply use) i) := by
  induction uses generalizing w i with
  | nil => exact abreast
  | cons use uses ih => exact ih (abreast.apply use)

/-- However an interpreter with a program is used, its activations are at rest between two uses, and it
has come as far as a walker that was used in the same way and answers like it. -/
theorem at_rest (engine : Engine) (program : Program) (uses : List Use) :
    let i := uses.foldl (fun i use => i.apply use)
      (Interpreter.reset { toEngine := engine, program := some program })
    let w := uses.foldl (fun w use => use.onWalker w)
      (Walker.reset { toEngine := engine, program := some program })
    i.AtRest ∧ Abreast w i ∧ i.step.1 = w.step.1 ∧ i.run.1 = w.run.1 ∧ i.runAll.1 = w.runAll.1 := by
  have abreast := (abreast_reset (w := { toEngine := engine, program := some program })
    (i := { toEngine := engine, program := some program }) rfl rfl rfl).uses uses
  exact ⟨abreast.atRest, abreast, abreast.step.same, abreast.run.same, abreast.runAll.same⟩

end Stepwise.Interpreter
