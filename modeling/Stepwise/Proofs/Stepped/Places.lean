import Stepwise.Proofs.Stepped.Oblivious
import Stepwise.Proofs.Printing.Statements

/-!
Where a statement stands in its source makes no difference to what it does. Only the line of a fault
tells: `akin_exec`.
-/
namespace Stepwise

/-- A failure but for the line of its fault. -/
def Failure.unlined : Failure → Failure
  | .fault of => .fault { of with line := none }
  | .host of => .host of

namespace Walker

variable {α β : Type}

/-- Ends of a computation that differ at most in the line of a fault, and in how the walkers were
driven. -/
inductive Kindred (frames : List Frame) :
    Except Failure α × Walker → Except Failure α × Walker → Prop where
  | ends {a : α} {w w' : Walker} : Resembles True frames w w' → Kindred frames (.ok a, w) (.ok a, w')
  | fails {failure failure' : Failure} {w w' : Walker} : failure.unlined = failure'.unlined →
      Resembles True frames w w' → Kindred frames (.error failure, w) (.error failure', w')

/-- Computations that do the same but for the line of a fault. -/
def Akin (x y : Walk α) : Prop :=
  ∀ frames w w', Resembles True frames w w' → Kindred frames (x w) (y w')

theorem Oblivious.akin {x : Walk α} (oblivious : Oblivious x) : Akin x x := by
  intro frames w w' resembles
  have matched := oblivious True frames w w' resembles
  generalize x w = p at matched ⊢
  generalize x w' = q at matched ⊢
  cases matched with
  | @same result _ _ resembles =>
    cases result with
    | ok => exact .ends resembles
    | error => exact .fails rfl resembles
  | left excused | right excused => exact absurd trivial excused.1

theorem akin_refuseAt (line line' : Option Int) (message : String) (suggestion : Option String) :
    Akin (refuseAt line message suggestion : Walk α) (refuseAt line' message suggestion) :=
  fun _ _ _ resembles => .fails rfl resembles

theorem Akin.bind {x y : Walk α} {f g : α → Walk β} (first : Akin x y)
    (rest : ∀ a, Akin (f a) (g a)) : Akin (x >>= f) (y >>= g) := by
  intro frames w w' resembles
  have ends := first frames w w' resembles
  rw [Act.bind_apply, Act.bind_apply]
  generalize x w = p at ends ⊢
  generalize y w' = q at ends ⊢
  cases ends with
  | ends resembles => exact rest _ frames _ _ resembles
  | fails same resembles => exact .fails same resembles

/-- Computations that do the same as a third one do the same. -/
theorem Akin.join {x y z : Walk α} (first : Akin x z) (second : Akin y z) (oblivious : Oblivious y) :
    Akin x y := by
  intro frames w w' resembles
  have self : Resembles True frames w' w' :=
    ⟨.refl _, rfl, rfl, rfl, resembles.frames, resembles.unfinished, fun _ => rfl⟩
  have first := first frames w w' resembles
  have second := second frames w' w' self
  have own := oblivious.akin frames w' w' self
  generalize x w = p at first ⊢
  generalize y w' = q at second own ⊢
  generalize z w' = r at first second
  have met {u v v' : Walker} (first : Resembles True frames u v) (second : Resembles True frames v' v)
      (own : Resembles True frames v' v') : Resembles True frames u v' :=
    { own with
      engine := first.engine.trans second.engine.symm
      functions := first.functions.trans second.functions.symm
      classes := first.classes.trans second.classes.symm
      locals := first.locals.trans second.locals.symm
      begun := fun counts => (first.begun counts).trans (second.begun counts).symm }
  cases first with
  | ends first =>
    cases second with
    | ends second =>
      cases own with
      | ends own => exact .ends (met first second own)
  | fails same first =>
    cases second with
    | fails same' second =>
      cases own with
      | fails _ own => exact .fails (same.trans same'.symm) (met first second own)

theorem akin_setLine (line line' : Option Int) : Akin (setLine line) (setLine line') :=
  fun _ _ _ resembles => .ends { resembles with engine := resembles.engine }

theorem akin_begin (line line' : Option Int) : Akin (begin line) (begin line') := by
  intro frames w w' resembles
  have count := resembles.begun trivial
  have begins : Resembles True frames { w with line, begun := w.begun + 1 }
      { w' with line := line', begun := w'.begun + 1 } :=
    { resembles with engine := resembles.engine, begun := fun _ => congrArg (· + 1) count }
  have limit : w.maxSteps = w'.maxSteps := resembles.engine.maxSteps
  rw [begin_apply, begin_apply]
  by_cases exceeds : w'.maxSteps < (w'.begun + 1 : Nat)
  · rw [if_pos (by rwa [count, limit]), if_pos exceeds]
    refine .fails ?_ begins
    simp only [Failure.unlined, Engine.tooManySteps, limit]
  · rw [if_neg (by rwa [count, limit]), if_neg exceeds]
    exact .ends begins

theorem akin_exhausted (line line' : Option Int) :
    Akin (do throw (.fault ((← get).tooManySteps line)) : Walk α)
      (do throw (.fault ((← get).tooManySteps line'))) := by
  intro frames w w' resembles
  have limit : w.maxSteps = w'.maxSteps := resembles.engine.maxSteps
  refine .fails ?_ resembles
  simp only [Failure.unlined, Engine.tooManySteps, limit]

section Statements

variable {invoke : Invoke} (unseeing : Unseeing invoke)

include unseeing

/-- Doing the same but for the line of a fault is kept by evaluation and by statements. -/
theorem running_akin : Running Akin (fun _ => {}) invoke where
  pure a := (oblivious_pure a).akin
  throw failure := (oblivious_throw failure).akin
  lift x := (oblivious_lift x).akin
  bind := .bind
  refuseAt pos _ _ := akin_refuseAt pos.line none _ _
  getHeap := oblivious_getHeap.akin
  setHeap heap := (oblivious_setHeap heap).akin
  lookup name := (oblivious_lookup name).akin
  setLine pos := akin_setLine pos.line none
  getFunctions := Oblivious.akin fun counted frames =>
    (binding_facilities unseeing counted frames).getFunctions
  getClasses := Oblivious.akin fun counted frames =>
    (binding_facilities unseeing counted frames).getClasses
  callOutside name args := Oblivious.akin fun counted frames =>
    (binding_facilities unseeing counted frames).callOutside name args
  callBuiltin name args := Oblivious.akin fun counted frames =>
    (binding_facilities unseeing counted frames).callBuiltin name args
  invoke _ f args bound := (unseeing f args bound).akin
  store name v := (oblivious_store name v).akin
  begins pos := akin_begin pos.line none
  exhausted pos _ _ _ _ _ _ := akin_exhausted pos.line none
  bounded empty akin := by
    intro frames w w' resembles
    simp only [Act.bind_apply, Act.get_apply, roundLimit, resembles.engine.maxSteps, empty]
    exact akin _ frames w w' resembles

theorem akin_exec (s : Stmt) (inLoop : Bool) :
    Akin (exec invoke inLoop s) (exec invoke inLoop s.unplaced) :=
  related_exec (running_akin unseeing) Edit.uniform_unplacing s inLoop

/-- Two statements that differ at most in where they stand do the same. -/
theorem akin_of_unplaced {s s' : Stmt} (same : s.unplaced = s'.unplaced) (inLoop : Bool) :
    Akin (exec invoke inLoop s) (exec invoke inLoop s') :=
  (same ▸ akin_exec unseeing s inLoop).join (akin_exec unseeing s' inLoop)
    (oblivious_exec unseeing s' inLoop)

end Statements

end Walker

end Stepwise
