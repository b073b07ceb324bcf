import Stepwise.Proofs.Walker.Steps

/-!
What a walker has left to run between two steps, as one computation: behind the statements and the
rounds left in a frame come those of the frames around it. A loop has one remainder for each bound on
its rounds, and the statements of a frame one for each pace.
-/
namespace Stepwise

namespace Walker

/-- Goes on with something else if a computation goes on. -/
def andThen (x rest : Walk Flow) : Walk Flow := do
  match ← x with
  | .next => rest
  | flow => return flow

variable {α : Type}

theorem andThen_bind (x : Walk α) (f : α → Walk Flow) (rest : Walk Flow) :
    andThen (x >>= f) rest = x >>= fun a => andThen (f a) rest := by
  rw [andThen, bind_assoc]
  rfl

@[simp] theorem andThen_next (rest : Walk Flow) : andThen (pure .next) rest = rest := rfl

@[simp] theorem andThen_give (v : Value) (rest : Walk Flow) :
    andThen (pure (.give v)) rest = pure (.give v) := rfl

@[simp] theorem andThen_throw (failure : Failure) (rest : Walk Flow) :
    andThen (throw failure) rest = throw failure := rfl

theorem andThen_pure (x : Walk Flow) : andThen x (pure .next) = x :=
  calc andThen x (pure .next) = x >>= pure := bind_congr fun flow => by cases flow <;> rfl
    _ = x := bind_pure x

theorem andThen_ite {c : Prop} [Decidable c] (x y rest : Walk Flow) :
    andThen (if c then x else y) rest = if c then andThen x rest else andThen y rest := by
  split <;> rfl

theorem andThen_assoc (x y rest : Walk Flow) :
    andThen (andThen x y) rest = andThen x (andThen y rest) := by
  unfold andThen
  rw [bind_assoc]
  refine bind_congr fun flow => ?_
  cases flow <;> rfl

theorem execBlock_cons (invoke : Invoke) (inLoop : Bool) (s : Stmt) (ss : List Stmt) :
    execBlock invoke inLoop (s :: ss) =
      andThen (exec invoke inLoop s) (execBlock invoke inLoop ss) := by
  rw [execBlock]
  refine bind_congr fun flow => ?_
  cases flow <;> rfl

/-- Begins a step of its own. -/
def newStep : Walk Unit := fun w =>
  if w.maxSteps < (w.stepCount + 1 : Nat) then (.error (.fault (w.tooManySteps none)), w)
  else (.ok (), w.started)

/-- Runs statements in order, each in a step of its own, until one does not go on. -/
def paced : List Stmt → Walk Flow
  | [] => return .next
  | s :: ss => do
    newStep
    andThen (exec invokeTop false s) (paced ss)

/-- How statements are run one after the other. -/
inductive Pace where
  /-- Within one step. -/
  | atOnce
  /-- Each in a step of its own. -/
  | stepwise

def Pace.run : Pace → List Stmt → Walk Flow
  | .atOnce => execBlock invokeTop false
  | .stepwise => paced

@[simp] theorem Pace.run_nil (pace : Pace) : pace.run [] = pure .next := by
  cases pace <;> simp only [run, execBlock, paced]

/-- Goes on with a round of a loop: with the further rounds, unless it ends the loop. -/
def roundThen (body rounds : Walk Flow) : Walk Flow := do
  match ← body with
  | .next | .again => rounds
  | .leave => return .next
  | .give v => return .give v

theorem runTimes_succ (body : Walk Flow) (count : Nat) :
    runTimes body (count + 1) = roundThen body (runTimes body count) := rfl

theorem runEach_cons (var : Constant) (body : Walk Flow) (item : Value) (items : List Value) :
    runEach var body (item :: items) = (do
      store (← var.name) item
      roundThen body (runEach var body items)) := rfl

end Walker

open Walker

namespace OpenLoop

/-- The rounds of a loop behind the one under way. -/
def furtherRounds (bound : Nat) (loop : OpenLoop) : Walk Flow :=
  let body := execBlock invokeTop true loop.body
  match loop.kind with
  | .times counter limit => runTimes body (limit - (counter + 1))
  | .whileTrue condition => runWhile loop.line (test invokeTop condition) body (pure ()) bound
  | .range var stop step => do
    let var ← var.name
    let _ ← advanceRange var step
    runWhile loop.line (do inRange (← lookup var) stop step) body (discard (advanceRange var step))
      bound
  | .each var items index => runEach var body (items.drop (index + 1))

/-- What is left of a loop: the rest of the body, and the further rounds. -/
def remainder (bound : Nat) (loop : OpenLoop) : Walk Flow :=
  roundThen (execBlock invokeTop true (loop.body.drop loop.position)) (loop.furtherRounds bound)

variable {bound : Nat} {loop : OpenLoop} {s : Stmt}

theorem remainder_some (there : loop.body[loop.position]? = some s) :
    loop.remainder bound = (do
      match ← exec invokeTop true s with
      | .next => remainder bound { loop with position := loop.position + 1 }
      | .again => loop.furtherRounds bound
      | .leave => return .next
      | .give v => return .give v) := by
  obtain ⟨inside, rfl⟩ := List.getElem?_eq_some_iff.mp there
  rw [remainder, List.drop_eq_getElem_cons inside, execBlock_cons, roundThen, andThen, bind_assoc]
  refine bind_congr fun flow => ?_
  cases flow <;> rfl

theorem remainder_end (behind : loop.body.length ≤ loop.position) :
    loop.remainder bound = loop.furtherRounds bound := by
  rw [remainder, List.drop_eq_nil_of_le behind]
  rfl

end OpenLoop

namespace Frame

/-- What is left of a frame. -/
def remainder (pace : Pace) (bound : Nat) (frame : Frame) : Walk Flow :=
  match frame.loop with
  | none => pace.run (frame.statements.drop frame.index)
  | some loop =>
    andThen (loop.remainder bound) (pace.run (frame.statements.drop (frame.index + 1)))

theorem remainder_finished {frame : Frame} (finished : frame.finished = true) (pace : Pace)
    (bound : Nat) : frame.remainder pace bound = pure .next := by
  obtain ⟨statements, index, loop⟩ := frame
  simp only [Frame.finished, Bool.and_eq_true, Option.isNone_iff_eq_none,
    decide_eq_true_eq] at finished
  obtain ⟨rfl, behind⟩ := finished
  show pace.run (statements.drop index) = _
  rw [List.drop_eq_nil_of_le behind, Pace.run_nil]

end Frame

namespace Walker

/-- What is left of some frames, the innermost first. -/
inductive Remains : List Frame → Walk Flow → Prop where
  | nil : Remains [] (pure .next)
  | cons {frame : Frame} {outer : List Frame} {rest : Walk Flow} (pace : Pace) (bound : Nat) :
      Remains outer rest → Remains (frame :: outer) (andThen (frame.remainder pace bound) rest)

variable {frames outer : List Frame} {frame : Frame} {rest : Walk Flow} {pace : Pace}

/-- Frames that have nothing left to run make no difference. -/
theorem Remains.unwind (remains : Remains frames rest) :
    Remains (frames.dropWhile Frame.finished) rest := by
  induction remains with
  | nil => exact .nil
  | @cons frame outer rest pace bound remains ih =>
    cases finished : frame.finished with
    | true =>
      rw [List.dropWhile_cons_of_pos finished, Frame.remainder_finished finished, andThen_next]
      exact ih
    | false =>
      rw [List.dropWhile_cons_of_neg (by simp [finished])]
      exact .cons pace bound remains

/-- What comes behind the statement that a frame is at. -/
def behind (pace : Pace) (frame : Frame) (rest : Walk Flow) : Walk Flow :=
  andThen (pace.run (frame.statements.drop (frame.index + 1))) rest

section Behind

variable (remains : Remains outer rest)

include remains

theorem remains_next (plain : frame.loop = none) :
    Remains (frame.next :: outer) (behind pace frame rest) := by
  have left : frame.next.remainder pace 0 =
      pace.run (frame.statements.drop (frame.index + 1)) := by
    rw [Frame.remainder, Frame.next, plain]
  rw [behind, ← left]
  exact .cons pace 0 remains

theorem remains_closed : Remains (frame.closeLoop :: outer) (behind pace frame rest) :=
  @Remains.cons frame.closeLoop outer rest pace 0 remains

theorem remains_open (loop : OpenLoop) (bound : Nat) :
    Remains ({ frame with loop := some loop } :: outer)
      (andThen (loop.remainder bound) (behind pace frame rest)) := by
  rw [behind, ← andThen_assoc]
  exact @Remains.cons { frame with loop := some loop } outer rest pace bound remains

theorem remains_entered (body : List Stmt) :
    Remains ({ statements := body } :: outer) (andThen (execBlock invokeTop false body) rest) :=
  @Remains.cons { statements := body } outer rest .atOnce 0 remains

end Behind

theorem remains_some {s : Stmt} (remains : Remains (frame :: outer) rest)
    (plain : frame.loop = none) (there : frame.statements[frame.index]? = some s) :
    ∃ (pace : Pace) (others : Walk Flow), Remains outer others ∧
      rest = andThen (pace.run (s :: frame.statements.drop (frame.index + 1))) others := by
  cases remains with
  | @cons _ _ others pace bound remains =>
    obtain ⟨inside, rfl⟩ := List.getElem?_eq_some_iff.mp there
    refine ⟨pace, others, remains, ?_⟩
    rw [Frame.remainder, plain, ← List.drop_eq_getElem_cons inside]

theorem remains_loop {loop : OpenLoop} (remains : Remains (frame :: outer) rest)
    (isOpen : frame.loop = some loop) :
    ∃ pace bound others, Remains outer others ∧
      rest = andThen (loop.remainder bound) (behind pace frame others) := by
  cases remains with
  | @cons _ _ others pace bound remains =>
    refine ⟨pace, bound, others, remains, ?_⟩
    rw [Frame.remainder, isOpen, andThen_assoc]
    rfl

end Walker

end Stepwise
