import Stepwise.Proofs.Driving.Marks
import Stepwise.Proofs.Stepped.Leads
import Stepwise.Proofs.Stepped.Places

/-!
A run to the end of the walker does what is left to run, and nothing else: `concludes_runAll`.
-/
namespace Stepwise.Walker

variable {α β : Type} {frames : List Frame} {rest : Walk Flow} {u w last : Walker}
  {before : List Walker}

/-- How running what is left and a drive to the end go together. A fault may be met at another line. -/
inductive Concludes : Except Failure Flow × Walker → Driven α × Walker → Prop where
  | completed {flow : Flow} {u w : Walker} {answer : α} : u.toEngine.Resembles w.toEngine →
      w.status = .completed → Concludes (.ok flow, u) (.ok answer, w)
  | stopped {failure failure' : Failure} {fault : Fault} {u w : Walker} {answer : α} :
      failure.unlined = failure'.unlined → caught? failure' = some fault →
      u.toEngine.Resembles w.toEngine → Concludes (.error failure, u) (.ok answer, w.stoppedBy fault)
  | broken {failure : HostFailure} {u w : Walker} : caught? (.host failure) = none →
      u.toEngine.Resembles w.toEngine → Concludes (.error (.host failure), u) (.error failure, w)
  | spent {p : Except Failure Flow × Walker} {answer : α} {w : Walker} : w.OutOfSteps →
      Concludes p (.ok answer, w)

theorem Concludes.map {p : Except Failure Flow × Walker} {q : Driven α × Walker}
    (concludes : Concludes p q) (f : α → β) : Concludes p (q.1.map f, q.2) := by
  cases concludes with
  | completed resembles isOver => exact .completed resembles isOver
  | stopped same caught resembles => exact .stopped same caught resembles
  | broken escapes resembles => exact .broken escapes resembles
  | spent isOut => exact .spent isOut

theorem outOfSteps_stoppedBy {failure : Failure} {fault : Fault} (exhausted : failure.IsExhaustion)
    (caught : caught? failure = some fault) : (w.stoppedBy fault).OutOfSteps := by
  obtain ⟨fault, rfl, limit, message⟩ := exhausted
  cases caught
  exact ⟨_, rfl, limit, message⟩

/-- Whether there is room depends on the limit of calls alone. -/
theorem makeRoom_congr (depth : u.maxCallDepth = w.maxCallDepth) :
    makeRoom u = ((makeRoom w).1, u) := by
  simp only [makeRoom, Act.bind_apply, Act.get_apply, depth]
  split
  · rfl
  · split
    · rfl
    · split <;> rfl

theorem room_of_depth (depth : u.maxCallDepth = w.maxCallDepth) (room : (makeRoom w).1 = .ok ()) :
    (makeRoom u).1 = .ok () :=
  (congrArg Prod.fst (makeRoom_congr depth)).trans room

/-- What is left is run until the limit of a step ends it. -/
def Spent (p : Except Failure Flow × Walker) : Prop :=
  ∃ failure u, p = (.error failure, u) ∧ failure.IsExhaustion

theorem outcome_step (remains : Remains w.frames rest)
    (resembles : Resembles False w.frames u w.started) (room : (makeRoom w).1 = .ok ()) :
    Outcome (rest u) (stepFrame w.started) := by
  have outcome := leads_stepFrame remains u w.started resembles
  have depth : u.maxCallDepth = w.maxCallDepth := resembles.engine.maxCallDepth
  rwa [Act.bind_ok ((makeRoom_congr depth).trans (by rw [room]))] at outcome

theorem ending_cases (w : Walker) :
    w.unwind.frames = [] ∧ w.ending = .completed ∨ w.ending = w.status := by
  unfold ending
  split
  next done => exact .inl ⟨by simpa using (Bool.and_eq_true_iff.mp done).1, rfl⟩
  next => exact .inr rfl

/-- A step that goes well and completes the program leaves nothing to run. -/
theorem concludes_settled (outcome : Outcome (rest u) (.ok (), w)) (isOver : w.ending = .completed)
    (report : StepReport) : Spent (rest u) ∨ Concludes (rest u) (.ok report, w.settled) := by
  generalize rest u = p at outcome ⊢
  cases outcome with
  | @goes _ rest u _ same remains resembles =>
    rcases ending_cases w with ⟨empty, -⟩ | still
    · have nothing : rest = pure .next := by
        have remains : Remains w.unwind.frames rest := remains.unwind
        rw [empty] at remains
        cases remains
        rfl
      rw [same, nothing]
      exact .inr (.completed (resembles.engine.driven _ _ _) isOver)
    · have unfinished := resembles.unfinished
      rw [← still, isOver] at unfinished
      cases unfinished
  | completed resembles => exact .inr (.completed (resembles.driven _ _ _) isOver)
  | left exhausted => exact .inl ⟨_, _, rfl, exhausted⟩

/-- A walker is ready for its next step behind one that went well and left something to run. -/
theorem resembles_settled (resembles : Resembles False w.frames u w) :
    Resembles False w.settled.frames u w.settled.started :=
  { resembles with
    engine := resembles.engine.driven _ _ _
    frames := rfl
    unfinished := rfl
    begun := False.elim }

/-- A drive to the end does what is left to run. -/
theorem concludes_course (course : Course Walker.step atEnd w before last)
    (unfinished : w.finished = false) (remains : Remains w.frames rest)
    (resembles : Resembles False w.frames u w.started) (room : (makeRoom w).1 = .ok ()) :
    Spent (rest u) ∨ Concludes (rest u) last.step := by
  induction course generalizing u rest with
  | @last w stop =>
    have outcome := outcome_step remains resembles room
    have steps := steps w
    generalize stepped : w.step = result at steps
    obtain ⟨result, next⟩ := result
    cases steps with
    | ended isOver => exact absurd isOver (by simp [unfinished])
    | exhausted => exact .inr (.spent ⟨_, rfl, Engine.isExhaustion_tooManySteps ..⟩)
    | @went next goes ran =>
      have done : next.settled.report.done = true := stop _ _ stepped
      rw [ran] at outcome
      exact concludes_settled outcome (of_decide_eq_true done) _
    | @stopped failure fault next goes ran caught =>
      rw [ran] at outcome
      generalize rest u = p at outcome ⊢
      cases outcome with
      | failed resembles => exact .inr (.stopped rfl caught resembles)
      | left exhausted => exact .inl ⟨_, _, rfl, exhausted⟩
      | right exhausted => exact .inr (.spent (outOfSteps_stoppedBy exhausted caught))
    | @broken failure next goes ran escapes =>
      rw [ran] at outcome
      generalize rest u = p at outcome ⊢
      cases outcome with
      | failed resembles => exact .inr (.broken escapes resembles)
      | left exhausted => exact .inl ⟨_, _, rfl, exhausted⟩
      | right exhausted =>
        obtain ⟨_, same, -⟩ := exhausted
        cases same
  | @more w _ last report before stepped going course ih =>
    have outcome := outcome_step remains resembles room
    cases steps_of_eq stepped with
    | ended | exhausted | stopped => cases going
    | @went next goes ran =>
      rw [ran] at outcome
      have limits := (walks_stepFrame.ok ran).limits
      have program : next.program = w.program := (walks_stepFrame.ok ran).program
      have undone : next.ending ≠ .completed := of_decide_eq_false going
      generalize rest u = p at outcome ⊢
      cases outcome with
      | @goes _ rest u _ same remains resembles =>
        rw [same]
        refine ih ?_ remains.unwind (resembles_settled resembles) ?_
        · have still := (ending_cases next).resolve_left fun done => undone done.2
          have status : next.settled.status.isFinal = false :=
            (congrArg Status.isFinal still).trans resembles.unfinished
          have loaded : next.settled.program = w.program := program
          rw [Walker.finished, Bool.or_eq_false_iff] at unfinished ⊢
          exact ⟨loaded ▸ unfinished.1, status⟩
        · have depth : next.settled.maxCallDepth = w.maxCallDepth := limits.2.2
          exact room_of_depth depth room
      | completed resembles empty isOver =>
        rcases ending_cases next with ⟨-, done⟩ | still
        · exact absurd done undone
        · exact absurd (still.trans isOver) undone
      | left exhausted => exact .inl ⟨_, _, rfl, exhausted⟩

/-- A run to the end does what is left to run, if there is room for it. -/
theorem concludes_runAll (unfinished : w.finished = false) (remains : Remains w.frames rest)
    (resembles : Resembles False w.frames u w.started) (room : (makeRoom w).1 = .ok ()) :
    Spent (rest u) ∨ Concludes (rest u) w.runAll := by
  obtain ⟨before, last, -, -, course, ran⟩ := exists_runAll w
  rw [ran]
  exact (concludes_course course unfinished remains resembles room).imp_right fun concludes =>
    concludes.map _

end Stepwise.Walker
