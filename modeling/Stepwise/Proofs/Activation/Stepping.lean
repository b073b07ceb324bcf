import Stepwise.Proofs.Activation.Abreast
import Stepwise.Proofs.Stepped.Flows
import Stepwise.Proofs.Walker.Steps

/-!
What a step of the interpreter does, and what the same step of the walker does: they stay abreast
(`Abreast.step`).
-/
namespace Stepwise

open Activation (Quiescent)

namespace Interpreter

variable {w : Walker} {i : Interpreter} {a : Activation} {outer stack : List Activation} {s : Stmt}
  {body : List Stmt}

section Statements

theorem moves_enterBranch (rest : Quiescent (a :: outer))
    (entered : body ≠ [] → Quiescent ({ statements := body } :: a :: outer)) :
    Moves (On (a :: outer)) (fun _ => Abreast) (Walker.enterBranch body) (enterBranch body) := by
  unfold Walker.enterBranch enterBranch
  cases body with
  | nil => exact moves_pure fun w i on => .of_on rest on
  | cons first others =>
    intro w i on
    refine .done () (.of_on (entered (List.cons_ne_nil _ _)) ?_)
    exact { on with
      engine := on.engine
      frames := congrArg (_ :: ·) on.frames
      stack := congrArg (_ :: ·) on.stack }

theorem moves_chooseElif (rest : Quiescent (a :: outer)) (otherwise : Option (List Stmt))
    (elifs : List Elif) :
    Moves (On (a :: outer))
      (fun body w i => On (a :: outer) w i ∧ (body ≠ [] → body ∈ elifs.map Elif.body ++ otherwise.toList))
      (Walker.chooseElif otherwise elifs) (chooseElif otherwise elifs) := by
  induction elifs with
  | nil =>
    refine moves_pure fun w i on => ⟨on, fun filled => ?_⟩
    cases otherwise with
    | none => exact absurd rfl filled
    | some body => exact List.mem_singleton.mpr rfl
  | cons e elifs ih =>
    unfold Walker.chooseElif chooseElif
    refine (moves_alike rest fun scene outermost => alike_test (calls_callTop outermost) e.test).bind
      fun holds => .ite (moves_pure fun w i on => ⟨on, fun _ => List.mem_cons_self⟩) (ih.weaken ?_)
    exact fun body w i chosen => ⟨chosen.1, fun filled => List.mem_cons_of_mem _ (chosen.2 filled)⟩

/-- A loop is opened. -/
theorem moves_opening {form : LoopForm} {limit : Nat} {var : Option Constant} {stop step : Value}
    {items : Option (List Value)} {kind : LoopKind} {line : Option Int} {f : Activation → Activation}
    (rest : Quiescent (a :: outer))
    (resting : (a.opening form s body limit var stop step items).Resting) (here : line = s.line)
    (changed : f a = a.opening form s body limit var stop step items)
    (same : kind = (a.opening form s body limit var stop step items).loopKind form) :
    Moves (On (a :: outer)) (fun _ => Abreast) (Walker.openLoop kind line body) (modifyTop f) := by
  have resting' : (f a).Resting := changed ▸ resting
  refine (moves_top ?_).rest (rest.change resting' (changed ▸ rfl))
  rw [changed, same, here]
  rfl

theorem moves_next (rest : Quiescent (a :: outer)) (closed : a.loopForm = none)
    (there : a.statements[a.index]? = some s) :
    Moves (On (a :: outer)) (fun _ => Abreast) (Walker.modifyFrame Frame.next)
      (modifyTop Activation.next) :=
  (moves_top rfl).rest (rest.change (rest.top.next closed there) rfl)

/-- A statement that neither is a branch or a loop nor returns. -/
theorem moves_straight (rest : Quiescent (a :: outer)) (closed : a.loopForm = none)
    (there : a.statements[a.index]? = some s) (straight : s.Straight) :
    Moves (On (a :: outer)) (fun _ => Abreast)
      (do let _ ← Walker.exec Walker.invokeTop false s; Walker.modifyFrame Frame.next)
      (do perform callTop s; modifyTop Activation.next) := by
  intro w i on
  have ends := performs_exec (calls_callTop rfl) s a rest.top.quiet w i (on.within rest.top)
  rw [rest.top.inLoop, closed, Option.isSome_none] at ends
  rw [Act.bind_apply, Act.bind_apply]
  generalize ran : Walker.exec Walker.invokeTop false s w = p at ends ⊢
  generalize perform callTop s i = q at ends ⊢
  cases ends with
  | @ends flow w' i' within =>
    have goes : .next = flow :=
      Walker.yields_straight Walker.invokeTop (Eq.refl Flow.next) straight _ _ _ ran
    subst goes
    exact moves_next rest closed there w' i' (within.beside rest.top.unnamed rest.top.bare)
  | fails within => exact .failed (.of_on rest (within.beside rest.top.unnamed rest.top.bare))

theorem moves_stepStatement (rest : Quiescent (a :: outer)) (closed : a.loopForm = none)
    (there : a.statements[a.index]? = some s) :
    Moves (On (a :: outer)) (fun _ => Abreast) (Walker.stepStatement s) (stepStatement s) := by
  have straight (plain : s.Straight) := moves_straight rest closed there plain
  have next := moves_next rest closed there
  have counter := (rest.top.closed closed).2
  cases s with
  | branch pos condition body elifs otherwise =>
    have behind : Quiescent (a.next :: outer) := rest.change (rest.top.next closed there) rfl
    have enters {arm : List Stmt}
        (arms : arm ≠ [] → arm ∈ Stmt.arms (.branch pos condition body elifs otherwise)) :=
      moves_enterBranch behind fun filled => behind.push closed rfl there (arms filled)
    refine (moves_top rfl).bind fun _ => ?_
    refine (moves_alike behind fun scene outermost => alike_test (calls_callTop outermost) condition).bind
      fun holds => .ite (enters fun _ => List.mem_cons_self) ?_
    refine (moves_chooseElif behind otherwise elifs).bind fun arm => .knowing fun arms => ?_
    exact enters fun filled => List.mem_cons_of_mem _ (arms filled)
  | loopTimes pos count body =>
    refine (moves_alike rest fun scene outermost =>
      alike_countOf (calls_callTop outermost) pos.line count).bind fun limit => ?_
    by_cases none : limit = 0
    · rw [if_pos none, if_pos none]
      exact next
    · rw [if_neg none, if_neg none, modifyTop_modifyTop]
      have resting := rest.top.opening limit a.forVariable a.forEnd a.forStep a.items closed there rfl rfl
        (fun _ => Nat.pos_of_ne_zero none) (by simp) (by simp [Stmt.loopVariable?])
      refine moves_opening rest resting (by rfl) (by rfl) ?_
      exact congrArg (LoopKind.times · limit) counter.1.symm
  | loopWhile pos condition body =>
    refine (moves_alike rest fun scene outermost => alike_test (calls_callTop outermost) condition).bind
      fun holds => .ite ?_ next
    have resting := rest.top.opening a.loopLimit a.forVariable a.forEnd a.forStep a.items closed there
      rfl rfl (by simp) (by simp) (by simp [Stmt.loopVariable?])
    exact moves_opening rest resting (by rfl) (by rfl) (by rfl)
  | loopRange pos var start stop step body =>
    refine (moves_alike rest fun scene outermost =>
      alike_boundsOf (calls_callTop outermost) pos.line start stop step).bind fun bounds => ?_
    obtain ⟨first, last, step⟩ := bounds
    refine (moves_lift rest var.name).bind fun name => .knowing fun named => ?_
    refine (moves_alike rest fun scene _ => alike_store name first).bind fun _ => ?_
    refine (moves_alike rest fun scene outermost =>
      alike_inRange (calls_callTop outermost) first last step).bind fun holds => .ite ?_ next
    rw [modifyTop_modifyTop]
    have resting := rest.top.opening a.loopLimit (some var) last step a.items closed there rfl rfl
      (by simp) (by simp) (fun _ same => ⟨same, name, Option.some.inj same ▸ named⟩)
    exact moves_opening rest resting (by rfl) (by rfl) (by rfl)
  | loopEach pos var items body =>
    refine (moves_alike rest fun scene outermost =>
      alike_itemsOf (calls_callTop outermost) pos.line items).bind fun items => ?_
    cases items with
    | nil => exact next
    | cons item others =>
      refine (moves_lift rest var.name).bind fun name => .knowing fun named => ?_
      refine (moves_alike rest fun scene _ => alike_store name item).bind fun _ => ?_
      rw [modifyTop_modifyTop]
      have resting := rest.top.opening a.loopLimit (some var) a.forEnd a.forStep (some (item :: others))
        closed there rfl rfl (by simp) (fun _ => ⟨item, others, rfl⟩)
        (fun _ same => ⟨same, name, Option.some.inj same ▸ named⟩)
      refine moves_opening rest resting (by rfl) (by rfl) ?_
      exact congrArg (LoopKind.each var (item :: others)) counter.2.symm
  | give pos value =>
    exact (moves_alike rest fun scene outermost => alike_evalOption (calls_callTop outermost) value).bind
      fun _ => moves_finishProgram
  | _ => exact straight trivial

end Statements

section Loops

variable {form : LoopForm}

/-- The open loop goes on with another round, or it is closed. -/
theorem moves_nextRound (counter index : Nat) (again : Bool) {kind : LoopKind}
    (rest : Quiescent (a :: outer)) (looping : a.Looping s) (opened : a.loopForm = some form)
    (times : form = .times → again = true → counter < a.loopLimit)
    (each : form = .each → again = true → ∃ items, a.items = some items ∧ index < items.length)
    (same : again = true → kind = (a.counting counter index).loopKind form) :
    Moves (Beside ((a :: outer).map Activation.frame) (a.counting counter index :: outer))
      (fun _ => Abreast) (Walker.nextRound kind again)
      (if again then modifyTop (Activation.placed 0) else modifyTop Activation.exitLoop) := by
  intro w i beside
  cases again with
  | false =>
    exact (beside.change rfl rfl).rest (rest.change (rest.top.exitLoop looping.there) rfl)
  | true =>
    obtain ⟨body, -, known, -⟩ := looping.body
    have resting := rest.top.round counter index 0 looping opened known (Nat.zero_le _)
      (times · rfl) (each · rfl)
    refine (beside.change rfl ?_).rest (rest.change resting rfl)
    rw [Activation.frame_round opened, same rfl]
    rfl

theorem Beside.store {frames : List Frame} (beside : Beside frames (a :: outer) w i)
    (unnamed : a.functionName = none) (bare : a.locals = []) (name : Name) (v : Value) :
    ∃ w' i', Walker.store name v w = (.ok (), w') ∧ Interpreter.store name v i = (.ok (), i') ∧
      Beside frames (a :: outer) w' i' := by
  have stored : w.toEngine.setGlobal name v = i.toEngine.setGlobal name v := by rw [beside.engine]
  refine ⟨{ w with toEngine := w.toEngine.setGlobal name v },
    { i with toEngine := i.toEngine.setGlobal name v }, ?_, ?_, { beside with engine := stored }⟩
  · simp only [Walker.store, Act.modify_apply, beside.outside]
  · simp only [Interpreter.store, Act.modify_apply, beside.stack, unnamed, bare]
    rfl

theorem moves_advance (rest : Quiescent (a :: outer)) (opened : a.loopForm = some form) :
    Moves (On (a :: outer)) (fun _ => Abreast) (Walker.advanceLoop (a.loopKind form))
      (do
        if ← advance a then modifyTop fun a => { a with loopBodyIndex := 0 }
        else modifyTop Activation.exitLoop) := by
  obtain ⟨s, looping⟩ := rest.top.opened (by rw [opened]; rfl)
  have shape : some form = s.loopForm? := opened.symm.trans looping.form
  cases s <;> cases shape
  case loopTimes pos count body =>
    intro w i on
    obtain ⟨i', top, beside⟩ := on.modifyTop fun a => { a with loopCounter := a.loopCounter + 1 }
    have advanced : advance a i = (.ok (decide (a.loopCounter + 1 < a.loopLimit)), i') := by
      simp only [advance, opened, Act.bind_ok top, Act.pure_apply]
    rw [Act.bind_ok advanced]
    exact moves_nextRound (a.loopCounter + 1) a.itemIndex _ rest looping opened
      (fun _ => of_decide_eq_true) (by simp) (fun _ => rfl) w i' beside
  case loopWhile pos condition body =>
    have advanced : advance a = evaluation.test condition := by
      simp only [advance, opened, looping.statement]
    have kind : a.loopKind .whileTrue = .whileTrue condition := by
      simp only [Activation.loopKind, looping.statement]
      rfl
    rw [advanced, kind]
    exact (moves_alike rest fun scene outermost => alike_test (calls_callTop outermost) condition).bind
      fun again => moves_nextRound a.loopCounter a.itemIndex again rest looping opened (by simp) (by simp)
        fun _ => kind.symm
  case loopRange pos var start stop step body =>
    obtain ⟨known, name, named⟩ := looping.named var rfl
    have advanced : advance a = (do
        let v ← evaluation.advanceRange (← var.name) a.forStep
        evaluation.inRange v a.forEnd a.forStep) := by
      simp only [advance, opened, known]
    have kind : a.loopKind .range = .range var a.forEnd a.forStep := by
      simp only [Activation.loopKind, known]
      rfl
    rw [advanced, kind, bind_assoc]
    refine (moves_lift rest var.name).bind fun name => .knowing fun _ => ?_
    rw [bind_assoc]
    refine (moves_alike rest fun scene outermost =>
      alike_advanceRange (calls_callTop outermost) name a.forStep).bind fun v => ?_
    exact (moves_alike rest fun scene outermost =>
      alike_inRange (calls_callTop outermost) v a.forEnd a.forStep).bind
      fun again => moves_nextRound a.loopCounter a.itemIndex again rest looping opened (by simp) (by simp)
        fun _ => kind.symm
  case loopEach pos var source body =>
    obtain ⟨known, name, named⟩ := looping.named var rfl
    obtain ⟨items, listed, -⟩ := looping.each opened
    have kind (index : Nat) : ({ a with itemIndex := index } : Activation).loopKind .each =
        .each var items index := by
      simp only [Activation.loopKind, known, listed]
      rfl
    rw [show a.loopKind .each = .each var items a.itemIndex from kind a.itemIndex]
    intro w i on
    obtain ⟨i', top, beside⟩ := on.modifyTop fun a => { a with itemIndex := a.itemIndex + 1 }
    simp only [advance, opened, known, listed, Option.getD_some, Walker.advanceLoop, bind_assoc,
      Act.bind_ok top]
    cases further : items[a.itemIndex + 1]? with
    | none =>
      exact moves_nextRound a.loopCounter (a.itemIndex + 1) false rest looping opened (by simp)
        (by simp) (by simp) w i' beside
    | some item =>
      obtain ⟨w', i'', stored, stored', beside⟩ := beside.store rest.top.unnamed rest.top.bare name item
      have lifted {σ : Type} (x : σ) : (liftM var.name : Act σ Name) x = (.ok name, x) := by
        rw [named]
        rfl
      simp only [bind_assoc, Act.bind_ok (lifted w), Act.bind_ok (lifted i'), Act.bind_ok stored,
        Act.bind_ok stored']
      refine moves_nextRound a.loopCounter (a.itemIndex + 1) true rest looping opened (by simp)
        (fun _ _ => ⟨items, listed, (List.getElem?_eq_some_iff.mp further).1⟩) (fun _ => ?_) w' i'' beside
      exact (kind _).symm

/-- The place in the body of the open loop, where a statement may have left word. -/
theorem change_position {b : Activation} {position : Nat} {f : Activation → Activation}
    (opened : a.loopForm = some form) (changed : f b = a.placed position)
    (beside : Beside ((a :: outer).map Activation.frame) (b :: outer) w i) :
    Meets (fun _ => On (a.placed position :: outer)) (Walker.setPosition position w)
      (modifyTop f i) := by
  refine beside.change changed ?_
  simp only [Activation.frame, Activation.openLoop, Activation.placed, opened, Option.map_some]
  cases form <;> rfl

/-- A statement in the body of the open loop. -/
theorem moves_round {position : Nat} (opened : a.loopForm = some form)
    (placed : ∀ {position : Nat}, position ≤ body.length → Quiescent (a.placed position :: outer))
    (inside : position ≤ body.length) (s : Stmt) :
    Moves (On (a.placed position :: outer)) (fun _ => Abreast)
      (do
        match ← Walker.exec Walker.invokeTop true s with
        | .next => pure ()
        | .leave => Walker.modifyFrame Frame.closeLoop
        | .again => Walker.setPosition body.length
        | .give _ => Walker.finishProgram)
      (do
        perform callTop s
        let a ← getTop
        if a.hasReturned then finishProgram
        else if a.shouldBreak then modifyTop Activation.exitLoop
        else if a.shouldContinue then
          modifyTop fun a => { a with shouldContinue := false, loopBodyIndex := body.length }) := by
  intro w i on
  have rest := placed inside
  have resting := rest.top
  have ends := performs_exec (calls_callTop rfl) s _ resting.quiet w i (on.within resting)
  have inLoop : (a.placed position).inLoop = true := by
    rw [resting.inLoop]
    show a.loopForm.isSome = true
    rw [opened]
    rfl
  rw [inLoop] at ends
  rw [Act.bind_apply, Act.bind_apply]
  generalize Walker.exec Walker.invokeTop true s w = p at ends ⊢
  generalize perform callTop s i = q at ends ⊢
  cases ends with
  | fails within => exact .failed (.of_on rest (within.beside resting.unnamed resting.bare))
  | @ends flow w' i' within =>
    have beside := within.beside (by cases flow <;> exact resting.unnamed)
      (by cases flow <;> exact resting.bare)
    have got : getTop i' = (.ok ((a.placed position).told flow), i') := by
      show (Except.ok (i'.callStack.headD default), i') = _
      rw [beside.stack]
      rfl
    have stays : a.hasReturned = false := resting.stays
    have goesOn : a.shouldBreak = false := resting.goesOn
    have passesOn : a.shouldContinue = false := resting.passesOn
    have falls {c : Bool} (none : c = false) {x y : Run Unit} : (if c then x else y) = y := by
      rw [none, if_neg Bool.false_ne_true]
    dsimp only
    rw [Act.bind_ok got]
    cases flow with
    | give v => exact moves_finishProgram w' i' beside
    | leave =>
      obtain ⟨loop, looping⟩ := resting.opened (by rw [← resting.inLoop]; exact inLoop)
      rw [falls (show ((a.placed position).told .leave).hasReturned = false from stays)]
      exact (beside.change rfl rfl).rest (rest.change (resting.exitLoop looping.there) rfl)
    | again =>
      rw [falls (show ((a.placed position).told .again).hasReturned = false from stays),
        falls (show ((a.placed position).told .again).shouldBreak = false from goesOn)]
      refine (change_position (a := a.placed position) opened ?_ beside).rest
        (placed (Nat.le_refl body.length))
      show { a.placed body.length with shouldContinue := false } = a.placed body.length
      rw [← passesOn]
      rfl
    | next =>
      rw [falls (show ((a.placed position).told .next).hasReturned = false from stays),
        falls (show ((a.placed position).told .next).shouldBreak = false from goesOn),
        falls (show ((a.placed position).told .next).shouldContinue = false from passesOn)]
      exact .done () (.of_on rest beside)

theorem moves_stepLoop (rest : Quiescent (a :: outer)) (opened : a.loopForm = some form) :
    Moves (On (a :: outer)) (fun _ => Abreast) (Walker.stepLoop (a.openLoop form)) (stepLoop a) := by
  unfold Walker.stepLoop stepLoop
  dsimp only [Activation.openLoop]
  cases found : (a.loopBody.getD [])[a.loopBodyIndex]? with
  | none =>
    refine (moves_highlight _).bind fun _ => ?_
    refine (moves_alike rest fun scene _ => alike_setLine _).bind fun _ => ?_
    exact moves_advance rest opened
  | some s =>
    obtain ⟨loop, looping⟩ := rest.top.opened (by rw [opened]; rfl)
    obtain ⟨body, -, known, -⟩ := looping.body
    rw [known, Option.getD_some] at found ⊢
    have placed {position : Nat} (le : position ≤ body.length) : Quiescent (a.placed position :: outer) :=
      rest.change (rest.top.round a.loopCounter a.itemIndex position looping opened known le
        (fun same => looping.times (opened.trans (congrArg some same)))
        fun same => looping.each (opened.trans (congrArg some same))) rfl
    have behind := (List.getElem?_eq_some_iff.mp found).1
    refine Moves.bind (fun w i on => change_position opened rfl on) fun _ => ?_
    refine (moves_highlight _).bind fun _ => ?_
    exact moves_round opened placed behind s

end Loops

section Steps

theorem moves_makeRoom : Moves Abreast (fun _ => Abreast) Walker.makeRoom makeRoom := by
  intro w i abreast
  have limit : w.maxCallDepth = i.maxCallDepth := congrArg Engine.maxCallDepth abreast.on.engine
  simp only [Walker.makeRoom, makeRoom, Act.bind_apply, Act.get_apply, limit]
  split
  · exact .failed abreast
  split
  · exact .failed abreast
  split
  · exact .failed abreast
  · exact .done () abreast

/-- What is finished is dropped. -/
theorem Abreast.unwind (abreast : Abreast w i) : Abreast w.unwind i.unwind := by
  have frames : w.unwind.frames = i.unwind.callStack.map Activation.frame := by
    show w.frames.dropWhile Frame.finished = _
    rw [abreast.on.frames, List.dropWhile_map]
    exact congrArg (List.map Activation.frame)
      (congrArg (List.dropWhile · i.callStack) (funext Activation.finished_frame))
  exact ⟨abreast.rest.suffix (List.dropWhile_suffix _), { abreast.on with
    engine := abreast.on.engine, frames := frames, stack := rfl }⟩

theorem moves_stepTop : Moves Abreast (fun _ => Abreast) Walker.stepFrame stepTop := by
  unfold Walker.stepFrame stepTop
  refine moves_makeRoom.bind fun _ => ?_
  intro w i abreast
  obtain ⟨rest, on⟩ := abreast.unwind
  rw [Act.bind_ok (Act.modify_apply _ w), Act.bind_ok (Act.modify_apply _ i),
    Act.bind_ok (Act.get_apply _), Act.bind_ok (Act.get_apply _)]
  generalize w.unwind = w at on ⊢
  generalize i.unwind = i at on rest ⊢
  rw [on.frames]
  generalize i.callStack = stack at on rest ⊢
  cases stack with
  | nil =>
    have engine : ({ w.toEngine with status := .completed } : Engine) =
        { i.toEngine with status := .completed } := by rw [on.engine]
    exact .done () (.of_on rest { on with engine := engine })
  | cons a outer =>
    rw [List.map_cons]
    dsimp only
    cases opened : a.loopForm with
    | some form =>
      have loop : a.frame.loop = some (a.openLoop form) := by
        rw [Activation.frame, opened, Option.map_some]
      rw [loop]
      exact moves_stepLoop rest opened w i on
    | none =>
      have loop : a.frame.loop = none := by
        rw [Activation.frame, opened, Option.map_none]
      have next : a.frame.statements[a.frame.index]? = a.statements[a.index]? := rfl
      rw [loop]
      dsimp only
      rw [next]
      cases there : a.statements[a.index]? with
      | none => exact .done () (.of_on rest on)
      | some s =>
        exact (((moves_highlight _).bind fun _ =>
          (moves_alike rest fun scene _ => alike_setLine _).bind fun _ =>
          moves_stepStatement rest opened there) w i on)

/-- The same change of what the engines have in common. -/
theorem Abreast.alter (abreast : Abreast w i) (f : Engine → Engine) :
    Abreast { w with toEngine := f w.toEngine } { i with toEngine := f i.toEngine } :=
  ⟨abreast.rest, { abreast.on with engine := congrArg f abreast.on.engine, stack := rfl }⟩

/-- The same answer of both, which are abreast. -/
structure Answers {α : Type} (p : Driven α × Walker) (q : Driven α × Interpreter) : Prop where
  same : q.1 = p.1
  abreast : Abreast p.2 q.2

theorem Abreast.currentLine (abreast : Abreast w i) : i.currentLine = w.currentLine := by
  have same (stack : List Activation) (rest : ∀ a ∈ stack, a.Resting) :
      (stack.map Activation.frame).findSome? Frame.nextLine? = stack.findSome? Activation.nextLine? := by
    induction stack with
    | nil => rfl
    | cons a outer ih =>
      obtain ⟨resting, others⟩ := List.forall_mem_cons.mp rest
      rw [List.map_cons, List.findSome?_cons, List.findSome?_cons, resting.nextLine?_frame, ih others]
  unfold Interpreter.currentLine Walker.currentLine
  rw [abreast.on.frames, same _ abreast.rest.resting]

theorem Abreast.failStep (abreast : Abreast w i) (fault : Fault) :
    Answers (w.failStep fault) (i.failStep fault) := by
  unfold Walker.failStep Interpreter.failStep
  have here : fault.withLine w.line = fault.withLine i.line := by rw [abreast.on.line]
  dsimp only
  rw [here]
  exact ⟨rfl, abreast.alter fun engine => engine.fail (fault.withLine i.line)⟩

theorem Abreast.endStep (abreast : Abreast w i) : Answers w.endStep i.endStep := by
  have abreast := abreast.unwind
  have empty : w.unwind.frames.isEmpty = i.unwind.callStack.isEmpty := by
    rw [abreast.on.frames, List.isEmpty_map]
  have status : w.unwind.status = i.unwind.status := congrArg Engine.status abreast.on.engine
  have report : w.unwind.report = i.unwind.report := congrArg Engine.report abreast.on.engine
  unfold Walker.endStep Interpreter.endStep
  dsimp only
  rw [empty, status, report]
  exact ⟨rfl, abreast.alter fun engine => { engine with status := _, report := _ }⟩

theorem Abreast.finished (abreast : Abreast w i) : i.finished = w.finished := by
  unfold Interpreter.finished Walker.finished
  rw [abreast.on.program, abreast.on.engine]

/-- An interpreter at the beginning of a step. -/
def started (i : Interpreter) : Interpreter :=
  { i with status := .running, stepCount := i.stepCount + 1, report := {}, begun := 0 }

theorem Abreast.started (abreast : Abreast w i) : Abreast w.started i.started := by
  have begun := abreast.alter fun engine =>
    { engine with status := .running, stepCount := engine.stepCount + 1, report := {} }
  exact ⟨begun.rest, { begun.on with engine := begun.on.engine, begun := rfl, stack := rfl }⟩

/-- An interpreter whose step exceeds the limit of steps. -/
def outOfSteps (i : Interpreter) : Interpreter :=
  { i with
    stepCount := i.stepCount + 1
    fault := some (i.tooManySteps i.currentLine)
    status := .error }

theorem Abreast.outOfSteps (abreast : Abreast w i) : Abreast w.outOfSteps i.outOfSteps := by
  have fault : w.tooManySteps w.currentLine = i.tooManySteps i.currentLine := by
    rw [abreast.currentLine, abreast.on.engine]
  have out := abreast.alter fun engine =>
    { engine with
      stepCount := engine.stepCount + 1
      fault := some (i.tooManySteps i.currentLine)
      status := .error }
  unfold Walker.outOfSteps Interpreter.outOfSteps
  rw [fault]
  exact out

/-- A step takes both equally far, and both answer the same. -/
theorem Abreast.step (abreast : Abreast w i) : Answers w.step i.step := by
  have limit : w.maxSteps = i.maxSteps := congrArg Engine.maxSteps abreast.on.engine
  have count : w.stepCount = i.stepCount := congrArg Engine.stepCount abreast.on.engine
  have ends := moves_stepTop _ _ abreast.started
  unfold Walker.step Interpreter.step
  rw [abreast.finished]
  split
  · exact ⟨rfl, abreast⟩
  dsimp only [Walker.started, Interpreter.started] at ends ⊢
  by_cases exceeds : i.maxSteps < (i.stepCount + 1 : Nat)
  · rw [if_pos (by rwa [limit, count]), if_pos exceeds]
    exact ⟨rfl, abreast.outOfSteps⟩
  rw [if_neg (by rwa [limit, count]), if_neg exceeds]
  generalize Walker.stepFrame _ = p at ends ⊢
  generalize stepTop _ = q at ends ⊢
  cases ends with
  | done _ abreast => exact abreast.endStep
  | @failed failure w i abreast =>
    rcases failure with fault | failure
    · exact abreast.failStep fault
    · cases failure with
      | endless => exact abreast.failStep depthExceeded
      | _ => exact ⟨rfl, abreast⟩

end Steps

end Interpreter

end Stepwise
