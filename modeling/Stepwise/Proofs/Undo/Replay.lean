import Stepwise.Proofs.Heap.Core
import Stepwise.Proofs.Undo.History

/-!
Running on after some steps have been undone. The machine that was restored and the one that never
went back have a core in common and go on in step with it, so they end alike: `replay_unchanged`.
-/
namespace Stepwise

theorem CallFrame.rename_eq_twice {ρ σ τ : Ref → Ref} {frame : CallFrame}
    (same : ∀ v ∈ frame.roots, v.rename τ = (v.rename ρ).rename σ) :
    frame.rename τ = (frame.rename ρ).rename σ := by
  have locals : frame.locals.rename τ = (frame.locals.rename ρ).rename σ :=
    Bindings.rename_eq_twice fun entry member =>
      same entry.2 (List.mem_append_left _ (List.mem_map_of_mem member))
  have receiver : frame.receiver.map (Value.rename τ) =
      (frame.receiver.map (Value.rename ρ)).map (Value.rename σ) := by
    cases here : frame.receiver with
    | none => rfl
    | some v => exact congrArg some (same v (List.mem_append_right _ (by rw [here]; exact .head _)))
  simp only [CallFrame.rename, locals, receiver]

theorem CallFrame.roots_rename (ρ : Ref → Ref) (frame : CallFrame) :
    (frame.rename ρ).roots = frame.roots.map (Value.rename ρ) := by
  cases here : frame.receiver <;>
    simp [CallFrame.rename, CallFrame.roots, Bindings.rename, here, Function.comp_def]

/-- An instruction that calls none of the random functions. -/
def Instruction.isSteady (i : Instruction) : Bool :=
  i.callee?.all fun name => !(Builtin.ofName? name).any Builtin.isRandom

namespace Machine

variable {ρ σ τ : Ref → Ref} {chance : Prop} {x y m m' : Machine} {code : Code} {N : Nat}

theorem mem_roots_stack {v : Value} (member : v ∈ m.stack) : v ∈ m.roots :=
  List.mem_append_left _ (List.mem_append_left _ member)

theorem mem_roots_globals {entry : Name × Value} (member : entry ∈ m.globals) :
    entry.2 ∈ m.roots :=
  List.mem_append_left _ (List.mem_append_right _ (List.mem_map_of_mem member))

theorem mem_roots_frames {frame : CallFrame} (member : frame ∈ m.frames) {v : Value}
    (root : v ∈ frame.roots) : v ∈ m.roots :=
  List.mem_append_right _ (List.mem_flatMap.mpr ⟨frame, member, root⟩)

/-- A machine with nothing in its heap but what it leads to. -/
def cored (m : Machine) : Machine :=
  let place := m.heap.coreRef m.roots
  { m with
    world := m.world.withHeap (m.heap.core m.roots)
    stack := m.stack.map (Value.rename place)
    globals := m.globals.rename place
    frames := m.frames.map (CallFrame.rename place) }

/-- Two machines that run the same program within the same limits. -/
structure Alongside (m m' : Machine) : Prop where
  numbers : m'.world.numbers = m.world.numbers
  drawn : m'.world.drawn = m.world.drawn
  host : m'.host = m.host
  code : m'.code = m.code
  fault : m'.fault = m.fault
  maxSteps : m'.maxSteps = m.maxSteps
  maxCallDepth : m'.maxCallDepth = m.maxCallDepth
  status : m'.status = m.status ∨ m'.status.isFinal = false ∧ m.status.isFinal = false

/-- Where a state was moved, its core stands. -/
theorem Matches.pairs (same : m.Matches τ m') (alongside : m.Alongside m')
    (alone : ∀ name, m.host.find? name = none) :
    Pairs (m.heap.spread m.roots τ m'.heap) m.cored m' where
  state :=
    have reached {v : Value} (root : v ∈ m.roots) :
        ∀ ref, v.ref? = some ref → m.heap.Reaches m.roots ref := fun _ refers => .root root refers
    { world := ⟨same.heap.embeds, same.output, alongside.numbers, alongside.drawn⟩
      stack := by
        refine ⟨fun v member => ?_, ?_⟩
        · obtain ⟨u, there, rfl⟩ := List.mem_map.mp member
          exact same.heap.below (reached (mem_roots_stack there))
        · show m'.stack = (m.stack.map _).map _
          rw [same.stack, List.map_map]
          exact List.map_congr_left fun v member =>
            same.heap.rename (reached (mem_roots_stack member))
      globals := by
        refine ⟨fun entry member => ?_, ?_⟩
        · obtain ⟨own, there, rfl⟩ := List.mem_map.mp member
          exact same.heap.below (reached (mem_roots_globals there))
        · show m'.globals = (m.globals.rename _).rename _
          rw [same.globals]
          exact Bindings.rename_eq_twice fun entry member =>
            same.heap.rename (reached (mem_roots_globals member))
      frames := by
        refine ⟨fun frame member v root => ?_, ?_⟩
        · obtain ⟨own, there, rfl⟩ := List.mem_map.mp member
          rw [CallFrame.roots_rename] at root
          obtain ⟨u, inner, rfl⟩ := List.mem_map.mp root
          exact same.heap.below (reached (mem_roots_frames there inner))
        · show m'.frames = (m.frames.map _).map _
          rw [same.frames, List.map_map]
          exact List.map_congr_left fun frame member => CallFrame.rename_eq_twice fun v root =>
            same.heap.rename (reached (mem_roots_frames member root))
      host := by
        refine ⟨⟨fun name role bound found => ?_, .inr alone⟩, alongside.host⟩
        have found : m.host.find? name = some (role, bound) := found
        rw [alone] at found
        cases found
      code := alongside.code
      pc := same.pc
      classes := same.classes
      status := rfl
      fault := alongside.fault
      stepCount := same.stepCount
      maxSteps := alongside.maxSteps
      maxCallDepth := alongside.maxCallDepth
      report := rfl }
  status := alongside.status

theorem roots_of_embeds (embeds : Embeds ρ x m) : m.roots = x.roots.map (Value.rename ρ) := by
  have frames : m.frames.flatMap CallFrame.roots =
      (x.frames.flatMap CallFrame.roots).map (Value.rename ρ) := by
    rw [embeds.frames.2, List.flatMap_map, List.map_flatMap]
    exact List.flatMap_congr fun frame _ => CallFrame.roots_rename ρ frame
  have globals : m.globals.map Prod.snd = (x.globals.map Prod.snd).map (Value.rename ρ) := by
    rw [embeds.globals.2, Bindings.rename, List.map_map, List.map_map]
    rfl
  show m.stack ++ m.globals.map Prod.snd ++ m.frames.flatMap CallFrame.roots = _
  rw [embeds.stack.2, globals, frames, ← List.map_append, ← List.map_append]
  rfl

/-- Two machines around one core are in the same state, but for the numbers of cells. -/
theorem matches_of_pairs (first : Pairs ρ x m) (second : Pairs τ x m') : ∃ σ, m.Matches σ m' := by
  have heap := first.state.world.heap
  have heap' := second.state.world.heap
  have below := below_roots first.state
  -- from the numbers of the one back to the core, then on to those of the other
  obtain ⟨back, inverse⟩ : ∃ back : Ref → Ref, ∀ ref < x.heap.size, back (ρ ref) = ref := by
    refine ⟨fun there => Classical.epsilon fun ref => ref < x.heap.size ∧ ρ ref = there, ?_⟩
    intro ref inside
    have found := Classical.epsilon_spec (p := fun own => own < x.heap.size ∧ ρ own = ρ ref)
      ⟨ref, inside, rfl⟩
    exact heap.injective _ found.1 ref inside found.2
  have moved : ∀ v : Value, v.Below x.heap.size → v.rename τ = (v.rename ρ).rename (τ ∘ back) := by
    intro v low
    rw [Value.rename_rename]
    exact Value.rename_congr fun ref refers => congrArg τ (inverse ref (low ref refers)).symm
  have roots : m.settled.roots = x.settled.roots.map (Value.rename ρ) := roots_of_embeds first.state
  have reaches : ∀ ref, m.heap.Reaches m.roots ref → ∃ own, own < x.heap.size ∧ ρ own = ref := by
    intro ref reached
    change m.settled.heap.Reaches m.settled.roots ref at reached
    rw [roots] at reached
    obtain ⟨own, within, rfl⟩ := (heap.reaches_iff below ref).mp reached
    exact ⟨own, heap.below_of_reaches below within, rfl⟩
  refine ⟨τ ∘ back, ⟨?_, ?_, ?_⟩, ?_, ?_, ?_, ?_, ?_, ?_, ?_⟩
  · intro ref reached
    obtain ⟨own, inside, rfl⟩ := reaches ref reached
    exact heap.lt_size inside
  · intro a b reachedA reachedB same
    obtain ⟨ownA, insideA, rfl⟩ := reaches a reachedA
    obtain ⟨ownB, insideB, rfl⟩ := reaches b reachedB
    simp only [Function.comp, inverse ownA insideA, inverse ownB insideB] at same
    rw [heap'.injective ownA insideA ownB insideB same]
  · intro ref cell reached here
    obtain ⟨own, inside, rfl⟩ := reaches ref reached
    obtain ⟨source, there⟩ := Heap.get?_eq_some inside
    cases (heap.cells own source there).symm.trans here
    show m'.heap.get? (τ (back (ρ own))) = _
    rw [inverse own inside]
    refine (heap'.cells own source there).trans (congrArg some ?_)
    exact Cell.rename_eq_twice fun v part => moved v (heap.closed own source there v part)
  · show m'.settled.stack = m.settled.stack.map _
    rw [second.state.stack.2, first.state.stack.2, List.map_map]
    exact List.map_congr_left fun v member => moved v (first.state.stack.1 v member)
  · show m'.settled.globals = Bindings.rename _ m.settled.globals
    rw [second.state.globals.2, first.state.globals.2]
    exact Bindings.rename_eq_twice fun entry member =>
      moved entry.2 (first.state.globals.1 entry member)
  · show m'.settled.frames = m.settled.frames.map _
    rw [second.state.frames.2, first.state.frames.2, List.map_map]
    exact List.map_congr_left fun frame member => CallFrame.rename_eq_twice fun v root =>
      moved v (first.state.frames.1 frame member v root)
  · exact second.pc.trans first.pc.symm
  · exact second.state.classes.trans first.state.classes.symm
  · exact second.stepCount.trans first.stepCount.symm
  · exact second.state.world.output.trans first.state.world.output.symm

/-- Running a machine to its end succeeds and leads to another one. -/
def RunsTo (m last : Machine) : Prop := ∃ reports, m.runAll = (.ok reports, last)

/-- What the reports of earlier steps were does not matter to where a run leads. -/
theorem runAllFor_acted {fuel : Nat} {acted : List StepReport} (other : List StepReport)
    {reports : List StepReport} (ran : m.runAllFor fuel acted = (.ok reports, m')) :
    ∃ reports, m.runAllFor fuel other = (.ok reports, m') := by
  induction fuel generalizing m acted other with
  | zero =>
    cases ran
    exact ⟨_, rfl⟩
  | succ fuel ih =>
    unfold runAllFor at ran ⊢
    rcases stepped : m.step with ⟨failure | report, next⟩
    · rw [stepped] at ran
      cases ran
    · rw [stepped] at ran
      dsimp only at ran ⊢
      split at ran
      next done =>
        cases ran
        rw [if_pos done]
        exact ⟨_, rfl⟩
      next going =>
        rw [if_neg going]
        exact ih _ ran

/-- A machine that is in order and has code to run. -/
structure Upright (code : Code) (m : Machine) : Prop where
  pairs : Pairs id m m
  loaded : m.code = some code
  plain : code.Plain True

namespace Upright

theorem finished (upright : m.Upright code) : m.finished = m.status.isFinal := by
  rw [Machine.finished, upright.loaded, Option.isNone_some, Bool.false_or]

theorem any (upright : m.Upright code) : ∀ other, m.code = some other → other.Plain True := by
  intro other same
  cases upright.loaded.symm.trans same
  exact upright.plain

theorem step (upright : m.Upright code) {result : Driven StepReport}
    (stepped : m.step = (result, m')) : m'.Upright code := by
  cases ended : m.finished with
  | true =>
    rw [Machine.step, if_pos ended] at stepped
    cases stepped
    exact upright
  | false =>
    obtain ⟨pairs, advances⟩ := step_upright upright.pairs ended upright.any
    rw [stepped] at pairs advances
    exact ⟨pairs, advances.code.trans upright.loaded, upright.plain⟩

/-- A step is done exactly when its machine is. -/
theorem done (upright : m.Upright code) {report : StepReport}
    (stepped : m.step = (.ok report, m')) : report.done = m'.status.isFinal := by
  cases ended : m.finished with
  | true =>
    rw [Machine.step, if_pos ended] at stepped
    cases stepped
    exact (upright.finished.symm.trans ended).symm
  | false =>
    have alike := lockstep upright.pairs ended upright.any
    rw [stepped] at alike
    exact alike.2.2.1

/-- A step that is not done leaves one step less. -/
theorem stepsLeft (upright : m.Upright code) {report : StepReport}
    (stepped : m.step = (.ok report, m')) (going : report.done = false) :
    m.stepsLeft = m'.stepsLeft + 1 := by
  have goes : m.Goes := by
    cases steps_of_eq stepped with
    | ended | exhausted | behind | faulted => cases going
    | executed goes => exact goes
  have advances := (step_upright upright.pairs goes.1 upright.any).2
  rw [stepped] at advances
  have within := goes.2
  have count := advances.stepCount
  rw [Engine.stepsLeft, Engine.stepsLeft, advances.maxSteps, count]
  omega

/-- A run that the host does not stop goes on until the program is over. -/
theorem over_of_runAllFor (upright : m.Upright code) {fuel : Nat} (enough : m.stepsLeft ≤ fuel)
    {acted reports : List StepReport} (ran : m.runAllFor fuel acted = (.ok reports, m')) :
    m'.status.isFinal = true := by
  induction fuel generalizing m acted with
  | zero => simp [Engine.stepsLeft] at enough
  | succ fuel ih =>
    unfold runAllFor at ran
    rcases stepped : m.step with ⟨failure | report, next⟩
    · rw [stepped] at ran
      cases ran
    · rw [stepped] at ran
      dsimp only at ran
      split at ran
      next done =>
        cases ran
        exact (upright.done stepped).symm.trans done
      next going =>
        have left := upright.stepsLeft stepped (by simpa using going)
        exact ih (upright.step stepped) (by omega) ran

/-- A run leads where it leads after its first step. -/
theorem runsTo_step (upright : m.Upright code) {last : Machine} (runs : m.RunsTo last) :
    m.step.2.RunsTo last := by
  obtain ⟨reports, ran⟩ := runs
  rw [runAll, Engine.stepsLeft, runAllFor] at ran
  rcases stepped : m.step with ⟨failure | report, next⟩
  · rw [stepped] at ran
    cases ran
  · rw [stepped] at ran
    dsimp only at ran ⊢
    split at ran
    next done =>
      cases ran
      have ended : last.finished = true :=
        (upright.step stepped).finished.trans ((upright.done stepped).symm.trans done)
      refine ⟨[], ?_⟩
      rw [runAll, Engine.stepsLeft, runAllFor, Machine.step, if_pos ended]
      rfl
    next going =>
      have left := upright.stepsLeft stepped (by simpa using going)
      rw [Engine.stepsLeft, Nat.add_right_cancel_iff] at left
      rw [left] at ran
      exact runAllFor_acted [] ran

theorem stepped (upright : m.Upright code) (n : Nat) : (m.stepped n).Upright code := by
  induction n with
  | zero => exact upright
  | succ n ih => exact ih.step rfl

theorem runsTo_stepped (upright : m.Upright code) {last : Machine} (runs : m.RunsTo last) (n : Nat) :
    (m.stepped n).RunsTo last := by
  induction n with
  | zero => exact runs
  | succ n ih => exact (upright.stepped n).runsTo_step ih

end Upright

/-- Two runs that end alike. -/
def RanAlike (ρ : Ref → Ref) :
    Driven (List StepReport) × Machine → Driven (List StepReport) × Machine → Prop
  | (.ok _, x), (.ok _, m) => Pairs ρ x m
  | (.error _, _), (.error _, _) => True
  | _, _ => False

/-- Machines in the same state under other numbers run alike. -/
theorem Pairs.runAllFor (pairs : Pairs ρ x m)
    (plain : ∀ code, x.code = some code → code.Plain True) (fuel : Nat)
    (acted acted' : List StepReport) :
    RanAlike ρ (x.runAllFor fuel acted) (m.runAllFor fuel acted') := by
  induction fuel generalizing x m acted acted' with
  | zero => exact pairs
  | succ fuel ih =>
    unfold Machine.runAllFor
    cases ended : x.finished with
    | true =>
      rw [Machine.step, if_pos ended, Machine.step, if_pos (pairs.finished.trans ended)]
      exact pairs
    | false =>
      have alike := lockstep pairs ended plain
      generalize x.step = result at alike ⊢
      generalize m.step = result' at alike ⊢
      rcases result with ⟨failure | report, x'⟩ <;> rcases result' with ⟨failure' | report', m'⟩
      · trivial
      · exact alike.elim
      · exact alike.elim
      · obtain ⟨pairs', advances, done, done'⟩ := alike
        have same : report'.done = report.done := by rw [done, done', pairs'.isFinal]
        dsimp only
        rw [same]
        split
        · exact pairs'
        · exact ih pairs' (fun code loaded => plain code (advances.code.symm.trans loaded)) _ _

/-- Distinct values that a state holds stay distinct where it was moved. -/
theorem Matches.rename_inj (same : m.Matches τ m') {v w : Value} (rootV : v ∈ m.roots)
    (rootW : w ∈ m.roots) : v.rename τ = w.rename τ ↔ v = w := by
  refine ⟨fun equal => ?_, congrArg _⟩
  have refs : ∀ a b, v.ref? = some a → w.ref? = some b → τ a = τ b → a = b :=
    fun a b refersA refersB => same.heap.injective a b (.root rootV refersA) (.root rootW refersB)
  cases v <;> cases w <;> first
    | exact equal
    | cases equal
    | exact congrArg _ (refs _ _ rfl rfl (by injection equal))

/-- Two variables share a value in a state exactly if they do so where it was moved. -/
theorem Matches.shared (same : m.Matches τ m') (a b : Name) :
    m'.globals.get? a = m'.globals.get? b ↔ m.globals.get? a = m.globals.get? b := by
  have root : ∀ {name v}, m.globals.get? name = some v → v ∈ m.roots := by
    intro name v found
    obtain ⟨known, member, -⟩ := Bindings.mem_of_get? found
    exact mem_roots_globals member
  rw [same.globals, Bindings.get?_rename, Bindings.get?_rename]
  cases hereA : m.globals.get? a with
  | none => cases m.globals.get? b <;> simp
  | some v =>
    cases hereB : m.globals.get? b with
    | none => simp
    | some w => simpa using same.rename_inj (root hereA) (root hereB)

/-- A machine in order and the same state moved elsewhere run alike. -/
theorem Matches.runsTo (same : m.Matches τ m') (alongside : m.Alongside m')
    (alone : ∀ name, m.host.find? name = none) (upright : m.Upright code) {last : Machine}
    (runs : m.RunsTo last) :
    ∃ last', m'.RunsTo last' ∧ (∃ σ, last.Matches σ last') ∧ last'.status = last.status ∧
      last'.fault = last.fault := by
  have self : m.Alongside m := ⟨rfl, rfl, rfl, rfl, rfl, rfl, rfl, .inl rfl⟩
  obtain ⟨reports, ran⟩ := runs
  -- both go on in step with the core they have in common
  have here := ((matches_self upright.pairs).pairs self alone).runAllFor upright.any m.stepsLeft [] []
  have there := (same.pairs alongside alone).runAllFor upright.any m.stepsLeft [] []
  rw [show m.runAllFor m.stepsLeft [] = _ from ran] at here
  rcases ranCore : m.cored.runAllFor m.stepsLeft [] with ⟨failure | _, core⟩
  · rw [ranCore] at here
    exact here.elim
  rw [ranCore] at here there
  rcases ran' : m'.runAllFor m.stepsLeft [] with ⟨failure | reports', last'⟩
  · rw [ran'] at there
    exact there.elim
  rw [ran'] at there
  have here : Pairs _ core last := here
  have there : Pairs _ core last' := there
  have left : m'.stepsLeft = m.stepsLeft := by
    rw [Engine.stepsLeft, Engine.stepsLeft, alongside.maxSteps, same.stepCount]
  have final := upright.over_of_runAllFor (Nat.le_refl _) ran
  refine ⟨last', ⟨reports', by rw [runAll, left, ran']⟩, matches_of_pairs here there, ?_,
    there.state.fault.trans here.state.fault.symm⟩
  have finalCore := here.isFinal.symm.trans final
  rw [here.status.resolve_right fun open' => by simp [open'.2] at finalCore]
  exact there.status.resolve_right fun open' => by simp [open'.2] at finalCore

/-- Steps beyond the end of a program change nothing, so some of the steps are all that count. -/
theorem exists_effective (start : Machine) (N : Nat) :
    ∃ n ≤ N, start.stepped n = start.stepped N ∧ ∀ k < n, (start.stepped k).finished = false := by
  induction N with
  | zero => exact ⟨0, Nat.le_refl _, rfl, fun _ none => nomatch none⟩
  | succ N ih =>
    obtain ⟨n, le, same, under⟩ := ih
    cases ended : (start.stepped N).finished with
    | true =>
      refine ⟨n, Nat.le_succ_of_le le, ?_, under⟩
      rw [same, stepped, step, if_pos ended]
    | false =>
      refine ⟨n + 1, Nat.succ_le_succ le, by rw [stepped, stepped, same], fun k early => ?_⟩
      rcases Nat.lt_succ_iff_lt_or_eq.mp early with earlier | rfl
      · exact under k earlier
      · rw [same, ended]

namespace Effective

variable {start : Machine}

/-- A host without handlers is left alone. -/
theorem host (effective : Effective chance start code N)
    (alone : ∀ name, start.host.find? name = none) {n : Nat} (le : n ≤ N) :
    (start.stepped n).host = start.host := by
  induction n with
  | zero => rfl
  | succ n ih =>
    have before := ih (Nat.le_of_succ_le le)
    exact ((effective.advances le).host (by rwa [before])).trans before

theorem limits (effective : Effective chance start code N) {n : Nat} (le : n ≤ N) :
    (start.stepped n).maxSteps = start.maxSteps ∧
      (start.stepped n).maxCallDepth = start.maxCallDepth ∧
      (start.stepped n).world.numbers = start.world.numbers := by
  induction n with
  | zero => exact ⟨rfl, rfl, rfl⟩
  | succ n ih =>
    have before := ih (Nat.le_of_succ_le le)
    have advances := effective.advances le
    exact ⟨advances.maxSteps.trans before.1, advances.maxCallDepth.trans before.2.1,
      advances.world.numbers.trans before.2.2⟩

/-- Only a program that is over has a fault. -/
theorem faultless (effective : Effective chance start code N) (clean : start.fault = none) {n : Nat}
    (lt : n < N) : (start.stepped n).fault = none := by
  induction n with
  | zero => exact clean
  | succ n ih =>
    have before := ih (Nat.lt_of_succ_lt lt)
    refine ((effective.advances (Nat.lt_of_succ_lt lt)).fault before).resolve_right fun error => ?_
    have under := effective.unfinished (n + 1) lt
    simp [finished, error, Status.isFinal] at under

end Effective

/-- Undoing steps leaves the host, the limits and the source of random numbers as they are. -/
theorem unstepped_keeps (m : Machine) (K : Nat) :
    (m.unstepped K).world.drawn = m.world.drawn ∧ (m.unstepped K).host = m.host ∧
      (m.unstepped K).code = m.code ∧ (m.unstepped K).maxSteps = m.maxSteps ∧
      (m.unstepped K).maxCallDepth = m.maxCallDepth ∧
      (m.unstepped K).world.numbers = m.world.numbers := by
  induction K with
  | zero => exact ⟨rfl, rfl, rfl, rfl, rfl, rfl⟩
  | succ K ih =>
    rw [unstepped, stepBack]
    split
    · exact ih
    · exact ih

/-- A machine from which steps were undone runs alongside the one that never took them. -/
theorem Effective.alongside {start : Machine} (effective : Effective chance start code N)
    (clean : start.fault = none) (alone : ∀ name, start.host.find? name = none)
    (still : ∀ n, (start.stepped n).world.drawn = start.world.drawn) {K : Nat}
    (le : K ≤ min N start.historyCap) :
    (start.stepped (N - K)).Alongside ((start.stepped N).unstepped K) := by
  rcases Nat.eq_zero_or_pos K with rfl | some
  · exact ⟨rfl, rfl, rfl, rfl, rfl, rfl, rfl, .inl rfl⟩
  · obtain ⟨drawn, host, loaded, maxSteps, maxCallDepth, numbers⟩ := unstepped_keeps (start.stepped N) K
    obtain ⟨-, -, undone⟩ := effective.unstepped le
    obtain ⟨paused, faultless⟩ := undone some
    have earlier : N - K < N := by omega
    have limits := effective.limits (Nat.le_refl N)
    have limits' := effective.limits (Nat.le_of_lt earlier)
    refine ⟨?_, ?_, ?_, ?_, ?_, ?_, ?_, .inr ⟨by rw [paused]; rfl, ?_⟩⟩
    · rw [numbers, limits.2.2, limits'.2.2]
    · rw [drawn, still, still]
    · rw [host, effective.host alone (Nat.le_refl N), effective.host alone (Nat.le_of_lt earlier)]
    · rw [loaded, (effective.before (Nat.le_refl N)).2, (effective.before (Nat.le_of_lt earlier)).2]
    · rw [faultless, effective.faultless clean earlier]
    · rw [maxSteps, limits.1, limits'.1]
    · rw [maxCallDepth, limits.2.1, limits'.2.1]
    · have under := effective.unfinished (N - K) earlier
      rw [finished, Bool.or_eq_false_iff] at under
      exact under.2

/-- The run of code that calls none of the random functions draws nothing. -/
theorem Upright.still {start : Machine} (upright : start.Upright code)
    (fresh : start.history = []) (steady : ∀ i ∈ code.instructions, i.isSteady = true) (n : Nat) :
    (start.stepped n).world.drawn = start.world.drawn := by
  have plain : code.Plain False := by
    intro i member
    refine ⟨(upright.plain i member).scalar, fun name called b known random => ?_⟩
    have calm := steady i member
    simp [Instruction.isSteady, called, known, random] at calm
  obtain ⟨N, -, same, unfinished⟩ := exists_effective start n
  have effective : Effective False start code N :=
    ⟨upright.loaded, plain, upright.pairs, fresh, unfinished⟩
  have draws : ∀ k ≤ N, (start.stepped k).world.drawn = start.world.drawn := by
    intro k le
    induction k with
    | zero => rfl
    | succ k ih =>
      exact ((effective.advances le).world.drawn.resolve_left id).trans (ih (Nat.le_of_succ_le le))
  rw [← same]
  exact draws N (Nat.le_refl N)

/-- Undoing steps and running on ends like running without a break. The program has no handlers to
call, and its run draws no random numbers, so the source of these stays where it is; a failure of the
host does not end it. The state gone back to is the one before the steps that were undone, so two
variables share a value in it exactly if they did before. -/
theorem replay_unchanged {source readAs filename : String} {program : Program} {keepResult : Bool}
    (parsed : Program.parse source readAs = .ok program)
    (compiled : program.compile filename keepResult = .ok code) {machine last : Machine}
    (closed : machine.heap.Closed) (alone : ∀ name, machine.host.find? name = none)
    (direct : (machine.load code).RunsTo last)
    (still : ∀ n, ((machine.load code).stepped n).world.drawn = machine.world.drawn) (N K : Nat)
    (kept : K ≤ ((machine.load code).stepped N).history.length) :
    let start := machine.load code
    let back := (start.stepped N).unstepped K
    (∃ last', back.RunsTo last' ∧ last'.status = last.status ∧ last'.fault = last.fault ∧
      ∃ σ, last.Matches σ last') ∧
    ∃ n, start.stepped (n + K) = start.stepped N ∧ (∃ σ, (start.stepped n).Matches σ back) ∧
      ∀ a b, back.globals.get? a = back.globals.get? b ↔
        (start.stepped n).globals.get? a = (start.stepped n).globals.get? b := by
  intro start back
  have sound : machine.host.Sound machine.heap.size := by
    intro name role bound found
    rw [alone] at found
    cases found
  have plain := plain_of_compile parsed compiled
  have upright : start.Upright code := ⟨pairs_load closed sound code, rfl, plain⟩
  obtain ⟨N', -, same, unfinished⟩ := exists_effective start N
  have effective : Effective True start code N' := ⟨rfl, plain, upright.pairs, rfl, unfinished⟩
  have le : K ≤ min N' start.historyCap := by
    rw [← effective.length_history, same]
    exact kept
  have early : N' - K + K = N' := by omega
  have alongside := effective.alongside rfl alone still le
  obtain ⟨-, ⟨σ, moved⟩, -⟩ := effective.unstepped le
  rw [same] at alongside moved
  have quiet : ∀ name, (start.stepped (N' - K)).host.find? name = none := by
    rw [effective.host alone (by omega)]
    exact alone
  obtain ⟨last', runs, ends, status, fault⟩ := moved.runsTo alongside quiet
    (upright.stepped (N' - K)) (upright.runsTo_stepped direct (N' - K))
  refine ⟨⟨last', runs, status, fault, ends⟩, N' - K, by rw [early, same], ⟨σ, moved⟩, ?_⟩
  exact fun a b => moved.shared a b

/-- A list with two names grows, and both names show it. -/
def growing : String := "a = [1]\nb = a\nappend(a, 2)\nprint(b)\n"

/-- Going back to where the two names had just been given, before the list grew. -/
theorem replay_unchanged_growing : ∃ program code last last',
    Program.parse growing unnamedSource = .ok program ∧
      program.compile unnamedSource = .ok code ∧
      (∀ n, (((new {}).load code).stepped n).world.drawn = (new {}).world.drawn) ∧
      5 ≤ (((new {}).load code).stepped 10).history.length ∧
      ((new {}).load code).RunsTo last ∧
      ((((new {}).load code).stepped 10).unstepped 5).RunsTo last' ∧
      last.world.output.size = 1 ∧ ∃ σ, last.Matches σ last' := by
  have ran : (codeOf growing).toOption.any (fun code =>
      code.instructions.all Instruction.isSteady &&
      5 ≤ (((new {}).load code).stepped 10).history.length &&
      ((new {}).load code).runAll.1.toOption.isSome &&
      ((new {}).load code).runAll.2.world.output.size = 1) = true := by
    rw [codeOf_eq_ofChars growing rfl]
    decide +kernel
  obtain ⟨program, code, parsed, compiled, checked⟩ := exists_codeOf ran
  simp only [Bool.and_eq_true, decide_eq_true_eq, Array.all_eq_true_iff_forall_mem] at checked
  obtain ⟨⟨⟨steady, kept⟩, succeeds⟩, printed⟩ := checked
  have closed : (new {}).heap.Closed := fun _ _ here => nomatch here
  have alone : ∀ name, (new {}).host.find? name = none := fun _ => rfl
  have upright : ((new {}).load code).Upright code :=
    ⟨pairs_load closed (fun _ _ _ found => nomatch found) code, rfl, plain_of_compile parsed compiled⟩
  have direct : ((new {}).load code).RunsTo ((new {}).load code).runAll.2 := by
    rcases result : ((new {}).load code).runAll with ⟨_ | reports, last⟩
    · simp [result, Except.toOption] at succeeds
    · exact ⟨reports, result⟩
  have still := upright.still rfl steady
  obtain ⟨⟨last', runs, -, -, ends⟩, -⟩ :=
    replay_unchanged parsed compiled closed alone direct still 10 5 kept
  exact ⟨program, code, _, last', parsed, compiled, still, kept, direct, runs, printed, ends⟩

end Machine

end Stepwise
