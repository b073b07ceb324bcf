import Stepwise.Proofs.Driving.Endings

/-!
Where a debug session stops. A session runs to the first breakpoint and goes on behind each of its
calls until one is done, so it cuts a run wherever it stops. Still it stops exactly where the single
steps of one run enter a line with a breakpoint (`session_stops`).
-/
namespace Stepwise

section Positions

variable {σ : Type} {step : σ → Driven StepReport × σ} {stops : σ → StepReport → σ → Bool}
  {s last : σ} {before : List σ}

/-- A drive takes its steps one behind the other, and goes on behind all but the last of them. -/
theorem Course.exists_iterate (course : Course step stops s before last) :
    ∃ n, last = (nextOf step)^[n] s ∧ ∀ i < n, ∃ report,
      (step ((nextOf step)^[i] s)).1 = .ok report ∧
        stops ((nextOf step)^[i] s) report ((nextOf step)^[i + 1] s) = false := by
  induction course with
  | last => exact ⟨0, rfl, fun i under => absurd under (Nat.not_lt_zero i)⟩
  | @more s next last report before stepped going _ ih =>
    obtain ⟨n, same, passes⟩ := ih
    have behind : nextOf step s = next := congrArg Prod.snd stepped
    refine ⟨n + 1, by rw [same, Function.iterate_succ_apply, behind], fun i under => ?_⟩
    cases i with
    | zero =>
      refine ⟨report, congrArg Prod.fst stepped, ?_⟩
      show stops s report (nextOf step s) = false
      rwa [behind]
    | succ i =>
      rw [Function.iterate_succ_apply, Function.iterate_succ_apply _ (i + 1), behind]
      exact passes i (by omega)

end Positions

namespace Machine

variable {m next : Machine} {report : StepReport} {code : Code} {program : Program} {scope : Scope}
  {keepResult : Bool} {main : Segment} {bodies : List Segment} {limit : Int}

/-- The machine behind some single steps. -/
def behind (m : Machine) (count : Nat) : Machine := (nextOf Machine.step)^[count] m

/-- Where single steps enter a line with a breakpoint: in the beginning, or behind a step with which
the program goes on, on a line that differs from the line before the step. -/
def StopsAt (m : Machine) : Nat → Prop
  | 0 => ∃ line ∈ m.breakpoints, m.currentLine = some line
  | count + 1 => ∃ report, (m.behind count).step.1 = .ok report ∧ report.done = false ∧
      ∃ line ∈ m.breakpoints, (m.behind (count + 1)).currentLine = some line ∧
        some line ≠ lineBefore (m.behind count) (m.behind (count + 1))

/-- What a search for a breakpoint answers, and where it leads. -/
abbrev Call := Driven (StepReport × Bool) × Machine

/-- The calls of a debug session, beginning with the given one: the session goes on behind each of
them until one is done. -/
inductive Session : Call → List Call → Prop where
  | finished {report : StepReport} {hit : Bool} {m : Machine} : report.done = true →
      Session (.ok (report, hit), m) [(.ok (report, hit), m)]
  | paused {report : StepReport} {hit : Bool} {m : Machine} {rest : List Call} :
      report.done = false → Session m.continueRun rest →
      Session (.ok (report, hit), m) ((.ok (report, hit), m) :: rest)
  | escaped {failure : HostFailure} {m : Machine} {rest : List Call} :
      Session m.continueRun rest → Session (.error failure, m) ((.error failure, m) :: rest)

/-- The machine at a breakpoint: all it does is wait. -/
def waiting (m : Machine) : Machine := { m with status := .paused }

/-- The machine that a call stopped at a breakpoint. -/
def stop? : Call → Option Machine
  | (.ok (_, true), m) => some m
  | _ => none

theorem behind_succ (m : Machine) (count : Nat) :
    m.behind (count + 1) = (m.behind count).step.2 := Function.iterate_succ_apply' ..

theorem behind_add (m : Machine) (first count : Nat) :
    (m.behind first).behind count = m.behind (first + count) := by
  rw [behind, behind, behind, ← Function.iterate_add_apply, Nat.add_comm]

/-- What every step keeps holds behind any number of steps. -/
theorem behind_keeps {P : Machine → Prop} (kept : ∀ m, P m → P m.step.2) (holds : P m)
    (count : Nat) : P (m.behind count) := by
  induction count with
  | zero => exact holds
  | succ count ih =>
    rw [behind_succ]
    exact kept _ ih

section Steps

/-- A step leaves the breakpoints alone. -/
theorem step_breakpoints (m : Machine) : m.step.2.breakpoints = m.breakpoints :=
  congrArg (fun stepped => stepped.2.breakpoints) (step_watching m m.breakpoints m.watches)

theorem breakpoints_behind (m : Machine) (count : Nat) :
    (m.behind count).breakpoints = m.breakpoints :=
  behind_keeps (P := fun k => k.breakpoints = m.breakpoints)
    (fun k same => (step_breakpoints k).trans same) rfl count

/-- No name is bound to a command. -/
def Uncommanded (m : Machine) : Prop := ∀ name : Name, m.host.commands.get? name = none

theorem Uncommanded.grows (uncommanded : m.Uncommanded) (grows : m.host.Grows next.host) :
    next.Uncommanded := fun name => by
  have same := grows.commands name
  rw [uncommanded name] at same
  exact Option.map_eq_none_iff.mp same

theorem Uncommanded.step (uncommanded : m.Uncommanded) : m.step.2.Uncommanded :=
  uncommanded.grows (step_grows m)

/-- Without commands no step acts. -/
theorem Uncommanded.unacted (uncommanded : m.Uncommanded) (stepped : m.step.1 = .ok report) :
    report.acted = false := by
  have taken := steps m
  rw [stepped] at taken
  generalize m.step.2 = next at taken
  cases taken with
  | ended | exhausted | behind | faulted => rfl
  | @executed i _ _ _ ran =>
    have invokes := invokes_execute i (m.fetched i)
    rw [ran] at invokes
    cases invokes with
    | silent silent =>
      rw [silent.report]
      rfl
    | @answered role name _ _ _ _ found _ _ noted =>
      rw [Host.find?, show (m.fetched i).host.commands.get? (.text name) = none from
        uncommanded (.text name)] at found
      obtain ⟨_, -, same⟩ := Option.map_eq_some_iff.mp found
      cases same
      rw [noted]
      rfl

theorem Worked.begun (worked : Worked m next) (begun : m.status ≠ .ready) : next.status ≠ .ready := by
  induction worked with
  | still still => exact still.status ▸ begun
  | @called m name args =>
    show (m.toEngine.call name args).2.status ≠ .ready
    rw [Engine.status_call]
    split
    · exact fun same => nomatch same
    · exact begun
  | completed => exact fun same => nomatch same
  | trans _ _ first rest => exact rest (first begun)

/-- Behind a step a loaded program has begun. -/
theorem step_begun (loaded : m.code.isSome = true) : m.step.2.status ≠ .ready := by
  have stepped := steps m
  generalize m.step.1 = result at stepped
  generalize m.step.2 = next at stepped ⊢
  cases stepped with
  | ended ended =>
    rw [finished, Option.isNone_eq_false_iff.mpr loaded, Bool.false_or] at ended
    intro same
    rw [same] at ended
    cases ended
  | lost | exhausted | behind | nowhere | faulted => exact fun same => by cases same
  | executed _ _ ran | broken _ _ ran =>
    exact (worked_fetched ran).begun fun same => by cases same

end Steps

section Searches

/-- A search goes the same way whether the program is running or paused. -/
theorem seekFor_status (placed : m.isAstray = false) (unfinished : m.finished = false)
    {status : Status} (going : status.isFinal = false) (fuel : Nat) :
    { m with status }.seekFor (fuel + 1) = m.seekFor (fuel + 1) := by
  have placed' : { m with status }.isAstray = false := placed
  unfold seekFor
  rw [placed, placed', step_status unfinished status going]
  rfl

/-- A session goes on with a search from where it is. -/
theorem continueRun_eq (placed : m.isAstray = false) (loaded : m.code.isSome = true)
    (begun : m.status ≠ .ready) : m.continueRun = m.seekFor m.stepsLeft := by
  have search (k : Machine) (begun : k.status ≠ .ready) :
      k.runUntilBreakpoint = k.seekFor k.stepsLeft := by
    unfold runUntilBreakpoint
    rw [if_neg fun first => begun (of_decide_eq_true (Bool.and_eq_true_iff.mp first).1)]
  unfold continueRun resumed Engine.resume
  split
  next paused =>
    have unfinished : m.finished = false := by
      rw [finished, Option.isNone_eq_false_iff.mpr loaded, paused]
      rfl
    rw [search { m with status := .running } fun same => by cases same]
    exact seekFor_status placed unfinished rfl _
  next => exact search m begun

theorem continueRun_waiting (placed : m.isAstray = false) (loaded : m.code.isSome = true)
    (unfinished : m.finished = false) : m.waiting.continueRun = m.seekFor m.stepsLeft := by
  have begun : m.waiting.status ≠ .ready := fun same => nomatch same
  rw [continueRun_eq (m := m.waiting) placed loaded begun]
  exact seekFor_status placed unfinished rfl _

theorem stopsAfter_iff {previous : Option Int} : m.stopsAfter previous = true ↔
    ∃ line ∈ m.breakpoints, m.currentLine = some line ∧ some line ≠ previous := by
  unfold stopsAfter hasBreakpoint
  cases m.currentLine with
  | none => simp
  | some line => simp [and_comm]

/-- Where single steps enter a line with a breakpoint, as a search sees it. -/
theorem stopsAt_succ {count : Nat} : m.StopsAt (count + 1) ↔
    ∃ report, (m.behind count).step.1 = .ok report ∧ report.done = false ∧
      (m.behind count).step.2.stopsAfter
        (lineBefore (m.behind count) (m.behind count).step.2) = true := by
  simp only [StopsAt, stopsAfter_iff, ← behind_succ, breakpoints_behind]

/-- What a search from behind `start` steps comes to with the step behind `count` steps. -/
inductive Found (m : Machine) (count : Nat) : Call → Prop where
  | finished {report : StepReport} : (m.behind count).step.1 = .ok report → report.done = true →
      Found m count (.ok (report, false), m.behind (count + 1))
  | hit {report : StepReport} : (m.behind count).step.1 = .ok report → report.done = false →
      m.StopsAt (count + 1) →
      Found m count (.ok (report, true), (m.behind (count + 1)).waiting)
  | escaped {failure : HostFailure} : (m.behind count).step.1 = .error failure →
      Found m count (.error failure, m.behind (count + 1))

/-- Steps that a search takes without stopping. -/
def Passes (m : Machine) (count : Nat) : Prop :=
  (∃ report, (m.behind count).step.1 = .ok report) ∧ ¬ m.StopsAt (count + 1)

/-- A machine on its way in compiled code, without commands. -/
structure Alone (code : Code) (main : Segment) (bodies : List Segment) (limit : Int)
    (m : Machine) : Prop where
  contained : Contained code main bodies limit m
  uncommanded : m.Uncommanded

theorem Alone.behind (divided : code.Divided program scope keepResult main bodies)
    (alone : Alone code main bodies limit m) (count : Nat) :
    Alone code main bodies limit (m.behind count) :=
  behind_keeps (fun _ alone => ⟨alone.contained.step divided, alone.uncommanded.step⟩) alone count

/-- A search stops at the first stop of the single steps, unless one of them fails before or ends the
program. -/
theorem Alone.search (divided : code.Divided program scope keepResult main bodies)
    (alone : Alone code main bodies limit m) (start : Nat) :
    ∃ count, start ≤ count ∧ (∀ i, start ≤ i → i < count → m.Passes i) ∧
      m.Found count ((m.behind start).seekFor (m.behind start).stepsLeft) := by
  have placed (i : Nat) : (m.behind i).isAstray = false :=
    (alone.behind divided i).contained.guarded.placed divided
  obtain ⟨before, last, -, -, course, ran⟩ := exists_seek (placed start)
  obtain ⟨n, same, passes⟩ := course.exists_iterate
  have same : last = m.behind (start + n) := same.trans (behind_add m start n)
  refine ⟨start + n, Nat.le_add_right .., fun i after under => ?_, ?_⟩
  · obtain ⟨j, rfl⟩ := Nat.exists_eq_add_of_le after
    obtain ⟨report, stepped, going⟩ := passes j (by omega)
    have here : (nextOf Machine.step)^[j] (m.behind start) = m.behind (start + j) :=
      behind_add m start j
    have there : (nextOf Machine.step)^[j + 1] (m.behind start) = m.behind (start + j + 1) :=
      behind_add m start (j + 1)
    rw [here] at stepped going
    rw [there, behind_succ] at going
    simp only [atBreak, Bool.or_eq_false_iff] at going
    refine ⟨⟨report, stepped⟩, fun stops => ?_⟩
    obtain ⟨_, -, -, stops⟩ := stopsAt_succ.mp stops
    cases stops.symm.trans going.2
  · rw [ran]
    have stop (report : StepReport) (stepped : last.step.1 = .ok report) :=
      course.stop (Prod.ext stepped rfl : last.step = (.ok report, last.step.2))
    subst same
    have there := placed (start + n + 1)
    rw [behind_succ] at there
    have found := @Found m (start + n)
    unfold landing
    rcases stepped : (m.behind (start + n)).step with ⟨failure | report, next⟩
    · have next_eq : m.behind (start + n + 1) = next := by rw [behind_succ, stepped]
      exact next_eq ▸ .escaped (congrArg Prod.fst stepped)
    · have next_eq : m.behind (start + n + 1) = next := by rw [behind_succ, stepped]
      have answered : (m.behind (start + n)).step.1 = .ok report := congrArg Prod.fst stepped
      have stop := stop report answered
      have silent := (alone.behind divided (start + n)).uncommanded.unacted answered
      rw [stepped] at there stop
      dsimp only at there stop ⊢
      rw [there, if_neg Bool.false_ne_true]
      cases isOver : report.done with
      | true =>
        rw [Bool.not_true, Bool.false_and, if_neg Bool.false_ne_true]
        exact next_eq ▸ .finished answered isOver
      | false =>
        simp only [atBreak, there, isOver, silent, Bool.false_or] at stop
        rw [stop, Bool.not_false, Bool.true_and, if_pos rfl]
        refine next_eq ▸ .hit answered isOver (stopsAt_succ.mpr ⟨report, answered, isOver, ?_⟩)
        rw [stepped]
        exact stop

end Searches

section Sessions

/-- Behind the end of the program all machines are the same. -/
theorem behind_over {finish count : Nat} (isOver : (m.behind finish).finished = true)
    (le : finish ≤ count) : m.behind count = m.behind finish := by
  have fixed : nextOf Machine.step (m.behind finish) = m.behind finish :=
    congrArg Prod.snd (blind.rests _ isOver)
  exact iterate_of_fixed fixed le

theorem step_over {finish count : Nat} (isOver : (m.behind finish).finished = true)
    (le : finish ≤ count) : (m.behind count).step = (.ok .ended, m.behind count) :=
  blind.rests _ (behind_over isOver le ▸ isOver)

theorem Contained.exists_finish (divided : code.Divided program scope keepResult main bodies)
    (contained : Contained code main bodies limit m) : ∃ finish, (m.behind finish).finished = true := by
  by_contra! unfinished
  let finish := limit.toNat + 2
  have counted : (m.behind finish).stepCount =
      m.stepCount + ((List.range finish).map m.behind).countP fun k => !k.finished :=
    @count_iterate Machine (nextOf Machine.step) finished (fun m => m.stepCount)
      (fun k => (step_frame k).2.2) finish m
  have all : ((List.range finish).map m.behind).countP (fun k => !k.finished) = finish := by
    refine (List.countP_eq_length.mpr fun k member => ?_).trans (by simp)
    obtain ⟨i, -, rfl⟩ := List.mem_map.mp member
    simpa using unfinished i
  have within := (behind_keeps (fun _ contained => contained.step divided) contained finish).within.le
  rw [counted, all] at within
  omega

variable {start count : Nat} {calls : List Call}

/-- Where the steps before the one behind `count` steps pass, the stops begin behind that one. -/
theorem stopsAt_from (le : start ≤ count) (passes : ∀ i, start ≤ i → i < count → m.Passes i)
    {k : Nat} : (start < k ∧ m.StopsAt k) ↔
      (k = count + 1 ∧ m.StopsAt (count + 1)) ∨ (count + 1 < k ∧ m.StopsAt k) := by
  constructor
  · rintro ⟨later, stops⟩
    obtain ⟨i, rfl⟩ := Nat.exists_eq_add_of_lt later
    have past : count ≤ start + i := Nat.le_of_not_lt fun under =>
      (passes (start + i) (by omega) under).2 stops
    rcases Nat.eq_or_lt_of_le past with rfl | behind
    · exact .inl ⟨rfl, stops⟩
    · exact .inr ⟨by omega, stops⟩
  · rintro (⟨rfl, stops⟩ | ⟨later, stops⟩)
    · exact ⟨by omega, stops⟩
    · exact ⟨by omega, stops⟩

/-- There the failures of the host begin with that step. -/
theorem failed_from (le : start ≤ count) (passes : ∀ i, start ≤ i → i < count → m.Passes i)
    {failure : HostFailure} : (∃ k, start ≤ k ∧ (m.behind k).step = (.error failure, next)) ↔
      (m.behind count).step = (.error failure, next) ∨
        ∃ k, count + 1 ≤ k ∧ (m.behind k).step = (.error failure, next) := by
  constructor
  · rintro ⟨k, later, failed⟩
    have past : count ≤ k := Nat.le_of_not_lt fun under => by
      obtain ⟨⟨report, stepped⟩, -⟩ := passes k later under
      cases (congrArg Prod.fst failed).symm.trans stepped
    rcases Nat.eq_or_lt_of_le past with rfl | behind
    · exact .inl failed
    · exact .inr ⟨k, behind, failed⟩
  · rintro (failed | ⟨k, later, failed⟩)
    · exact ⟨count, le, failed⟩
    · exact ⟨k, by omega, failed⟩

/-- What the calls of a session report that goes on behind `start` steps. -/
structure Reports (m : Machine) (start : Nat) (calls : List Call) : Prop where
  hits : ∃ stops : List Nat, stops.Pairwise (· < ·) ∧
    (∀ count, count ∈ stops ↔ start < count ∧ m.StopsAt count) ∧
    calls.filterMap stop? = stops.map fun count => (m.behind count).waiting
  escapes : ∀ failure next, (.error failure, next) ∈ calls ↔
    ∃ count, start ≤ count ∧ (m.behind count).step = (.error failure, next)
  ends : ∃ report count, report.done = true ∧ (m.behind count).finished = true ∧
    calls.getLast? = some (.ok (report, false), m.behind count)

/-- A call before the others does not change how they end. -/
theorem ends_cons (call : Call)
    (ends : ∃ report count, report.done = true ∧ (m.behind count).finished = true ∧
      calls.getLast? = some (.ok (report, false), m.behind count)) :
    ∃ report count, report.done = true ∧ (m.behind count).finished = true ∧
      (call :: calls).getLast? = some (.ok (report, false), m.behind count) := by
  obtain ⟨report, last, isDone, isOver, ends⟩ := ends
  exact ⟨report, last, isDone, isOver, by rw [List.getLast?_cons, ends]; rfl⟩

/-- A search that comes to the end of the program. -/
theorem reports_over (le : start ≤ count) (passes : ∀ i, start ≤ i → i < count → m.Passes i)
    (stepped : (m.behind count).step.1 = .ok report) (isDone : report.done = true) :
    m.Reports start [(.ok (report, false), m.behind (count + 1))] := by
  have isOver : (m.behind (count + 1)).finished = true := by
    rw [behind_succ]
    exact finished_of_done (Prod.ext stepped rfl) isDone
  refine ⟨⟨[], .nil, fun k => ?_, rfl⟩, fun failure next => ?_,
    report, count + 1, isDone, isOver, rfl⟩
  · rw [stopsAt_from le passes]
    refine iff_of_false (fun member => nomatch member) ?_
    rintro (⟨-, _, stepped', undone, -⟩ | ⟨later, stops⟩)
    · cases stepped.symm.trans stepped'
      cases isDone.symm.trans undone
    · obtain ⟨i, rfl⟩ := Nat.exists_eq_add_of_lt later
      obtain ⟨_, stepped', undone, -⟩ := stops
      rw [step_over isOver (by omega)] at stepped'
      cases stepped'
      cases undone
  · rw [failed_from le passes]
    refine iff_of_false (fun member => by simp at member) ?_
    rintro (failed | ⟨k, later, failed⟩)
    · cases stepped.symm.trans (congrArg Prod.fst failed)
    · cases (step_over isOver later).symm.trans failed

/-- A search that stops at a breakpoint, before the rest of the session. -/
theorem Reports.hit (le : start ≤ count) (passes : ∀ i, start ≤ i → i < count → m.Passes i)
    (stepped : (m.behind count).step.1 = .ok report) (stops : m.StopsAt (count + 1))
    (rest : m.Reports (count + 1) calls) : m.Reports start
      ((.ok (report, true), (m.behind (count + 1)).waiting) :: calls) := by
  obtain ⟨⟨later, ordered, listed, hits⟩, escapes, ends⟩ := rest
  refine ⟨⟨(count + 1) :: later, ?_, fun k => ?_, ?_⟩, fun failure next => ?_, ends_cons _ ends⟩
  · exact List.pairwise_cons.mpr ⟨fun k member => ((listed k).mp member).1, ordered⟩
  · rw [List.mem_cons, listed, stopsAt_from le passes, and_iff_left stops]
  · rw [List.map_cons, ← hits]
    rfl
  · rw [List.mem_cons, escapes, failed_from le passes]
    refine or_congr_left (iff_of_false (fun same => by cases same) fun failed => ?_)
    cases stepped.symm.trans (congrArg Prod.fst failed)

/-- A search that a failure of the host leaves, before the rest of the session. -/
theorem Reports.escaped {failure : HostFailure} (le : start ≤ count)
    (passes : ∀ i, start ≤ i → i < count → m.Passes i)
    (failed : (m.behind count).step = (.error failure, m.behind (count + 1)))
    (rest : m.Reports (count + 1) calls) :
    m.Reports start ((.error failure, m.behind (count + 1)) :: calls) := by
  obtain ⟨⟨later, ordered, listed, hits⟩, escapes, ends⟩ := rest
  refine ⟨⟨later, ordered, fun k => ?_, hits⟩, fun failure' next => ?_, ends_cons _ ends⟩
  · rw [listed, stopsAt_from le passes]
    refine (or_iff_right ?_).symm
    rintro ⟨-, _, stepped, -⟩
    cases (congrArg Prod.fst failed).symm.trans stepped
  · rw [List.mem_cons, escapes, failed_from le passes]
    refine or_congr_left ⟨fun same => ?_, fun failed' => ?_⟩
    · cases same
      exact failed
    · cases failed.symm.trans failed'
      rfl

/-- A session that goes on behind `start` steps comes to the end of the program. -/
theorem Alone.exists_session (divided : code.Divided program scope keepResult main bodies)
    (alone : Alone code main bodies limit m) {finish : Nat}
    (isOver : (m.behind finish).finished = true) (start : Nat) : ∃ calls,
      Session ((m.behind start).seekFor (m.behind start).stepsLeft) calls ∧ m.Reports start calls := by
  -- every call takes a step, and there are `finish` of them
  induction left : finish - start using Nat.strongRecOn generalizing start with
  | ind left ih =>
    subst left
    obtain ⟨count, le, passes, found⟩ := alone.search divided start
    have guarded := (alone.behind divided (count + 1)).contained.guarded
    have placed := guarded.placed divided
    have loaded : (m.behind (count + 1)).code.isSome = true := by rw [guarded.loaded]; rfl
    have goes (under : count < finish) : ∃ calls, Session
        ((m.behind (count + 1)).seekFor (m.behind (count + 1)).stepsLeft) calls ∧
          m.Reports (count + 1) calls := ih _ (by omega) (count + 1) rfl
    generalize (m.behind start).seekFor (m.behind start).stepsLeft = call at found ⊢
    cases found with
    | finished stepped isDone => exact ⟨_, .finished isDone, reports_over le passes stepped isDone⟩
    | hit stepped undone stops =>
      have under : count < finish := by
        refine Nat.lt_of_not_le fun past => ?_
        rw [step_over isOver past] at stepped
        cases stepped
        cases undone
      obtain ⟨calls, session, reports⟩ := goes under
      have going : (m.behind (count + 1)).finished = false := by
        have stepped : (m.behind count).step = (.ok _, m.behind (count + 1)) :=
          Prod.ext stepped (behind_succ m count).symm
        have going := going_of_undone stepped undone
        exact Bool.or_eq_false_iff.mpr ⟨Option.isNone_eq_false_iff.mpr loaded, going⟩
      have goesOn := continueRun_waiting placed loaded going
      exact ⟨_, .paused undone (goesOn.symm ▸ session), .hit le passes stepped stops reports⟩
    | @escaped failure failed =>
      have failed : (m.behind count).step = (.error failure, m.behind (count + 1)) :=
        Prod.ext failed (behind_succ m count).symm
      have under : count < finish := by
        refine Nat.lt_of_not_le fun past => ?_
        cases (step_over isOver past).symm.trans failed
      obtain ⟨calls, session, reports⟩ := goes under
      have begun : (m.behind (count + 1)).status ≠ .ready := by
        have guarded := (alone.behind divided count).contained.guarded
        rw [behind_succ]
        exact step_begun (by rw [guarded.loaded]; rfl)
      exact ⟨_, .escaped ((continueRun_eq placed loaded begun).symm ▸ session),
        .escaped le passes failed reports⟩

/-- A program that has not begun may stop before its first step. -/
theorem runUntilBreakpoint_ready (ready : m.status = .ready) :
    m.runUntilBreakpoint = if m.stopsAfter none then
      (.ok ({ highlightLine := m.currentLine }, true), m.waiting) else m.seekFor m.stepsLeft := by
  unfold runUntilBreakpoint
  rw [ready, decide_eq_true rfl, Bool.true_and]
  rfl

theorem stopsAt_zero : m.StopsAt 0 ↔ m.stopsAfter none = true := by
  simp [StopsAt, stopsAfter_iff]

/-- A session from the beginning of a program on. -/
theorem Alone.exists_session_first (divided : code.Divided program scope keepResult main bodies)
    (alone : Alone code main bodies limit m) (ready : m.status = .ready) : ∃ calls,
      Session m.runUntilBreakpoint calls ∧
      (∃ stops : List Nat, stops.Pairwise (· < ·) ∧ (∀ count, count ∈ stops ↔ m.StopsAt count) ∧
        calls.filterMap stop? = stops.map fun count => (m.behind count).waiting) ∧
      (∀ failure next, (.error failure, next) ∈ calls ↔
        ∃ count, (m.behind count).step = (.error failure, next)) ∧
      ∃ report count, report.done = true ∧ (m.behind count).finished = true ∧
        calls.getLast? = some (.ok (report, false), m.behind count) := by
  obtain ⟨finish, isOver⟩ := alone.contained.exists_finish divided
  obtain ⟨calls, session, ⟨stops, ordered, listed, hits⟩, escapes, ends⟩ :=
    alone.exists_session divided isOver 0
  have session : Session (m.seekFor m.stepsLeft) calls := session
  simp only [Nat.zero_le, true_and] at escapes
  rw [runUntilBreakpoint_ready ready]
  cases first : m.stopsAfter none with
  | true =>
    -- the session begins with a stop that takes no step
    have loaded : m.code.isSome = true := by rw [alone.contained.guarded.loaded]; rfl
    have unfinished : m.finished = false := by
      rw [finished, ready, Option.isNone_eq_false_iff.mpr loaded]
      rfl
    have goesOn := continueRun_waiting (alone.contained.guarded.placed divided) loaded unfinished
    have session : Session (.ok ({ highlightLine := m.currentLine }, true), m.waiting) _ :=
      .paused rfl (goesOn.symm ▸ session)
    refine ⟨_, session, ⟨0 :: stops, ?_, fun k => ?_, ?_⟩, fun failure next => ?_,
      ends_cons _ ends⟩
    · exact List.pairwise_cons.mpr ⟨fun k member => ((listed k).mp member).1, ordered⟩
    · rw [List.mem_cons, listed]
      cases k with
      | zero => simp [stopsAt_zero.mpr first]
      | succ k => simp
    · rw [List.map_cons, ← hits]
      rfl
    · rw [List.mem_cons, escapes]
      exact or_iff_right fun same => by cases same
  | false =>
    refine ⟨calls, session, ⟨stops, ordered, fun k => ?_, hits⟩, escapes, ends⟩
    rw [listed]
    cases k with
    | zero => simp [stopsAt_zero, first]
    | succ k => simp

/-- Steps are told apart by all of a machine. -/
theorem blind_id : Blind Machine.step id finished where
  semiconj _ := rfl
  rests := blind.rests
  ends := blind.ends
  shown _ := rfl

end Sessions

/-- Where a debug session stops, in a program without commands: at each place where single steps enter
a line with a breakpoint, once, in their order, and paused. A failure of the host leaves the call in
whose course it occurs, which reports no stop, and the session goes on behind it. It comes to the end
of the program, and ends where runs to the end do, all from one state and with the random numbers of
that state. -/
theorem session_stops {source readAs filename : String} {program : Program} {keepResult : Bool}
    {code : Code} (parsed : Program.parse source readAs = .ok program)
    (compiled : program.compile filename keepResult = .ok code) (machine : Machine)
    (uncommanded : machine.host.commands = []) :
    let m := machine.load code
    ∃ calls, Session m.runUntilBreakpoint calls ∧
      (∃ stops : List Nat, stops.Pairwise (· < ·) ∧ (∀ count, count ∈ stops ↔ m.StopsAt count) ∧
        calls.filterMap stop? = stops.map fun count => (m.behind count).waiting) ∧
      (∀ failure next, (.error failure, next) ∈ calls ↔
        ∃ count, (m.behind count).step = (.error failure, next)) ∧
      ∃ report last, calls.getLast? = some (.ok (report, false), last) ∧ report.done = true ∧
        RunsOut Machine.runAll m last ∧
        ∀ answer final, m.runAll = (.ok answer, final) → final = last := by
  intro m
  have shaped := Program.parse_shaped parsed
  obtain ⟨finish, laid⟩ := Program.laidOut_of_compile shaped compiled
  have divided := Program.divided_of_balanced laid (Program.balanced_of_laidOut shaped laid)
  have uncommanded : m.Uncommanded := fun name => by
    show machine.host.commands.get? name = none
    rw [uncommanded]
    rfl
  have alone := Alone.mk (contained_load divided machine) uncommanded
  obtain ⟨calls, session, ⟨stops, ordered, listed, hits⟩, escapes, report, last, isDone, isOver, ends⟩ :=
    alone.exists_session_first divided rfl
  obtain ⟨final, out, rfl⟩ := blind_id.exists_runsOut runsThrough isOver (n := last) m rfl
  have returns : ∀ answer final, m.runAll = (.ok answer, final) → final = m.behind last := by
    intro answer final returned
    cases out with
    | returned returned' =>
      cases returned.symm.trans returned'
      rfl
    | escaped escaped _ => cases returned.symm.trans escaped
  exact ⟨calls, session, ⟨stops, ordered, listed, hits⟩, escapes, report, _, ends, isDone, out, returns⟩

/-- A function that calls itself on its third line. -/
def descent : String := "def down(n):\n    if n > 0:\n        down(n - 1)\ndown(2)\n"

/-- The third line is entered by each call, and not when a call returns to it. -/
theorem session_stops_descent : ∃ program code calls,
    Program.parse descent unnamedSource = .ok program ∧ program.compile unnamedSource = .ok code ∧
      (let m := ((Machine.new {}).addBreakpoint 3).load code
       Session m.runUntilBreakpoint calls ∧ (m.behind 16).waiting ∈ calls.filterMap stop? ∧
        (m.behind 27).currentLine = some 3 ∧ ¬ m.StopsAt 27 ∧
        ∃ last, RunsOut Machine.runAll m last) := by
  have ran : (codeOf descent).toOption.any (fun code =>
      let m := ((Machine.new {}).addBreakpoint 3).load code
      let entered := m.behind 15
      let left := m.behind 26
      entered.step.1.toOption.any (fun report => !report.done) &&
        entered.step.2.stopsAfter (lineBefore entered entered.step.2) &&
        !left.step.2.stopsAfter (lineBefore left left.step.2) &&
        (m.behind 27).currentLine = some 3) = true := by
    rw [codeOf_eq_ofChars descent rfl]
    decide +kernel
  obtain ⟨program, code, parsed, compiled, checked⟩ := exists_codeOf ran
  simp only [Bool.and_eq_true, Bool.not_eq_true', decide_eq_true_eq] at checked
  obtain ⟨⟨⟨going, enters⟩, passes⟩, line⟩ := checked
  obtain ⟨calls, session, ⟨stops, -, listed, hits⟩, -, _, last, -, -, out, -⟩ :=
    session_stops parsed compiled ((Machine.new {}).addBreakpoint 3) rfl
  refine ⟨program, code, calls, parsed, compiled, session, ?_, line, fun stops => ?_, last, out⟩
  · rw [hits]
    refine List.mem_map.mpr ⟨16, (listed 16).mpr (stopsAt_succ.mpr ?_), rfl⟩
    rcases stepped : ((((Machine.new {}).addBreakpoint 3).load code).behind 15).step.1 with _ | report
    · rw [stepped] at going
      cases going
    · rw [stepped] at going
      exact ⟨report, rfl, by simpa [Except.toOption] using going, enters⟩
  · obtain ⟨_, -, -, stops⟩ := stopsAt_succ.mp stops
    cases stops.symm.trans passes

/-- A list that contains itself cannot be a key. The failure of the host leaves the session where the
fifth line is entered, and there is no stop on it. -/
theorem escaped_step_unstopped : ∃ program code calls,
    Program.parse "a = []\nappend(a, a)\nm = {}\nm[a] = 1\nx = 2\n" unnamedSource = .ok program ∧
      program.compile unnamedSource = .ok code ∧
      (let m := ((Machine.new {}).addBreakpoint 5).load code
       m.host.commands = [] ∧ Session m.runUntilBreakpoint calls ∧ calls.filterMap stop? = [] ∧
        (m.behind 12).finished = false ∧ m.hasBreakpoint 5 = true ∧
        (m.behind 12).currentLine = some 5 ∧ some 5 ≠ lineBefore (m.behind 11) (m.behind 12)) := by
  have ran : (codeOf "a = []\nappend(a, a)\nm = {}\nm[a] = 1\nx = 2\n").toOption.any (fun code =>
      let m := ((Machine.new {}).addBreakpoint 5).load code
      let first := m.runUntilBreakpoint
      first.1.toOption.isNone &&
        first.2.continueRun.1.toOption.any (fun answer => answer.1.done && !answer.2) &&
        !(m.behind 12).finished && m.hasBreakpoint 5 && (m.behind 12).currentLine = some 5 &&
        some 5 ≠ lineBefore (m.behind 11) (m.behind 12)) = true := by
    rw [codeOf_eq_ofChars "a = []\nappend(a, a)\nm = {}\nm[a] = 1\nx = 2\n" rfl]
    decide +kernel
  obtain ⟨program, code, parsed, compiled, checked⟩ := exists_codeOf ran
  simp only [Bool.and_eq_true, Bool.not_eq_true', decide_eq_true_eq] at checked
  obtain ⟨⟨⟨⟨⟨escaped, ended⟩, going⟩, breakpoint⟩, line⟩, other⟩ := checked
  rcases first : (((Machine.new {}).addBreakpoint 5).load code).runUntilBreakpoint with
    ⟨failure | answer, next⟩
  · rw [first] at ended
    rcases second : next.continueRun with ⟨failure | ⟨report, hit⟩, last⟩
    · rw [second] at ended
      cases ended
    · rw [second] at ended
      simp only [Except.toOption, Option.any_some, Bool.and_eq_true, Bool.not_eq_true'] at ended
      obtain ⟨isDone, rfl⟩ := ended
      refine ⟨program, code, [(.error failure, next), (.ok (report, false), last)], parsed, compiled,
        rfl, ?_, rfl, going, breakpoint, line, other⟩
      rw [first]
      exact .escaped (second ▸ .finished isDone)
  · rw [first] at escaped
    cases escaped

end Machine

end Stepwise
