import Stepwise.Proofs.Driving.Marks
import Stepwise.Proofs.Reading.Sources

/-!
What the reports of a run tell of the calls of the host. A machine calls one handler at most in a step:
the reports of a run to the end are the commands that were answered, in the order in which they were
called, and a run stops behind the first step that calls a command (`Machine.calls_reported`). A
command is reported with its arguments as the handler left them.

A step of the walker may run whole loops and functions, so that many calls share one report, and each
of them is noted over the one before. A step that does not fail reports its last command, and a run to
the end reports the last command of each step (`Walker.last_commands_reported`).
-/
namespace Stepwise

/-- A handler that leaves the list of its arguments as it is. -/
def Handler.Sparing (handler : Handler) : Prop :=
  ∀ earlier args heap, (handler earlier args heap).left = args

/-- No handler of that name changes the list of its arguments. -/
def Host.Spares (host : Host) (name : Name) : Prop :=
  ∀ role bound, host.find? name = some (role, bound) → bound.handler.Sparing

theorem Host.find?_register {host : Host} {role role' : Role} {name other : Name} {handler : Handler}
    {bound : Bound} (found : (host.register role name handler).find? other = some (role', bound)) :
    host.find? other = some (role', bound) ∨ bound = { handler } := by
  unfold register find? at found
  unfold find?
  cases role with
  | command =>
    simp only [Bindings.get?_put] at found
    by_cases same : other.key = name.key
    · rw [if_pos same] at found
      cases found
      exact .inr rfl
    · rw [if_neg same] at found
      exact .inl found
  | sensor =>
    simp only [Bindings.get?_put] at found
    cases command : host.commands.get? other with
    | some =>
      rw [command] at found
      exact .inl found
    | none =>
      rw [command] at found
      by_cases same : other.key = name.key
      · rw [if_pos same] at found
        cases found
        exact .inr rfl
      · rw [if_neg same] at found
        exact .inl found

theorem Host.Spares.register {host : Host} {other : Name} (spares : host.Spares other)
    {handler : Handler} (sparing : handler.Sparing) (role : Role) (name : Name) :
    (host.register role name handler).Spares other := by
  intro role' bound found
  rcases Host.find?_register found with before | rfl
  · exact spares role' bound before
  · exact sparing

/-- A host that has noted calls still has its handlers. -/
theorem Host.Grows.find? {host later : Host} (grows : host.Grows later) (name : Name) :
    (later.find? name).map (fun entry => entry.2.handler) =
      (host.find? name).map fun entry => entry.2.handler := by
  have commands := grows.commands name
  have sensors := grows.sensors name
  unfold Host.find?
  cases old : host.commands.get? name with
  | some bound =>
    rw [old] at commands
    obtain ⟨bound', found, same⟩ := Option.map_eq_some_iff.mp commands
    rw [found]
    exact congrArg some same
  | none =>
    rw [old] at commands
    rw [Option.map_eq_none_iff.mp commands, Option.map_map, Option.map_map]
    exact sensors

theorem Host.Grows.spares {host later : Host} (grows : host.Grows later) {name : Name}
    (spares : host.Spares name) : later.Spares name := by
  intro role bound found
  have same := grows.find? name
  rw [found, Option.map_some] at same
  obtain ⟨⟨role', bound'⟩, there, kept⟩ := Option.map_eq_some_iff.mp same.symm
  exact kept ▸ spares role' bound' there

namespace Machine

variable {m : Machine}

/-- The steps of a run to the end. -/
def allSteps (m : Machine) : List Machine := trail Machine.step atEnd m.stepsLeft m

/-- The steps of a run that gives the host its turn. -/
def runSteps (m : Machine) : List Machine :=
  trail Machine.step (atTurn fun m => m.status) m.stepsLeft m

/-- A report that is collected tells of the command that was answered. -/
theorem actedReport?_eq {report : StepReport} (stepped : m.step.1 = .ok report) :
    (actedReport? Machine.step m).map actionOf = m.answered?.bind HostCall.command? := by
  rw [← acted_eq stepped, actedReport?, stepped]
  dsimp only
  split <;> rfl

/-- A call to a handler that spares its arguments is noted with these. -/
theorem left_of_spares {call : HostCall} (spares : m.host.Spares call.name)
    (called : m.invocation? = some call) : call.left = call.args := by
  obtain ⟨bound, found, left⟩ := (step_calls m).2.1 call called
  rw [left, spares _ bound found]

/-- The calls of a drive are those of its steps. -/
theorem course_calls {stops : Machine → StepReport → Machine → Bool} {before : List Machine}
    {last : Machine} (course : Course Machine.step stops m before last) :
    last.step.2.host.calls =
      ((before ++ [last]).filterMap invocation?).reverse ++ m.host.calls := by
  rw [List.filterMap_eq_flatMap_toList]
  refine course.record (fun k => k.host.calls) fun k => ?_
  rw [(step_calls k).1]
  cases k.invocation? <;> rfl

/-- Every call of the host is noted once and reported once. A step makes one call at most, and its
report tells of it exactly if it was answered. The reports of a run to the end carry the commands
that were answered, in the order of their calls, and the sensors that were answered are named by the
reports of their steps. What a command is reported with is the list of its arguments as the handler
left it: the arguments themselves, if that handler spares them. A run that gives the host its turn ends
with the step that calls a command, so that it calls one at most. -/
theorem calls_reported (m : Machine) :
    (∀ k : Machine, k.step.2.host.calls = k.invocation?.toList ++ k.host.calls ∧
      (∀ call, k.invocation? = some call → k.toEngine.Notes call) ∧
      ∀ report, k.step.1 = .ok report → report.Tells k.answered?) ∧
    m.runAll.2.host.calls = (m.allSteps.filterMap invocation?).reverse ++ m.host.calls ∧
    (∀ reports, m.runAll.1 = .ok reports →
      reports.map actionOf = (m.allSteps.filterMap answered?).filterMap HostCall.command?) ∧
    (∀ call ∈ m.allSteps.filterMap invocation?, m.host.Spares call.name → call.left = call.args) ∧
    m.allSteps.filterMap queried? = (m.allSteps.filterMap answered?).filterMap HostCall.sensor? ∧
    ∃ before last, m.runSteps = before ++ [last] ∧ m.run = last.step ∧
      m.run.2.host.calls = (m.runSteps.filterMap invocation?).reverse ++ m.host.calls ∧
      ∀ k ∈ before, ∀ call, k.invocation? = some call → call.role = .sensor := by
  obtain ⟨before, last, steps, -, course, ran⟩ := exists_runAll m
  obtain ⟨before', last', steps', -, course', ran'⟩ := exists_run m
  have steps : m.allSteps = before ++ [last] := steps
  have steps' : m.runSteps = before' ++ [last'] := steps'
  refine ⟨step_calls, ?_, fun reports ended => ?_, fun call called spares => ?_, ?_,
    before', last', steps', ran', ?_, fun k member call called => ?_⟩
  · rw [ran, steps]
    exact course_calls course
  · rw [ran] at ended
    rw [steps, List.filterMap_filterMap]
    exact course.gathered (fun k report => actedReport?_eq) ended
  · rw [steps] at called
    obtain ⟨k, member, called⟩ := List.mem_filterMap.mp called
    have kept := course.keeps (P := fun k => k.host.Spares call.name)
      (fun k spares => (step_grows k).spares spares) spares
    rcases List.mem_append.mp member with earlier | final
    · exact left_of_spares (kept.1 k earlier) called
    · exact left_of_spares (List.mem_singleton.mp final ▸ kept.2) called
  · rw [List.filterMap_filterMap]
    exact List.filterMap_congr fun k _ => queried?_eq k
  · rw [ran', steps']
    exact course_calls course'
  · obtain ⟨report, next, stepped, going⟩ := course'.mem member
    simp only [atTurn, Bool.or_eq_false_iff] at going
    exact command_stops stepped going.1.1 going.1.2 called

/-- A program that asks a sensor, calls a command with what it was told, and prints. -/
def patrol : String :=
  "def go(n):\n    walk(n, 2)\n    return n\nx = go(look())\nprint(x)\nwalk(x)\nlook()\n"

/-- A machine whose host answers the sensor `look` and the command `walk` as given. -/
def outdoors (look walk : Handler) : Machine :=
  let host := Host.register {} .command (.text "walk") walk
  { new {} with host := host.register .sensor (.text "look") look }

theorem spares_outdoors (name : Name) : (outdoors .counting .counting).host.Spares name := by
  have sparing : Handler.counting.Sparing := fun _ _ _ => rfl
  have empty : ({} : Host).Spares name := fun role bound found => nomatch found
  exact (empty.register sparing .command _).register sparing .sensor _

theorem calls_reported_patrol : ∃ program code reports,
    Program.parse patrol unnamedSource = .ok program ∧
      program.compile unnamedSource = .ok code ∧
      let start := (outdoors .counting .counting).load code
      start.runAll.1 = .ok reports ∧
      reports.map (·.action.key) = [.text "walk", .text "walk"] ∧
      (start.allSteps.filterMap queried?).map Scalar.key = [.text "look", .text "look"] ∧
      reports.map actionOf = (start.allSteps.filterMap answered?).filterMap HostCall.command? ∧
      ∀ call ∈ start.allSteps.filterMap invocation?,
        start.host.Spares call.name ∧ call.left = call.args := by
  have ran : (codeOf patrol).toOption.any (fun code =>
      (((outdoors .counting .counting).load code).runAll.1.toOption.any fun reports =>
        reports.map (·.action.key) = [.text "walk", .text "walk"]) &&
      (((outdoors .counting .counting).load code).allSteps.filterMap queried?).map Scalar.key =
        [.text "look", .text "look"]) = true := by
    rw [codeOf_eq_ofChars patrol rfl]
    decide +kernel
  obtain ⟨program, code, parsed, compiled, checked⟩ := exists_codeOf ran
  simp only [Bool.and_eq_true, decide_eq_true_eq] at checked
  obtain ⟨acted, queried⟩ := checked
  match result : ((outdoors .counting .counting).load code).runAll.1 with
  | .error _ => simp [result, Except.toOption] at acted
  | .ok reports =>
    simp only [result, Except.toOption, Option.any_some, decide_eq_true_eq] at acted
    have reported := (calls_reported ((outdoors .counting .counting).load code)).2.2
    exact ⟨program, code, reports, parsed, compiled, result, acted, queried,
      reported.1 reports result, fun call called =>
        ⟨spares_outdoors call.name, reported.2.1 call called (spares_outdoors call.name)⟩⟩

/-- Takes the first argument out of the list that it is given, and answers with it. -/
def taking : Handler := fun _ args heap =>
  { heap, outcome := .ok (args.headD .null), left := args.tail }

/-- A sensor that raises a fault is called, and no report names it. A command that takes its argument
out of the list is reported without it. -/
theorem refused_unreported :
    (∃ program code,
      Program.parse "x = look()\n" unnamedSource = .ok program ∧
        program.compile unnamedSource = .ok code ∧
        let start := (outdoors (.faulting "dark") .counting).load code
        (start.allSteps.filterMap invocation?).map (fun call => (call.role, call.name.key)) =
            [(.sensor, .text "look")] ∧
          ∀ k ∈ start.allSteps, k.queried? = none) ∧
    ∃ program code reports,
      Program.parse "walk(5)\n" unnamedSource = .ok program ∧
        program.compile unnamedSource = .ok code ∧
        let start := (outdoors .counting taking).load code
        start.runAll.1 = .ok reports ∧
          (start.allSteps.filterMap answered?).map (·.args.length) = [1] ∧
          reports.map (·.actionArgs.length) = [0] := by
  constructor
  · have ran : (codeOf "x = look()\n").toOption.any (fun code =>
        (((outdoors (.faulting "dark") .counting).load code).allSteps.filterMap invocation?).map
          (fun call => (call.role, call.name.key)) = [(.sensor, .text "look")] &&
        ((outdoors (.faulting "dark") .counting).load code).allSteps.all
          fun k => k.queried?.isNone) = true := by
      rw [codeOf_eq_ofChars "x = look()\n" rfl]
      decide +kernel
    obtain ⟨program, code, parsed, compiled, checked⟩ := exists_codeOf ran
    simp only [Bool.and_eq_true, decide_eq_true_eq, List.all_eq_true, Option.isNone_iff_eq_none]
      at checked
    exact ⟨program, code, parsed, compiled, checked⟩
  · have ran : (codeOf "walk(5)\n").toOption.any (fun code =>
        (((outdoors .counting taking).load code).allSteps.filterMap answered?).map (·.args.length) =
          [1] &&
        ((outdoors .counting taking).load code).runAll.1.toOption.any fun reports =>
          reports.map (·.actionArgs.length) = [0]) = true := by
      rw [codeOf_eq_ofChars "walk(5)\n" rfl]
      decide +kernel
    obtain ⟨program, code, parsed, compiled, checked⟩ := exists_codeOf ran
    simp only [Bool.and_eq_true, decide_eq_true_eq] at checked
    obtain ⟨called, told⟩ := checked
    match result : ((outdoors .counting taking).load code).runAll.1 with
    | .error _ => simp [result, Except.toOption] at told
    | .ok reports =>
      simp only [result, Except.toOption, Option.any_some, decide_eq_true_eq] at told
      exact ⟨program, code, reports, parsed, compiled, result, called, told⟩

end Machine

namespace Walker

open Machine (actionOf)

variable {w w' : Walker} {failure : Failure}

/-- What a report tells of calls that were answered one after the other: the last command, the last
sensor, and what it told before where there was none. -/
structure Told (before report : StepReport) (calls : List HostCall) : Prop where
  command : actionOf report = (calls.filterMap HostCall.command?).getLast?.getD (actionOf before)
  sensor : report.sensorQuery = (calls.filterMap HostCall.sensor?).getLast?.getD before.sensorQuery

theorem Told.nil {before report : StepReport} (command : actionOf report = actionOf before)
    (sensor : report.sensorQuery = before.sensorQuery) : Told before report [] :=
  ⟨command, sensor⟩

theorem Told.append {first second third : StepReport} {early late : List HostCall}
    (told : Told first second early) (tells : Told second third late) :
    Told first third (early ++ late) := by
  constructor
  · rw [tells.command, told.command, List.filterMap_append, List.getLast?_append, Option.getD_or]
  · rw [tells.sensor, told.sensor, List.filterMap_append, List.getLast?_append, Option.getD_or]

theorem told_note (report : StepReport) (role : Role) (name : Name) (args left : List Value) :
    Told report (report.note role name left) [⟨role, name, args, left⟩] := by
  cases role <;> exact ⟨rfl, rfl⟩

/-- A call of something that the program does not define is noted if it goes to a handler, and told if
the handler answers it. -/
theorem told_call (w : Walker) (name : Name) (args : List Value) : ∃ calls : List HostCall,
    (w.toEngine.call name args).2.host.calls = calls.reverse ++ w.host.calls ∧
      ((w.toEngine.call name args).1.isOk →
        Told w.report (w.toEngine.call name args).2.report calls) := by
  cases found : w.host.find? name with
  | none =>
    have quiet := Engine.call_unbound found args
    refine ⟨[], congrArg Host.calls quiet.noted, fun _ => .nil ?_ ?_⟩
    · exact congrArg actionOf quiet.report
    · exact congrArg StepReport.sensorQuery quiet.report
  | some entry =>
    obtain ⟨role, bound⟩ := entry
    obtain ⟨result, host, report⟩ := Engine.call_bound found args
    rw [← result] at report
    generalize (bound.handler bound.earlier args w.heap).left = left at host report
    refine ⟨[⟨role, name, args, left⟩], (congrArg Host.calls host).trans (Host.note_calls ..),
      fun answered => ?_⟩
    rw [if_pos answered] at report
    exact report ▸ told_note w.report role name args left

/-- As long as all goes well, every call of the host is noted and told. -/
theorem Walked.told (walked : Walked w w') : ∃ calls : List HostCall,
    w'.host.calls = calls.reverse ++ w.host.calls ∧ Told w.report w'.report calls := by
  induction walked with
  | still still =>
    refine ⟨[], congrArg Host.calls still.host, .nil ?_ ?_⟩
    all_goals rw [still.report]
    rfl
  | begun | completed => exact ⟨[], rfl, .nil rfl rfl⟩
  | @asked w name args v engine called =>
    obtain ⟨calls, made, told⟩ := told_call w name args
    rw [called] at made told
    exact ⟨calls, made, told rfl⟩
  | trans _ _ first rest =>
    obtain ⟨early, made, told⟩ := first
    obtain ⟨late, more, tells⟩ := rest
    exact ⟨early ++ late, by rw [more, made, List.reverse_append, List.append_assoc],
      told.append tells⟩

/-- Where a computation breaks off, every call was noted. -/
theorem Broken.noted (broken : Broken failure w w') : ∃ calls : List HostCall,
    w'.host.calls = calls.reverse ++ w.host.calls := by
  obtain ⟨k, k', locals, walked, stumbles, rfl⟩ := broken
  obtain ⟨early, made, -⟩ := walked.told
  have last : ∃ late : List HostCall, k'.host.calls = late.reverse ++ k.host.calls := by
    cases stumbles with
    | failed | exceeded => exact ⟨[], rfl⟩
    | @refused _ _ name args engine called =>
      obtain ⟨late, noted, -⟩ := told_call k name args
      rw [called] at noted
      exact ⟨late, noted⟩
  obtain ⟨late, more⟩ := last
  exact ⟨early ++ late, by rw [more, made, List.reverse_append, List.append_assoc]⟩

/-- The calls of the host that a step makes, in their order. -/
def stepCalls (w : Walker) : List HostCall :=
  (w.step.2.host.calls.take (w.step.2.host.calls.length - w.host.calls.length)).reverse

/-- The commands that a step calls, in their order. -/
def stepCommands (w : Walker) : List (Name × List Value) := w.stepCalls.filterMap HostCall.command?

theorem stepCalls_eq {calls : List HostCall}
    (made : w.step.2.host.calls = calls.reverse ++ w.host.calls) : w.stepCalls = calls := by
  have count : (calls.reverse ++ w.host.calls).length - w.host.calls.length =
      calls.reverse.length := by
    rw [List.length_append, Nat.add_sub_cancel]
  rw [stepCalls, made, count, List.take_left, List.reverse_reverse]

/-- A step notes the calls it makes. If it ends in a fault, its report tells of none of them, else of
the last command and the last sensor. -/
theorem step_calls (w : Walker) : w.step.2.host.calls = w.stepCalls.reverse ++ w.host.calls ∧
    ∀ report, w.step.1 = .ok report →
      (w.step.2.status = .error → report.Tells none) ∧
      (w.step.2.status ≠ .error → Told {} report w.stepCalls) := by
  have stepped := steps w
  have silent {result : Driven StepReport} {next : Walker} (later : w.step = (result, next))
      (same : next.host = w.host) : w.stepCalls = [] :=
    stepCalls_eq (by rw [later]; exact congrArg Host.calls same)
  generalize taken : w.step = after at stepped
  obtain ⟨result, next⟩ := after
  dsimp only at stepped ⊢
  cases stepped with
  | ended | exhausted =>
    rw [silent taken rfl]
    refine ⟨rfl, ?_⟩
    rintro _ ⟨⟩
    exact ⟨fun _ => Machine.ended_tells, fun _ => .nil rfl rfl⟩
  | @went next _ done =>
    have walked := walks_stepFrame.ok done
    obtain ⟨calls, made, told⟩ := walked.told
    have all : w.stepCalls = calls := stepCalls_eq (taken ▸ made)
    rw [all]
    refine ⟨made, ?_⟩
    rintro _ ⟨⟩
    refine ⟨fun failed => absurd failed ?_, fun _ => ⟨told.command, told.sensor⟩⟩
    have sound := walked.fine fun same => nomatch same
    exact ending_fine sound
  | stopped _ failed =>
    obtain ⟨calls, made⟩ := (walks_stepFrame.error failed).noted
    have all : w.stepCalls = calls := stepCalls_eq (taken ▸ made)
    rw [all]
    refine ⟨made, ?_⟩
    rintro _ ⟨⟩
    exact ⟨fun _ => ⟨rfl, rfl, rfl⟩, fun sound => absurd rfl sound⟩
  | broken _ failed =>
    obtain ⟨calls, made⟩ := (walks_stepFrame.error failed).noted
    have all : w.stepCalls = calls := stepCalls_eq (taken ▸ made)
    rw [all]
    exact ⟨made, fun _ answered => nomatch answered⟩

/-- The last command that a step calls, if the step does not end in a fault. A command without a name
is not told from none. -/
def lastCommand? (w : Walker) : Option (Name × List Value) :=
  if w.step.2.status = .error then none
  else w.stepCommands.getLast?.filter fun command => !command.1.isNull

/-- A report that is collected carries the last command of its step. -/
theorem actedReport?_eq {report : StepReport} (stepped : w.step.1 = .ok report) :
    (actedReport? Walker.step w).map actionOf = w.lastCommand? := by
  have told := (step_calls w).2 report stepped
  unfold actedReport? lastCommand?
  rw [stepped]
  dsimp only
  by_cases failed : w.step.2.status = .error
  · simp [failed, StepReport.acted, (told.1 failed).1, Scalar.isNull]
  · have command := (told.2 failed).command
    rw [if_neg failed, stepCommands]
    cases last : (w.stepCalls.filterMap HostCall.command?).getLast? with
    | none =>
      rw [last] at command
      have action : report.action = .null := congrArg Prod.fst command
      simp [StepReport.acted, action, Scalar.isNull]
    | some called =>
      rw [last] at command
      obtain rfl : actionOf report = called := command
      have named : (!(actionOf report).1.isNull) = report.acted := rfl
      rw [Option.filter_some, named]
      cases report.acted <;> rfl

/-- The steps of a run to the end. -/
def allSteps (w : Walker) : List Walker := trail Walker.step atEnd w.stepsLeft w

/-- A step that calls one command at most, which has a name, and none if it ends in a fault. -/
structure CallsOne (w : Walker) : Prop where
  one : w.stepCommands.length ≤ 1
  named : ∀ command ∈ w.stepCommands, command.1.isNull = false
  sound : w.stepCommands ≠ [] → w.step.2.status ≠ .error

theorem CallsOne.lastCommand? (callsOne : w.CallsOne) :
    w.lastCommand?.toList = w.stepCommands := by
  unfold Walker.lastCommand?
  rcases called : w.stepCommands with _ | ⟨command, _ | ⟨another, more⟩⟩
  · split <;> rfl
  · have named := callsOne.named command (called ▸ List.mem_cons_self)
    rw [if_neg (callsOne.sound (called ▸ List.cons_ne_nil _ _))]
    simp [named]
  · have one := callsOne.one
    rw [called, List.length_cons, List.length_cons] at one
    omega

/-- Every call of the host is noted by the step that makes it. The report of a step tells of its last
command and its last sensor, or of none if the step ends in a fault. So the reports of a run to the
end carry the last command of each step, in order; these are all commands that were called unless a
step called two, or called one and ended in a fault. -/
theorem last_commands_reported (w : Walker) :
    (∀ k : Walker, k.step.2.host.calls = k.stepCalls.reverse ++ k.host.calls ∧
      ∀ report, k.step.1 = .ok report →
        (k.step.2.status = .error → report.Tells none) ∧
        (k.step.2.status ≠ .error → Told {} report k.stepCalls)) ∧
    w.runAll.2.host.calls = (w.allSteps.flatMap stepCalls).reverse ++ w.host.calls ∧
    ∀ reports, w.runAll.1 = .ok reports →
      reports.map actionOf = w.allSteps.filterMap lastCommand? ∧
      ((∀ k ∈ w.allSteps, k.CallsOne) →
        reports.map actionOf = w.allSteps.flatMap stepCommands) := by
  obtain ⟨before, last, steps, -, course, ran⟩ := exists_runAll w
  have steps : w.allSteps = before ++ [last] := steps
  refine ⟨step_calls, ?_, fun reports ended => ?_⟩
  · rw [ran, steps]
    exact course.record (fun k => k.host.calls) fun k => (step_calls k).1
  have told : reports.map actionOf = w.allSteps.filterMap lastCommand? := by
    rw [ran] at ended
    rw [steps]
    exact course.gathered (fun k report => actedReport?_eq) ended
  refine ⟨told, fun each => ?_⟩
  rw [told, List.filterMap_eq_flatMap_toList]
  exact List.flatMap_congr fun k member => (each k member).lastCommand?

/-- A walker whose host counts the calls of the command `go`. -/
def onward : Walker :=
  { new {} with host := Host.register {} .command (.text "go") .counting }

/-- Of two commands in one statement, which is one step, the run reports one. -/
example : (onward.reading "x = go(1) + go(2)\n").toOption.any (fun loaded =>
    (loaded.runAll.1.toOption.any fun reports => reports.length = 1) &&
    (loaded.allSteps.flatMap stepCommands).length = 2) = true := by
  decide +kernel

end Walker

end Stepwise
