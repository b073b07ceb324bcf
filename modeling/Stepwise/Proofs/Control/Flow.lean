import Stepwise.Proofs.Control.Roaming
import Stepwise.Proofs.Debug.Evaluation
import Stepwise.Proofs.Machine.Visits
import Stepwise.Proofs.Stack.Discipline

/-!
The control flow of a compiled program. Its code is divided into segments, and however a machine is
driven, every call under way keeps to the segment of its function: `control_flow_confined`.
-/
namespace Stepwise

namespace Code

variable {code : Code} {program : Program} {scope : Scope} {keepResult : Bool} {main : Segment}
  {bodies : List Segment}

/-- Every call under way stands in the segment of its function, or will go on there; what is outside
of calls stands in the main segment. -/
def Confines (code : Code) (main : Segment) (bodies : List Segment) :
    List (String × Int) → Int → Prop
  | [], pc => pc ∈ main
  | (name, returnAddress) :: callers, pc =>
    (∃ s ∈ bodies, code.functions.get? name = some (s.start : Int) ∧ pc ∈ s) ∧
      Confines code main bodies callers returnAddress

variable {sites : List (String × Int)} {pc : Int}

/-- The segment of the innermost call. Within it the address does not matter. -/
theorem Confines.top (confines : code.Confines main bodies sites pc) :
    ∃ s ∈ main :: bodies, pc ∈ s ∧ (sites = [] → s = main) ∧
      ∀ pc' ∈ s, code.Confines main bodies sites pc' := by
  cases sites with
  | nil => exact ⟨main, List.mem_cons_self, confines, fun _ => rfl, fun _ inside => inside⟩
  | cons site callers =>
    obtain ⟨⟨s, member, entered, inside⟩, others⟩ := confines
    refine ⟨s, List.mem_cons_of_mem _ member, inside, (fun none => nomatch none), ?_⟩
    exact fun pc' inside' => ⟨⟨s, member, entered, inside'⟩, others⟩

/-- An address in a segment is one of the code. -/
theorem Divided.lt_size (divided : code.Divided program scope keepResult main bodies) {s : Segment}
    (member : s ∈ main :: bodies) (inside : pc ∈ s) : ∃ a : Nat, pc = a ∧ a < code.size := by
  have finish := divided.consecutive.finish_le member
  obtain ⟨above, below⟩ := Segment.mem_iff.mp inside
  obtain ⟨a, rfl⟩ := Int.eq_ofNat_of_zero_le (Int.le_trans (Int.natCast_nonneg _) above)
  exact ⟨a, rfl, by omega⟩

/-- A call enters the segment of its function. -/
theorem Divided.enter (divided : code.Divided program scope keepResult main bodies) {name : String}
    {entry : Int} (entered : code.functions.get? name = some entry)
    (waits : code.Confines main bodies sites pc) :
    code.Confines main bodies ((name, pc) :: sites) entry := by
  obtain ⟨s, member, rfl⟩ := divided.functions name entry entered
  have long := (divided.returns s member).1
  refine ⟨⟨s, member, entered, Segment.mem_iff.mpr ⟨Int.le_refl _, ?_⟩⟩, waits⟩
  rw [Segment.finish]
  omega

/-- A return outside of calls leaves the address behind it, where the halt is at the latest. -/
theorem Divided.behind_ret (divided : code.Divided program scope keepResult main bodies) {a : Nat}
    {i : Instruction} (has : code.Has a i) (returns : i.op = .ret) (inside : (a : Int) ∈ main) :
    (a + 1 : Int) ∈ main := by
  obtain ⟨long, halts⟩ := divided.halts
  obtain ⟨above, below⟩ := Segment.mem_iff.mp inside
  have apart : a ≠ main.finish - 1 := by
    rintro rfl
    cases has.symm.trans halts
    cases returns
  refine Segment.mem_iff.mpr ⟨by omega, ?_⟩
  omega

end Code

namespace Machine

variable {code : Code} {program : Program} {scope : Scope} {keepResult : Bool} {main : Segment}
  {bodies : List Segment} {m next : Machine} {i : Instruction}

/-- A machine whose calls keep to their segments, now and in all states it can go back to. -/
structure Guarded (code : Code) (main : Segment) (bodies : List Segment) (m : Machine) : Prop where
  loaded : m.code = some code
  classes : ClassesKnown code m.classes
  place : code.Confines main bodies (m.frames.map CallFrame.site) m.pc
  history : ∀ s ∈ m.history, ClassesKnown code s.classes ∧
    code.Confines main bodies (s.frames.map CallFrame.site) s.pc

theorem Guarded.begun (guarded : Guarded code main bodies m) : Guarded code main bodies m.begun := by
  refine ⟨guarded.loaded, guarded.classes, guarded.place, fun s member => ?_⟩
  rcases List.mem_cons.mp (List.mem_of_mem_take member) with rfl | older
  · exact ⟨guarded.classes, guarded.place⟩
  · exact guarded.history s older

/-- A machine that only changes values, at an address that keeps to the segments. -/
theorem Guarded.roam {targets : Int → Prop} (guarded : Guarded code main bodies m)
    (roams : Roams targets (m.fetched i) next) {pc : Int}
    (inside : code.Confines main bodies (m.frames.map CallFrame.site) pc) :
    Guarded code main bodies { next with pc } := by
  have sites : next.frames.map CallFrame.site = m.frames.map CallFrame.site := roams.sites
  have classes : next.classes = m.classes := roams.classes
  refine ⟨roams.code.trans guarded.loaded, classes ▸ guarded.classes, ?_, fun s member => ?_⟩
  · show code.Confines main bodies (next.frames.map CallFrame.site) pc
    rwa [sites]
  · have kept : next.history = m.begun.history := roams.history
    exact guarded.begun.history s (kept ▸ member)

theorem Guarded.call (divided : code.Divided program scope keepResult main bodies)
    (guarded : Guarded code main bodies m) {name : String} {entry : Int}
    (calls : Calls (m.fetched i) next name entry)
    (entered : code.functions.get? name = some entry)
    (behind : code.Confines main bodies (m.frames.map CallFrame.site) (m.pc + 1)) :
    Guarded code main bodies next := by
  have sites : next.frames.map CallFrame.site = (name, m.pc + 1) :: m.frames.map CallFrame.site :=
    calls.sites
  have classes : next.classes = m.classes := calls.classes
  refine ⟨calls.code.trans guarded.loaded, classes ▸ guarded.classes, ?_, fun s member => ?_⟩
  · rw [sites, calls.pc]
    exact divided.enter entered behind
  · have kept : next.history = m.begun.history := calls.history
    exact guarded.begun.history s (kept ▸ member)

/-- The method that is called is one that the code has under its qualified name. -/
theorem Guarded.callMethod (divided : code.Divided program scope keepResult main bodies)
    (guarded : Guarded code main bodies m) (calls : CallsMethod (m.fetched i) next)
    (behind : code.Confines main bodies (m.frames.map CallFrame.site) (m.pc + 1)) :
    Guarded code main bodies next := by
  obtain ⟨className, method, methods, entry, found, there, calls⟩ := calls
  obtain ⟨known, inCode, entered⟩ := guarded.classes className methods method entry found there
  exact guarded.call divided calls (divided.methods className known inCode method entry entered)
    behind

/-- What an instruction leaves behind keeps to the segments. A failure comes before control goes
elsewhere, so the instruction can be repeated; only behind a return there may be nothing to go on
with. -/
def LeavesGuarded (code : Code) (main : Segment) (bodies : List Segment) (m : Machine)
    (i : Instruction) : Prop :=
  (execute i).Splits (m.fetched i) (Guarded code main bodies) fun next =>
    Guarded code main bodies { next with pc := m.pc } ∧
      (i.op ≠ .ret → Guarded code main bodies next)

/-- An instruction whose successor belongs to the same segment may go on, and may call. -/
theorem leaves_of_next (divided : code.Divided program scope keepResult main bodies)
    (guarded : Guarded code main bodies m)
    (behind : code.Confines main bodies (m.frames.map CallFrame.site) (m.pc + 1))
    (falls : (execute i).Splits (m.fetched i)
      (fun next => Stays (m.fetched i) next ∨ (∃ (name : String) (entry : Int),
        code.functions.get? name = some entry ∧ Calls (m.fetched i) next name entry) ∨
          CallsMethod (m.fetched i) next)
      (Stays (m.fetched i))) : LeavesGuarded code main bodies m i := by
  have stay : ∀ next, Stays (m.fetched i) next → Guarded code main bodies next := by
    intro next stays
    have same : next.pc = m.pc + 1 := stays.same
    have kept : Guarded code main bodies { next with pc := next.pc } :=
      guarded.roam stays (same ▸ behind)
    exact kept
  refine falls.mono (fun next led => ?_) fun next stays => ⟨guarded.roam stays guarded.place, fun _ =>
    stay next stays⟩
  rcases led with stays | ⟨name, entry, entered, calls⟩ | calls
  · exact stay next stays
  · exact guarded.call divided calls entered behind
  · exact guarded.callMethod divided calls behind

theorem ret_guarded (divided : code.Divided program scope keepResult main bodies)
    (guarded : Guarded code main bodies m) {a : Nat} (pc : m.pc = a) (has : code.Has a i)
    (returns : i.op = .ret) : LeavesGuarded code main bodies m i := by
  refine (ret_splits returns (m.fetched i)).mono (fun next left => ?_) fun next stays =>
    ⟨guarded.roam stays guarded.place, fun other => absurd returns other⟩
  obtain ⟨loaded, classes, history, went⟩ := left
  have sameClasses : next.classes = m.classes := classes
  refine ⟨loaded.trans guarded.loaded, sameClasses ▸ guarded.classes, ?_, fun s member => ?_⟩
  · have place := guarded.place
    have frames : (m.fetched i).frames = m.frames := rfl
    rw [frames] at went
    cases under : m.frames with
    | nil =>
      rw [under] at place went
      obtain ⟨outer, same⟩ := went
      have same : next.pc = (a : Int) + 1 := by
        rw [same, ← pc]
        rfl
      rw [outer, same]
      exact divided.behind_ret has returns (pc ▸ place)
    | cons frame callers =>
      rw [under] at place went
      obtain ⟨inner, same⟩ := went
      rw [inner, same]
      exact place.2
  · have kept : next.history = m.begun.history := history
    exact guarded.begun.history s (kept ▸ member)

theorem classDef_guarded (guarded : Guarded code main bodies m) (defines : i.op = .classDef)
    (behind : code.Confines main bodies (m.frames.map CallFrame.site) (m.pc + 1)) :
    LeavesGuarded code main bodies m i := by
  refine (classDef_splits defines (m.fetched i)).mono ?_ ?_
  · rintro _ ⟨name, rfl⟩
    refine ⟨guarded.loaded, ?_, behind, guarded.begun.history⟩
    show ClassesKnown code (m.classes.put name ((m.code.bind _).getD []))
    rw [guarded.loaded]
    exact guarded.classes.put name
  · rintro _ rfl
    exact ⟨⟨guarded.loaded, guarded.classes, guarded.place, guarded.begun.history⟩, fun _ =>
      ⟨guarded.loaded, guarded.classes, behind, guarded.begun.history⟩⟩

/-- Whatever instruction a machine executes, its calls keep to their segments. -/
theorem execute_guarded (divided : code.Divided program scope keepResult main bodies)
    (guarded : Guarded code main bodies m) (current : m.current? = some i) :
    LeavesGuarded code main bodies m i := by
  obtain ⟨s, member, here, outer, within⟩ := guarded.place.top
  obtain ⟨a, pc, -⟩ := divided.lt_size member here
  obtain ⟨_, has, stays⟩ := divided.stays s member a (pc ▸ here)
  obtain rfl := Option.some.inj (current.symm.trans (current?_of_has guarded.loaded pc has))
  have behind : i.op.goesOn = true →
      code.Confines main bodies (m.frames.map CallFrame.site) (m.pc + 1) := by
    intro goesOn
    rw [pc]
    exact within _ (stays.next goesOn)
  have next := @leaves_of_next _ _ _ _ _ _ _ i divided guarded
  cases op : i.op
  case jump =>
    obtain ⟨target, aimed, inside⟩ := stays.jumps (by rw [op]; rfl)
    unfold LeavesGuarded Act.Splits
    rw [jump_execute op aimed]
    exact ⟨guarded.loaded, guarded.classes, within _ inside, guarded.begun.history⟩
  case jumpIf | jumpIfNot =>
    obtain ⟨target, aimed, inside⟩ := stays.jumps (by rw [op]; rfl)
    have behind := behind (by rw [op]; rfl)
    have roams : ∀ next, Roams (· = (target : Int)) (m.fetched i) next →
        Guarded code main bodies next := by
      intro next roams
      have place : code.Confines main bodies (m.frames.map CallFrame.site) next.pc := by
        rcases roams.pc with same | same
        · exact same ▸ behind
        · exact same ▸ within _ inside
      have kept : Guarded code main bodies { next with pc := next.pc } := guarded.roam roams place
      exact kept
    refine (Act.Splits.keeps (branch_keeps ?_ aimed)).mono roams fun next kept =>
      ⟨guarded.roam kept guarded.place, fun _ => roams next kept⟩
    simp [op]
  case ret => exact ret_guarded divided guarded pc has op
  case classDef => exact classDef_guarded guarded op (behind (by rw [op]; rfl))
  case halt =>
    unfold LeavesGuarded Act.Splits
    have halts : execute i (m.fetched i) = (.ok (), { m.fetched i with
        pc := (m.fetched i).pc - 1
        status := .completed
        report := { (m.fetched i).report with done := true } }) := by
      unfold execute
      rw [op]
      rfl
    rw [halts]
    refine ⟨guarded.loaded, guarded.classes, ?_, guarded.begun.history⟩
    show code.Confines main bodies (m.frames.map CallFrame.site) (m.pc + 1 - 1)
    rw [Int.add_sub_cancel]
    exact guarded.place
  case callUser =>
    refine next (behind (by rw [op]; rfl))
      ((callUser_splits op (m.fetched i)).mono ?_ fun _ kept => kept)
    rintro next ⟨known, name, entry, loaded, entered, calls⟩
    cases guarded.loaded.symm.trans loaded
    exact .inr (.inl ⟨name, entry, entered, calls⟩)
  case new =>
    refine next (behind (by rw [op]; rfl))
      ((new_splits op (m.fetched i)).mono ?_ fun _ kept => kept)
    exact fun next led => led.imp_right .inr
  case methodCall =>
    refine next (behind (by rw [op]; rfl))
      ((methodCall_splits op (m.fetched i)).mono ?_ fun _ kept => kept)
    exact fun next led => led.imp_right .inr
  all_goals
    refine next (behind (by rw [op]; rfl)) ?_
    have plain : i.op.isPlain = true := by rw [op]; rfl
    exact (Act.Splits.keeps ((tolerant_roams _).execute plain)).mono (fun _ => .inl) fun _ kept => kept

theorem step_guarded (divided : code.Divided program scope keepResult main bodies)
    (guarded : Guarded code main bodies m) : Guarded code main bodies m.step.2 := by
  have begun := guarded.begun
  rcases result : m.step with ⟨answer, next⟩
  cases steps_of_eq result with
  | ended => exact guarded
  | lost => exact begun
  | nowhere => exact begun
  | exhausted | behind => exact ⟨begun.loaded, begun.classes, begun.place, begun.history⟩
  | executed _ current done =>
    have left := execute_guarded divided guarded current
    unfold LeavesGuarded Act.Splits at left
    rwa [done] at left
  | faulted _ current failed =>
    have left := execute_guarded divided guarded current
    unfold LeavesGuarded Act.Splits at left
    rw [failed] at left
    obtain ⟨⟨loaded, classes, place, history⟩, -⟩ := left
    exact ⟨loaded, classes, place, history⟩
  | @broken i failure next _ current failed =>
    have left := execute_guarded divided guarded current
    unfold LeavesGuarded Act.Splits at left
    rw [failed] at left
    refine left.2 fun returns => ?_
    cases (ret_failed returns failed).1

theorem stepBack_guarded (guarded : Guarded code main bodies m) :
    Guarded code main bodies m.stepBack.2 := by
  have history := guarded.history
  unfold stepBack
  split
  next => exact guarded
  next s older kept =>
    rw [kept] at history
    obtain ⟨classes, place⟩ := history s (.head _)
    refine ⟨guarded.loaded, classes, ?_, fun s member => history s (.tail _ member)⟩
    show code.Confines main bodies ((s.frames.map (CallFrame.rename _)).map CallFrame.site) s.pc
    rw [List.map_map]
    exact place

theorem evaluate_guarded (guarded : Guarded code main bodies m) (source : String) :
    Guarded code main bodies (m.evaluate source).2 := by
  obtain ⟨globals, host, heap, drawn, -, same⟩ := evaluate_machine m source
  rw [same]
  exact ⟨guarded.loaded, guarded.classes, guarded.place, guarded.history⟩

theorem stable_guarded (divided : code.Divided program scope keepResult main bodies) :
    Stable (Guarded code main bodies) where
  step _ guarded := step_guarded divided guarded
  status _ _ guarded := ⟨guarded.loaded, guarded.classes, guarded.place, guarded.history⟩
  stepBack _ guarded := stepBack_guarded guarded
  setGlobal _ _ _ guarded := ⟨guarded.loaded, guarded.classes, guarded.place, guarded.history⟩
  evaluate _ source guarded := evaluate_guarded guarded source

theorem load_guarded (divided : code.Divided program scope keepResult main bodies)
    (machine : Machine) : Guarded code main bodies (machine.load code) := by
  refine ⟨rfl, (fun _ _ _ _ found => nomatch found), ?_, (fun _ member => nomatch member)⟩
  obtain ⟨start, -⟩ := divided.consecutive
  have long := divided.halts.1
  refine Segment.mem_iff.mpr ⟨?_, ?_⟩
  · rw [start]
    exact Int.le_refl 0
  · show (0 : Int) < main.finish
    rw [Segment.finish]
    omega

/-- Control-flow integrity of compiled code. The code is divided into segments which no jump leaves,
and all that is known by name is the beginning of one. However a machine is driven, whatever fails on
the way, the innermost call stands in the segment of its function, every caller goes on in its own,
and there is always an instruction to execute. -/
theorem control_flow_confined {source readAs filename : String} {program : Program}
    {keepResult : Bool} {code : Code} (parsed : Program.parse source readAs = .ok program)
    (compiled : program.compile filename keepResult = .ok code) :
    ∃ main bodies, code.Divided program (program.scope filename) keepResult main bodies ∧
      ∀ machine m : Machine, Visited (machine.load code) m →
        code.Confines main bodies (m.frames.map CallFrame.site) m.pc ∧
          (∃ a : Nat, m.pc = a ∧ a < code.size) ∧ ∃ i, m.current? = some i := by
  have shaped := Program.parse_shaped parsed
  obtain ⟨finish, laid⟩ := Program.laidOut_of_compile shaped compiled
  have divided := Program.divided_of_balanced laid (Program.balanced_of_laidOut shaped laid)
  refine ⟨_, _, divided, fun machine m visited => ?_⟩
  have guarded := (stable_guarded divided).visited (load_guarded divided machine) visited
  obtain ⟨s, member, here, -, -⟩ := guarded.place.top
  obtain ⟨a, pc, bound⟩ := divided.lt_size member here
  obtain ⟨i, has, -⟩ := divided.stays s member a (pc ▸ here)
  exact ⟨guarded.place, ⟨a, pc, bound⟩, i, current?_of_has guarded.loaded pc has⟩

theorem visited_of_runToLine {line : Int} {source : String} {result : Driven (StepReport × Bool)}
    (ran : runToLine source line = .ok (result, m)) :
    ∃ program code, Program.parse source unnamedSource = .ok program ∧
      program.compile unnamedSource true = .ok code ∧
      Visited (((new {}).addBreakpoint line).load code) m := by
  obtain ⟨program, parsed, ran⟩ := bind_eq_ok.mp ran
  obtain ⟨code, compiled, ran⟩ := bind_eq_ok.mp ran
  have driven : (((new {}).addBreakpoint line).load code).runUntilBreakpoint = (result, m) :=
    Except.ok.inj ran
  have went : Visited (((new {}).addBreakpoint line).load code) _ := .runUntilBreakpoint .start
  rw [driven] at went
  exact ⟨program, code, parsed, compiled, went⟩

/-- A method that is called by a function, with a loop that is left. -/
def errand : String :=
  "class A:\n    def m(self):\n        return 1\n" ++
  "def f(x):\n    while x:\n        break\n    return A().m()\nf(1)\n"

/-- At a breakpoint in the method. -/
theorem control_flow_confined_errand : ∃ program code main bodies m,
    Program.parse errand unnamedSource = .ok program ∧
      program.compile unnamedSource true = .ok code ∧
      Visited (((new {}).addBreakpoint 3).load code) m ∧ m.frames.length = 2 ∧
      code.Divided program (program.scope unnamedSource) true main bodies ∧
      code.Confines main bodies (m.frames.map CallFrame.site) m.pc := by
  have ran : (runToLine errand 3).toOption.any (fun result => result.2.frames.length = 2) = true := by
    rw [runToLine_eq_ofChars errand (append_eq_ofList rfl rfl)]
    decide +kernel
  obtain ⟨⟨answer, m⟩, result, ran⟩ := exists_ok ran
  obtain ⟨program, code, parsed, compiled, went⟩ := visited_of_runToLine result
  obtain ⟨main, bodies, divided, confined⟩ := control_flow_confined parsed compiled
  exact ⟨program, code, main, bodies, m, parsed, compiled, went, of_decide_eq_true ran, divided,
    (confined _ m went).1⟩

end Machine

end Stepwise
