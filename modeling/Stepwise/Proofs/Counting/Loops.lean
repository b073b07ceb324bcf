import Stepwise.Proofs.Agreement.Programs
import Stepwise.Proofs.Counting.Laps
import Stepwise.Proofs.Counting.Walks

/-!
Loops count exactly, on both engines: `loops_count`. A range prints its values and leaves its variable
at the first value that is not before the end; a counted loop runs its body as often as its count said
when the loop was entered.
-/
namespace Stepwise

open Machine (isHidden)

variable {program : Program} {filename : String} {code : Code} {keepResult : Bool}

/-- Loops count exactly. Each loop of a program has its place in the code; a range prints its values, and
a counted loop runs its body as often as its count says if each round ends, whatever becomes of the
variables in its count. On the machine this takes a body that leaves alone the hidden variable in which
the loop keeps a count that is not literal. -/
theorem loops_count {source readAs : String} (parsed : Program.parse source readAs = .ok program)
    (compiled : program.compile filename keepResult = .ok code)
    (noClass : program.methodTables.has (.text "print") = false)
    (noFunction : program.functions.get? (.text "print") = none) :
    (∀ loop, program.Has loop → (∀ pos value, loop ≠ .expr pos value) →
      ∃ number base next, code.Stands (program.scope filename) loop number base next) ∧
    (∀ a b s : Int, s ≠ 0 → a.natAbs < pow10 Decimal.digitLimit → b.natAbs < pow10 Decimal.digitLimit →
      ∃ n, RangeLength a b s n ∧ ∀ (var : String) (first last step : Expr) (pos p call arg : Pos),
        isHidden (.text var) = false →
        let body := [printing p call arg var]
        let loop := Stmt.loopRange pos (.scalar (.text var)) first last (some step) body
        -- on the machine, at whatever depth of calls and of loops
        (∀ (number base next : Nat) (m : Machine),
          code.Stands (program.scope filename) loop number base next → m.code = some code →
          m.status.isFinal = false → m.pc = base → m.host.find? (.text "print") = none →
          Denotes m.var first a → Denotes m.var last b → Denotes m.var step s →
          (m.stepCount + 20 * (n + 1) : Nat) ≤ m.maxSteps →
          ∃ m', Travels Machine.step (fun _ => True) m m' ∧ m'.status.isFinal = false ∧ m'.pc = next ∧
            m'.stack = m.stack ∧ Machine.Ranged m m' var (rangeLines a s n) (a + n * s)) ∧
        -- on the walker, inside another loop or a function
        (∀ (invoke : Walker.Invoke) (inLoop : Bool) (w : Walker), w.PrintsPlainly →
          Denotes w.var first a → Denotes w.var last b → Denotes w.var step s →
          (w.begun + n + 1 : Nat) ≤ w.maxSteps →
          ∃ w', Walker.exec invoke inLoop loop w = (.ok .next, w') ∧
            Walker.Ranged w w' var (rangeLines a s n) (a + n * s)) ∧
        -- on the walker, where the loop is open between steps
        (∀ (frame : Frame) (outer : List Frame) (w : Walker), Walker.Between (frame :: outer) w →
          frame.loop = none → frame.statements[frame.index]? = some loop → w.PrintsPlainly →
          Denotes w.var first a → Denotes w.var last b → Denotes w.var step s →
          (w.stepCount + 2 * n + 1 : Nat) ≤ w.maxSteps →
          ∃ t w', Travels Walker.step (fun _ => True) w t ∧ Walker.Closes (frame.next :: outer) t w' ∧
            Walker.Ranged w w' var (rangeLines a s n) (a + n * s))) ∧
    (∀ (n : Nat) (pos : Pos) (count : Expr) (body : List Stmt),
      let loop := Stmt.loopTimes pos count body
      -- on the machine, at whatever depth of calls and of loops
      (program.Has loop → ∀ number base next : Nat,
        code.Stands (program.scope filename) loop number base next →
        ∃ circuit : Machine.Circuit, circuit.base = base ∧ circuit.next = next ∧
          circuit.Carries code (program.scope filename) pos count body number ∧
          ∀ machine m : Machine, Machine.Reached (machine.load code) m → m.status.isFinal = false →
            m.pc = base → Denotes m.var count n → (m.stepCount + 10 : Nat) ≤ m.maxSteps →
            let begins := circuit.Begins m.frames.length
            let ends := circuit.Ends m.frames.length
            (∀ k t b, k < n → Laps begins ends k m t → begins t b → ∃ e, ends b e ∧
              (count.count? = none →
                e.var (loopVar "count_" number) = b.var (loopVar "count_" number)) ∧
              (e.stepCount + 10 : Nat) ≤ e.maxSteps) →
            ∃ t m', Laps begins ends n m t ∧
              Travels Machine.step (Machine.IsIn m.frames.length circuit.Around) t m' ∧
              m'.status.isFinal = false ∧ m'.pc = next ∧ m'.stack = m.stack ∧
              m'.frames.map CallFrame.link = m.frames.map CallFrame.link) ∧
      -- on the walker, inside another loop or a function
      (∀ (invoke : Walker.Invoke) (inLoop : Bool) (w : Walker), Denotes w.var count n →
        (w.begun + 1 : Nat) ≤ w.maxSteps →
        let ends := Walker.Finishes (Walker.execBlock invoke true body)
        (∀ k t, k < n → Laps Eq ends k (w.begunAt pos.line) t → ∃ e, ends t e) →
        ∃ t, Walker.exec invoke inLoop loop w = (.ok .next, t) ∧
          Laps Eq ends n (w.begunAt pos.line) t) ∧
      -- on the walker, where the loop is open between steps
      (∀ (frame : Frame) (outer : List Frame) (w : Walker), Walker.Between (frame :: outer) w →
        frame.loop = none → frame.statements[frame.index]? = some loop → Denotes w.var count n →
        (w.stepCount + 1 : Nat) ≤ w.maxSteps →
        let begins := Walker.BeginsRound frame outer body
        let ends := Walker.EndsRound frame outer body
        (∀ k t b, k < n → Laps begins ends k w t → begins t b → ∃ e, ends b e ∧
          (e.stepCount + 1 : Nat) ≤ e.maxSteps) →
        ∃ t w', Laps begins ends n w t ∧ Walker.Closes (frame.next :: outer) t w')) := by
  have shaped := Program.parse_shaped parsed
  obtain ⟨finish, laid⟩ := Program.laidOut_of_compile shaped compiled
  obtain ⟨finish', sound⟩ := Machine.sound_of_compile parsed compiled
  refine ⟨fun loop has other => laid.stands has other, ?_, ?_⟩
  · intro a b s moves start finish
    obtain ⟨n, length⟩ := exists_rangeLength a b moves
    have printable := length.printable start finish
    refine ⟨n, length, fun var first last step pos p call arg shown => ⟨?_, ?_, ?_⟩⟩
    · intro number base next m stands loaded under here free starts stops steps enough
      have own : (program.scope filename).callOpcode (.text "print") = .call := by
        rw [Program.callOpcode_eq, noClass, noFunction]
        rfl
      exact Machine.range_travels stands own shown starts stops steps moves length printable free loaded
        under here enough
    · intro invoke inLoop w plain starts stops steps enough
      exact Walker.exec_range plain starts stops steps moves length printable enough
    · intro frame outer w between closed there plain starts stops steps enough
      exact Walker.range_steps between closed there plain starts stops steps moves length printable enough
  · intro n pos count body
    refine ⟨?_, ?_, ?_⟩
    · intro has number base next stands
      obtain ⟨circuit, rfl, rfl, carries⟩ := Machine.exists_circuit stands
      obtain ⟨first, second, start, limit, placed⟩ := id carries
      refine ⟨circuit, rfl, rfl, carries, ?_⟩
      intro machine m reached under here given enough _ _ ends
      exact Machine.repeat_laps sound placed (Program.shaped_of_has shaped has).2.2
        (Machine.reached_disciplined sound (Machine.load_disciplined sound.balanced machine) reached) under
        given here enough ends
    · intro invoke inLoop w given within _ ends
      exact Walker.exec_repeat given within ends
    · intro frame outer w between closed there given enough _ _ ends
      exact Walker.repeat_steps between closed there given enough ends

/-- Writes over the hidden variable in which the machine keeps the count of its loop. -/
def overwriting : String :=
  "n = 3\nrepeat n times:\n    print(1)\n    __for_count_0 = 1\nprint(2)\n"

/-- What a run of a source prints on the machine. -/
def printedByMachine (source : String) : Option (Array String) := do
  let program ← (Program.parse source unnamedSource).toOption
  let code ← (program.compile unnamedSource).toOption
  return ((Machine.new {}).load code).runAll.2.world.output

/-- What a run of a source prints on the walker. -/
def printedByWalker (source : String) : Option (Array String) := do
  let program ← (Program.parse source unnamedSource).toOption
  let loaded ← ((Walker.new {}).load program).toOption
  return loaded.runAll.2.world.output

/-- A body may cut its loop short on the machine: the walker runs it three times, the machine once,
although each round ends normally. -/
theorem loop_cut_short : printedByWalker overwriting = some #["1", "1", "1", "2"] ∧
    printedByMachine overwriting = some #["1", "2"] := by
  rw [printedByWalker, printedByMachine, @Program.parse_eq_ofChars overwriting _ rfl]
  decide +kernel

/-- A counted loop that changes the variable it was counted by, and a range that goes down. -/
def selfChanging : String :=
  "repeat n times:\n    n = n + 5\n    continue\nfor i in range(5, 0, -2):\n    print(i)\n"

/-- The body of the counted loop. -/
def changing (pos p q r last : Pos) : List Stmt :=
  [.assign pos (.scalar (.text "n")) (.binary p .add (.var q (.scalar (.text "n")))
    (.literal r .number (.scalar (.number (.int 5))))), .again last]

def counter (pos : Pos) : Expr := .var pos (.scalar (.text "n"))

/-- The range. -/
def descent (pos p q r s t call arg : Pos) : Stmt :=
  .loopRange pos (.scalar (.text "i")) (.literal p .number (.scalar (.number (.int 5))))
    (.literal q .number (.scalar (.number (.int 0))))
    (some (.unary r .neg (.literal s .number (.scalar (.number (.int 2)))))) [printing t call arg "i"]

theorem descent_length : RangeLength 5 0 (-2) 3 := by
  refine ⟨fun k less => ?_, by decide⟩
  unfold Before
  rw [if_neg (by decide)]
  omega

/-- Whether a program has the two loops. -/
def hasBoth (program : Program) : Bool :=
  (match program.body with
  | [.loopTimes _ (.var _ (.scalar (.text n))) [.assign _ (.scalar (.text n₁)) (.binary _ .add
        (.var _ (.scalar (.text n₂))) (.literal _ .number (.scalar (.number (.int 5))))), .again _],
      .loopRange _ (.scalar (.text i)) (.literal _ .number (.scalar (.number (.int 5))))
        (.literal _ .number (.scalar (.number (.int 0))))
        (some (.unary _ .neg (.literal _ .number (.scalar (.number (.int 2))))))
        [.expr _ (.call _ (.scalar (.text f)) [.var _ (.scalar (.text j))])]] =>
    n = "n" && n₁ = "n" && n₂ = "n" && i = "i" && f = "print" && j = "i"
  | _ => false) && !program.methodTables.has (.text "print") &&
    (program.functions.get? (.text "print")).isNone

theorem loops_of_hasBoth {program : Program} (both : hasBoth program = true) :
    (∃ pos countPos p q r s last pos' p' q' r' s' t call arg,
      program.body = [.loopTimes pos (counter countPos) (changing p q r s last),
        descent pos' p' q' r' s' t call arg]) ∧
    program.methodTables.has (.text "print") = false ∧
    program.functions.get? (.text "print") = none := by
  rw [hasBoth, Bool.and_eq_true, Bool.and_eq_true, Bool.not_eq_true', Option.isNone_iff_eq_none] at both
  obtain ⟨⟨body, noClass⟩, noFunction⟩ := both
  refine ⟨?_, noClass, noFunction⟩
  split at body
  next same =>
    simp only [Bool.and_eq_true, decide_eq_true_eq] at body
    obtain ⟨⟨⟨⟨⟨rfl, rfl⟩, rfl⟩, rfl⟩, rfl⟩, rfl⟩ := body
    exact ⟨_, _, _, _, _, _, _, _, _, _, _, _, _, _, _, same⟩
  next => cases body

namespace Machine

/-- A machine in front of a program that was loaded, with a count in a global variable. -/
def counting (code : Code) : Machine :=
  { (Machine.new {}).load code with
    toEngine := ((Machine.new {}).load code).toEngine.setGlobal (.text "n") (.int 1) }

theorem counting_fresh (code : Code) :
    ((counting code).stepCount + 20 * (3 + 1) : Nat) ≤ (counting code).maxSteps := by
  have taken : (counting code).stepCount = 0 := rfl
  have limit : (counting code).maxSteps = usualMaxSteps := rfl
  rw [taken, limit]
  decide

/-- Where the code of the counted loop stands, in front of a program. -/
def changingCircuit : Circuit := ⟨0, 8, 13, 17⟩

theorem eq_changingCircuit {code : Code} {scope : Scope} {pos countPos p q r s last : Pos}
    {circuit : Circuit} {number : Nat} (base : circuit.base = 0)
    (carries : circuit.Carries code scope pos (counter countPos) (changing p q r s last) number) :
    circuit = changingCircuit := by
  obtain ⟨first, second, start, limit, ⟨limits, -, inner, body, -, next⟩⟩ := carries
  have begins : start = circuit.base + 3 := by
    cases limits with
    | literal known => cases known
    | computed _ placed =>
      cases placed
      rfl
  cases body with | cons first rest =>
  cases first with | assign value =>
  cases value with | binary _ left right =>
  cases left
  cases right
  cases rest with | cons again rest =>
  cases again
  generalize behind : circuit.again = a at *
  cases rest
  obtain ⟨_, _, _, _⟩ := circuit
  simp only [changingCircuit, Circuit.mk.injEq] at *
  omega

/-- Whether the machine is around the body of the loop, or in it. -/
def isAround (m : Machine) : Bool :=
  m.frames.isEmpty && ((0 ≤ m.pc && m.pc < 8) || (13 ≤ m.pc && m.pc < 17))

def isInside (m : Machine) : Bool := m.frames.isEmpty && (8 ≤ m.pc && m.pc < 13)

/-- Whether the machine gets through one round of the loop. -/
def countsOnce (code : Code) : Bool :=
  (stepsAlong Machine.step isAround 20 (counting code)).any fun b =>
    b.frames.isEmpty && b.pc = 8 && (stepsAlong Machine.step isInside 20 b).any fun e =>
      e.frames.isEmpty && e.pc = 13 && ((e.stepCount + 10 : Nat) : Int) ≤ e.maxSteps &&
        (match b.var (loopVar "count_" 0), e.var (loopVar "count_" 0) with
        | some (.number (.int c)), some (.number (.int d)) => c = d
        | _, _ => false)

theorem isIn_of_isAround {m : Machine} (around : isAround m = true) :
    IsIn 0 changingCircuit.Around m := by
  simp only [isAround, Bool.and_eq_true, Bool.or_eq_true, decide_eq_true_eq, List.isEmpty_iff] at around
  obtain ⟨a, pc⟩ := Int.eq_ofNat_of_zero_le (show 0 ≤ m.pc by omega)
  refine ⟨by rw [around.1]; rfl, a, pc, ?_⟩
  simp only [Circuit.Around, changingCircuit]
  omega

theorem inBody_of_isInside {m : Machine} (inside : isInside m = true) :
    InBody 0 changingCircuit.inner changingCircuit.again m := by
  simp only [isInside, Bool.and_eq_true, decide_eq_true_eq, List.isEmpty_iff] at inside
  obtain ⟨a, pc⟩ := Int.eq_ofNat_of_zero_le (show 0 ≤ m.pc by omega)
  refine .inr ⟨by rw [inside.1]; rfl, a, pc, ?_⟩
  simp only [changingCircuit]
  omega

theorem not_isIn_inner {m : Machine} (here : m.pc = 8) : ¬ IsIn 0 changingCircuit.Around m := by
  rintro ⟨-, a, pc, around⟩
  simp only [Circuit.Around, changingCircuit] at around
  omega

theorem ends_of_countsOnce {code : Code} {b : Machine} (counts : countsOnce code = true)
    (begins : changingCircuit.Begins 0 (counting code) b) : ∃ e, changingCircuit.Ends 0 b e ∧
      e.var (loopVar "count_" 0) = b.var (loopVar "count_" 0) ∧
      (e.stepCount + 10 : Nat) ≤ e.maxSteps := by
  obtain ⟨b', led, counts⟩ := (Option.any_eq_true ..).mp counts
  simp only [Bool.and_eq_true, decide_eq_true_eq, List.isEmpty_iff] at counts
  obtain ⟨⟨-, here⟩, counts⟩ := counts
  obtain ⟨e, ended, counts⟩ := (Option.any_eq_true ..).mp counts
  simp only [Bool.and_eq_true, decide_eq_true_eq, List.isEmpty_iff] at counts
  obtain ⟨⟨⟨outer, there⟩, enough⟩, kept⟩ := counts
  obtain ⟨travels, -, _, here', rfl⟩ := begins
  have travels' := (travels_of_stepsAlong led).1.mono fun _ => isIn_of_isAround
  obtain rfl : b = b' := travels.unique (not_isIn_inner here') travels' (not_isIn_inner here)
  have inside := (travels_of_stepsAlong ended).1.mono fun _ => inBody_of_isInside
  refine ⟨e, ⟨inside, by rw [outer]; rfl, 13, there, rfl⟩, ?_, enough⟩
  split at kept
  next before after => rw [before, after, of_decide_eq_true kept]
  next => cases kept

end Machine

/-- The range, wherever it stands. -/
def descending : Stmt := descent {} {} {} {} {} {} {} {}

/-- The counted loop, wherever it stands. -/
def changingLoop : Stmt := .loopTimes {} (counter {}) (changing {} {} {} {} {})

namespace Walker

/-- A walker in front of some statements, with a count in a global variable. -/
def counting (statements : List Stmt) : Walker :=
  { Walker.new {} with
    program := some default
    globals := [(.text "n", .int 1)]
    frames := [{ statements }] }

theorem counting_fresh (statements : List Stmt) :
    ((counting statements).stepCount + 10 : Nat) ≤ (counting statements).maxSteps ∧
      ((counting statements).begun + 10 : Nat) ≤ (counting statements).maxSteps := by
  have taken : (counting statements).stepCount = 0 := rfl
  have begun : (counting statements).begun = 0 := rfl
  have limit : (counting statements).maxSteps = usualMaxSteps := rfl
  rw [taken, begun, limit]
  decide

/-- The walker behind some steps of the counted loop. -/
def changed : Nat → Walker
  | 0 => counting [changingLoop]
  | k + 1 => (changed k).step.2

theorem ends_changed {b : Walker} (begins : BeginsRound { statements := [changingLoop] } []
      (changing {} {} {} {} {}) (counting [changingLoop]) b) :
    ∃ e, EndsRound { statements := [changingLoop] } [] (changing {} {} {} {} {}) b e ∧
      (e.stepCount + 1 : Nat) ≤ e.maxSteps := by
  obtain ⟨report, stepped, -, opened⟩ := begins
  obtain rfl : b = changed 1 := by
    rw [changed, changed, stepped]
  have first : ∃ report, (changed 1).step = (.ok report, changed 2) ∧ report.done = false :=
    ⟨_, rfl, rfl⟩
  have second : ∃ report, (changed 2).step = (.ok report, changed 3) ∧ report.done = false :=
    ⟨_, rfl, rfl⟩
  obtain ⟨_, first, going⟩ := first
  obtain ⟨_, second, going'⟩ := second
  have middle : InBody { statements := [changingLoop] } [] (changing {} {} {} {} {})
    (· < (changing {} {} {} {} {}).length) (changed 2) := ⟨_, rfl, rfl, Nat.lt_succ_self 1⟩
  have behind : InBody { statements := [changingLoop] } [] (changing {} {} {} {} {})
    (· = (changing {} {} {} {} {}).length) (changed 3) := ⟨_, rfl, rfl, rfl⟩
  obtain ⟨loop, frames, same, start⟩ := opened
  have opened : InBody { statements := [changingLoop] } [] (changing {} {} {} {} {})
      (· < (changing {} {} {} {} {}).length) (changed 1) :=
    ⟨loop, frames, same, by rw [start]; exact Nat.succ_pos 1⟩
  refine ⟨changed 3, ⟨.on opened first going (.on middle second going' (.here _)), behind⟩, ?_⟩
  have taken : (changed 3).stepCount = 3 := rfl
  have limit : (changed 3).maxSteps = usualMaxSteps := rfl
  rw [taken, limit]
  decide

end Walker

/-- The counted loop runs once although its body adds to its count, and the range goes down from five. -/
theorem loops_count_changing : ∃ (program : Program) (code : Code),
    Program.parse selfChanging unnamedSource = .ok program ∧
    program.compile unnamedSource = .ok code ∧
    (∃ t m' : Machine, Laps (Machine.changingCircuit.Begins 0) (Machine.changingCircuit.Ends 0) 1
        (Machine.counting code) t ∧
      Travels Machine.step (Machine.IsIn 0 Machine.changingCircuit.Around) t m' ∧ m'.pc = 17) ∧
    (∃ m', Travels Machine.step (fun _ => True) { Machine.counting code with pc := 17 } m' ∧
      m'.world.output = #["5", "3", "1"] ∧ m'.var (.text "i") = some (.int (-1))) ∧
    (∃ w', Walker.exec Walker.invokeTop false changingLoop (Walker.counting []) = (.ok .next, w') ∧
      Laps Eq (Walker.Finishes (Walker.execBlock Walker.invokeTop true (changing {} {} {} {} {}))) 1
        ((Walker.counting []).begunAt none) w') ∧
    (∃ w', Walker.exec Walker.invokeTop false descending (Walker.counting []) = (.ok .next, w') ∧
      w'.world.output = #["5", "3", "1"] ∧ w'.var (.text "i") = some (.int (-1))) ∧
    (∃ t w', Laps (Walker.BeginsRound { statements := [changingLoop] } [] (changing {} {} {} {} {}))
        (Walker.EndsRound { statements := [changingLoop] } [] (changing {} {} {} {} {})) 1
        (Walker.counting [changingLoop]) t ∧
      Walker.Closes [{ statements := [changingLoop], index := 1 }] t w') ∧
    (∃ t w', Travels Walker.step (fun _ => True) (Walker.counting [descending]) t ∧
      Walker.Closes [{ statements := [descending], index := 1 }] t w' ∧
      w'.world.output = #["5", "3", "1"] ∧ w'.var (.text "i") = some (.int (-1))) := by
  have checked : (Program.parse selfChanging unnamedSource).toOption.any (fun program =>
      hasBoth program && (program.compile unnamedSource).toOption.any Machine.countsOnce) = true := by
    rw [@Program.parse_eq_ofChars selfChanging _ rfl]
    decide +kernel
  obtain ⟨program, parsed, checked⟩ := exists_ok checked
  rw [Bool.and_eq_true] at checked
  obtain ⟨both, checked⟩ := checked
  rcases compiled : program.compile unnamedSource with failure | code
  · rw [compiled] at checked
    cases checked
  simp only [compiled] at checked
  obtain ⟨⟨pos, countPos, p, q, r, s, last, pos', p', q', r', s', t, call, arg, body⟩, noClass,
    noFunction⟩ := loops_of_hasBoth both
  obtain ⟨finish, laid⟩ := Program.laidOut_of_compile (Program.parse_shaped parsed) compiled
  have classes : program.classes.length = 0 := by
    unfold Program.classes
    rw [body]
    rfl
  have main : program.main = program.body := by
    unfold Program.main
    rw [body]
    rfl
  obtain ⟨-, ranges, repeats⟩ := loops_count parsed compiled noClass noFunction
  have placed := laid.main
  rw [main, body, classes] at placed
  cases placed with
  | kept result => cases result
  | plain _ placed =>
  cases placed with | cons first rest =>
  cases rest with | cons second rest =>
  have once := (repeats 1 pos (counter countPos) (changing p q r s last)).1 (.inl (by
    rw [main, body]
    exact .here _)) 0 0 _ ⟨_, _, first⟩
  obtain ⟨circuit, base, behind, carries, runs⟩ := once
  obtain rfl := Machine.eq_changingCircuit base carries
  subst behind
  obtain ⟨t', m', laps, travels, -, pc, -⟩ := runs (Machine.new {}) (Machine.counting code)
    (.setGlobal .start) rfl rfl (.held countPos rfl) (by have := Machine.counting_fresh code; omega)
    (fun k t b less laps begins => by
      obtain rfl : k = 0 := by omega
      cases laps
      obtain ⟨e, ends, kept, enough⟩ := Machine.ends_of_countsOnce checked begins
      exact ⟨e, ends, fun _ => kept, enough⟩)
  have small : (5 : Int).natAbs < pow10 Decimal.digitLimit := by decide +kernel
  have small' : (0 : Int).natAbs < pow10 Decimal.digitLimit := by decide +kernel
  obtain ⟨n, length, prints⟩ := ranges 5 0 (-2) (by decide) small small'
  obtain rfl : n = 3 := length.unique descent_length
  have prints := fun pos p q r s t call arg => prints "i" (.literal p .number (.scalar (.number (.int 5))))
    (.literal q .number (.scalar (.number (.int 0))))
    (.unary r .neg (.literal s .number (.scalar (.number (.int 2))))) pos t call arg (by decide)
  have plain (statements : List Stmt) : (Walker.counting statements).PrintsPlainly := ⟨rfl, rfl, rfl⟩
  have between (s : Stmt) : Walker.Between [{ statements := [s] }] (Walker.counting [s]) :=
    ⟨rfl, rfl, rfl⟩
  obtain ⟨down, travelsDown, -, -, -, printedDown⟩ := (prints pos' p' q' r' s' t call arg).1 _ _ _
    { Machine.counting code with pc := 17 } ⟨_, _, second⟩ rfl rfl rfl rfl (.literal ..) (.literal ..)
    (.negative ..) (Machine.counting_fresh code)
  obtain ⟨w₁, ran₁, laps₁⟩ := (repeats 1 {} (counter {}) (changing {} {} {} {} {})).2.1 Walker.invokeTop
    false (Walker.counting []) (.held {} rfl)
    (by have := (Walker.counting_fresh []).2; omega) fun k t less laps => by
      obtain rfl : k = 0 := by omega
      cases laps
      exact ⟨_, .inr rfl⟩
  obtain ⟨w₂, ran₂, printed₂⟩ := (prints {} {} {} {} {} {} {} {}).2.1 Walker.invokeTop false
    (Walker.counting []) (plain _) (.literal ..) (.literal ..) (.negative ..)
    (by have := (Walker.counting_fresh []).2; omega)
  obtain ⟨t₃, w₃, laps₃, closes₃⟩ := (repeats 1 {} (counter {}) (changing {} {} {} {} {})).2.2
    { statements := [changingLoop] } [] (Walker.counting [changingLoop]) (between _) rfl rfl
    (.held {} rfl) (by have := (Walker.counting_fresh [changingLoop]).1; omega)
    fun k t b less laps begins => by
      obtain rfl : k = 0 := by omega
      cases laps
      exact Walker.ends_changed begins
  obtain ⟨t₄, w₄, travels₄, closes₄, printed₄⟩ := (prints {} {} {} {} {} {} {} {}).2.2
    { statements := [descending] } [] (Walker.counting [descending]) (between _) rfl rfl (plain _)
    (.literal ..) (.literal ..) (.negative ..)
    (by have := (Walker.counting_fresh [descending]).1; omega)
  exact ⟨program, code, parsed, compiled, ⟨t', m', laps, travels, pc⟩,
    ⟨down, travelsDown, printedDown.output, printedDown.value⟩, ⟨w₁, ran₁, laps₁⟩,
    ⟨w₂, ran₂, printed₂.output, printed₂.value⟩, ⟨t₃, w₃, laps₃, closes₃⟩,
    ⟨t₄, w₄, travels₄, closes₄, printed₄.output, printed₄.value⟩⟩

end Stepwise
