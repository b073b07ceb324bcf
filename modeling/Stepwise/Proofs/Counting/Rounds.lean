import Mathlib.Data.Nat.Find
import Mathlib.Tactic.Ring
import Stepwise.Proofs.Driving.Courses
import Stepwise.Proofs.Stack.Discipline

/-!
What loops that count are described by: the values of a range, the rounds of a loop along the steps of
an engine, and the places of a program where a loop can stand (`Program.LaidOut.stands`).
-/
namespace Stepwise

section Ranges

variable {first step stop v : Int} {n k : Nat}

/-- Whether a value comes before the end of a range, in the direction of its step. -/
def Before (step v stop : Int) : Prop := if 0 < step then v < stop else stop < v

instance : Decidable (Before step v stop) := by
  unfold Before
  infer_instance

/-- A range has `n` values before its end, and the next one is not before the end. -/
structure RangeLength (first stop step : Int) (n : Nat) : Prop where
  before : ∀ k < n, Before step (first + k * step) stop
  ends : ¬ Before step (first + n * step) stop

/-- A step that is not zero leads to the end of every range. -/
theorem exists_rangeLength (first stop : Int) (moves : step ≠ 0) :
    ∃ n, RangeLength first stop step n := by
  have leaves : ∃ n : Nat, ¬ Before step (first + n * step) stop := by
    refine ⟨(stop - first).natAbs, ?_⟩
    unfold Before
    split
    · have : ((stop - first).natAbs : Int) * 1 ≤ (stop - first).natAbs * step :=
        Int.mul_le_mul_of_nonneg_left (by omega) (by omega)
      omega
    · have : ((stop - first).natAbs : Int) * step ≤ (stop - first).natAbs * (-1) :=
        Int.mul_le_mul_of_nonneg_left (by omega) (by omega)
      omega
  exact ⟨Nat.find leaves, fun k less => not_not.mp (Nat.find_min leaves less), Nat.find_spec leaves⟩

/-- A range has one length. -/
theorem RangeLength.unique {m : Nat} (length : RangeLength first stop step n)
    (other : RangeLength first stop step m) : n = m := by
  rcases Nat.lt_trichotomy n m with less | same | more
  · exact absurd (other.before n less) length.ends
  · exact same
  · exact absurd (length.before m more) other.ends

/-- All values of a range can be printed. -/
def Printable (first step : Int) (n : Nat) : Prop :=
  ∀ k < n, (first + k * step).natAbs < pow10 Decimal.digitLimit

/-- The values of a range are no larger than its bounds. -/
theorem RangeLength.printable (length : RangeLength first stop step n)
    (start : first.natAbs < pow10 Decimal.digitLimit) (finish : stop.natAbs < pow10 Decimal.digitLimit) :
    Printable first step n := by
  intro k less
  have before := length.before k less
  unfold Before at before
  split at before
  · have : 0 ≤ (k : Int) * step := Int.mul_nonneg (by omega) (by omega)
    omega
  · have : (k : Int) * step ≤ 0 := Int.mul_nonpos_of_nonneg_of_nonpos (by omega) (by omega)
    omega

theorem value_succ (first step : Int) (k : Nat) :
    first + (k + 1 : Nat) * step = first + step + k * step := by
  rw [Int.natCast_add]
  ring

theorem Printable.head (printable : Printable first step (n + 1)) :
    first.natAbs < pow10 Decimal.digitLimit := by
  simpa using printable 0 (Nat.succ_pos n)

theorem Printable.tail (printable : Printable first step (n + 1)) :
    Printable (first + step) step n := by
  intro k less
  rw [← value_succ]
  exact printable (k + 1) (by omega)

/-- The lines that the values of a range are printed in. -/
def rangeLines (first step : Int) (n : Nat) : List String :=
  (List.range n).map fun k : Nat => (first + k * step).repr

theorem rangeLines_succ (first step : Int) (n : Nat) :
    rangeLines first step (n + 1) = first.repr :: rangeLines (first + step) step n := by
  unfold rangeLines
  rw [List.range_succ_eq_map, List.map_cons, List.map_map]
  congr 1
  · simp
  · refine List.map_congr_left fun k _ => ?_
    simp only [Function.comp_apply, Nat.succ_eq_add_one, value_succ]

/-- Behind its first value, a range is one value shorter. -/
theorem RangeLength.tail (length : RangeLength first stop step (n + 1)) :
    RangeLength (first + step) stop step n := by
  refine ⟨fun k less => ?_, ?_⟩
  · rw [← value_succ]
    exact length.before (k + 1) (by omega)
  · rw [← value_succ]
    exact length.ends

theorem RangeLength.head (length : RangeLength first stop step (n + 1)) :
    Before step first stop := by
  simpa using length.before 0 (Nat.succ_pos n)

end Ranges

section Values

variable {heap : Heap}

theorem lt_int (a b : Int) : Number.lt (.int a) (.int b) = decide (a < b) := by
  rw [Bool.eq_iff_iff, decide_eq_true_eq]
  simp only [Number.lt, Number.compare?, compare, compareOfLessAndEq]
  split
  · simpa
  · split <;> simp_all

/-- A value is compared with the end of a range in the direction of the step. -/
theorem compare_int (heap : Heap) (step v stop : Int) :
    Value.binary (if Number.lt (.int 0) (.int step) then .lt else .gt) heap (.int v) (.int stop) =
      .ok (.bool (decide (Before step v stop))) := by
  rw [lt_int]
  by_cases up : 0 < step
  · have upward : Before step v stop ↔ v < stop := by rw [Before, if_pos up]
    rw [if_pos (decide_eq_true up), decide_eq_decide.mpr upward, ← lt_int]
    rfl
  · have downward : Before step v stop ↔ stop < v := by rw [Before, if_neg up]
    rw [if_neg (by simpa using up), decide_eq_decide.mpr downward, ← lt_int]
    rfl

theorem checkRange_int {a b s : Int} (moves : s ≠ 0) :
    Value.checkRange (.int a) (.int b) (.int s) = .ok () := by
  have other : Number.isZero (.int s) = false := by
    simp [Number.isZero, Number.eq, Number.compare?, moves]
  show (if Number.isZero (.int s) then _ else _) = _
  rw [other, if_neg (by decide)]

theorem line_int {v : Int} (small : v.natAbs < pow10 Decimal.digitLimit) :
    Value.line heap [.int v] = .ok v.repr := by
  have text : (Number.int v).text? = some v.repr := by
    rw [Number.text?, Number.intText?, if_pos small]
  have shown : Value.display heap (.int v) = .ok v.repr := by
    rw [Value.display, Value.int, Value.format, Value.numberText, text]
  unfold Value.line
  rw [List.mapM_cons, shown]
  rfl

/-- An integer is printed, unless the host has a function of that name. -/
theorem Engine.call_print {engine : Engine} (free : engine.host.find? (.text "print") = none) {v : Int}
    (small : v.natAbs < pow10 Decimal.digitLimit) :
    engine.call (.text "print") [.int v] =
      (.ok .null, { engine with world := engine.world.print v.repr }) := by
  unfold Engine.call
  rw [free]
  exact call_print_line rfl (line_int small)

end Values

/-- The statement that prints a variable. -/
def printing (pos call arg : Pos) (var : String) : Stmt :=
  .expr pos (.call call (.scalar (.text "print")) [.var arg (.scalar (.text var))])

/-- An integer that an expression stands for: a literal, one behind a minus sign, or a variable that
holds the integer. -/
inductive Denotes (var : Name → Option Value) : Expr → Int → Prop where
  | literal (pos : Pos) (n : Int) : Denotes var (.literal pos .number (.scalar (.number (.int n)))) n
  | negative (pos inner : Pos) (n : Int) :
      Denotes var (.unary pos .neg (.literal inner .number (.scalar (.number (.int n))))) (-n)
  | held (pos : Pos) {name : Name} {n : Int} : var name = some (.int n) →
      Denotes var (.var pos (.scalar name)) n

theorem Denotes.known {var : Name → Option Value} {e : Expr} {n : Int} {v : Value} (given : Denotes var e n)
    (of : RangeStep.of (some e) = .known v) : v = .int n := by
  cases given <;> cases of <;> rfl

section Rounds

variable {σ : Type}

/-- A number of rounds, one after the other: each begins behind the one before, and ends. -/
inductive Laps (begins ends : σ → σ → Prop) : Nat → σ → σ → Prop where
  | none (s : σ) : Laps begins ends 0 s s
  | more {k : Nat} {s t b e : σ} : Laps begins ends k s t → begins t b → ends b e →
      Laps begins ends (k + 1) s e

variable {step : σ → Driven StepReport × σ} {along : σ → Prop} {s t u : σ}

/-- Steps as long as something holds, at most so many. -/
def stepsAlong (step : σ → Driven StepReport × σ) (along : σ → Bool) : Nat → σ → Option σ
  | 0, _ => none
  | fuel + 1, s =>
    if along s then
      match step s with
      | (.ok report, next) => if report.done then none else stepsAlong step along fuel next
      | (.error _, _) => none
    else some s

theorem travels_of_stepsAlong {along : σ → Bool} {fuel : Nat} (led : stepsAlong step along fuel s = some t) :
    Travels step (fun s => along s = true) s t ∧ along t = false := by
  induction fuel generalizing s with
  | zero => cases led
  | succ fuel ih =>
    rw [stepsAlong] at led
    by_cases holds : along s = true
    · rw [if_pos holds] at led
      split at led
      next report next stepped =>
        by_cases done : report.done = true
        · rw [if_pos done] at led
          cases led
        · rw [if_neg done] at led
          exact ⟨.on holds stepped (Bool.eq_false_iff.mpr done) (ih led).1, (ih led).2⟩
      next => cases led
    · rw [if_neg holds] at led
      cases led
      exact ⟨.here _, Bool.eq_false_iff.mpr holds⟩

/-- Rounds follow one another as long as each of them begins and ends, and something is kept up. -/
theorem exists_laps {begins ends : σ → σ → Prop} {n : Nat} {kept : Nat → σ → Prop} (start : kept 0 s)
    (round : ∀ k t, k < n → Laps begins ends k s t → kept k t →
      ∃ b e, begins t b ∧ ends b e ∧ kept (k + 1) e) :
    ∃ t, Laps begins ends n s t ∧ kept n t := by
  induction n with
  | zero => exact ⟨s, .none s, start⟩
  | succ n ih =>
    obtain ⟨t, laps, holds⟩ := ih fun k t less => round k t (Nat.lt_succ_of_lt less)
    obtain ⟨b, e, begins, ends, holds⟩ := round n t (Nat.lt_succ_self n) laps holds
    exact ⟨e, .more laps begins ends, holds⟩

end Rounds

section Places

/-- A statement stands in a block, at any depth. -/
inductive Stmt.Within (s : Stmt) : List Stmt → Prop where
  | here (ss : List Stmt) : Within s (s :: ss)
  | later {t : Stmt} {ss : List Stmt} : Within s ss → Within s (t :: ss)
  | branch {pos : Pos} {test : Expr} {body : List Stmt} {elifs : List Elif}
      {otherwise : Option (List Stmt)} {ss : List Stmt} :
      Within s body → Within s (.branch pos test body elifs otherwise :: ss)
  | elif {pos : Pos} {test : Expr} {body : List Stmt} {elifs : List Elif}
      {otherwise : Option (List Stmt)} {e : Elif} {ss : List Stmt} :
      e ∈ elifs → Within s e.body → Within s (.branch pos test body elifs otherwise :: ss)
  | otherwise {pos : Pos} {test : Expr} {body last : List Stmt} {elifs : List Elif}
      {ss : List Stmt} :
      Within s last → Within s (.branch pos test body elifs (some last) :: ss)
  | loopTimes {pos : Pos} {count : Expr} {body ss : List Stmt} :
      Within s body → Within s (.loopTimes pos count body :: ss)
  | loopWhile {pos : Pos} {test : Expr} {body ss : List Stmt} :
      Within s body → Within s (.loopWhile pos test body :: ss)
  | loopRange {pos : Pos} {var : Constant} {first last : Expr} {step : Option Expr}
      {body ss : List Stmt} :
      Within s body → Within s (.loopRange pos var first last step body :: ss)
  | loopEach {pos : Pos} {var : Constant} {items : Expr} {body ss : List Stmt} :
      Within s body → Within s (.loopEach pos var items body :: ss)

/-- A statement stands in the main body of a program, or in one of its functions or methods. -/
def Program.Has (program : Program) (s : Stmt) : Prop :=
  s.Within program.main ∨ ∃ f ∈ program.bodies, s.Within f.body

/-- The code of a statement stands from an address on, up to another one. Its hidden variables are
numbered from `number` on. -/
def Code.Stands (code : Code) (scope : Scope) (s : Stmt) (number base next : Nat) : Prop :=
  ∃ loop number', StmtAt code scope loop number base s number' next

variable {code : Code} {scope : Scope} {s : Stmt}

theorem elifsAt_mem {loop : Option LoopTargets} {finish : Nat} {lastArm : Bool}
    {number base number' next : Nat} {es : List Elif} {e : Elif} (member : e ∈ es)
    (placed : ElifsAt code scope loop finish lastArm number base es number' next) :
    ∃ first start second behind, StmtsAt code scope loop first start e.body second behind := by
  induction es generalizing number base with
  | nil => cases member
  | cons _ es ih =>
    cases placed with | cons _ _ body _ rest =>
    rcases List.mem_cons.mp member with rfl | later
    · exact ⟨_, _, _, _, body⟩
    · exact ih later rest

/-- What stands in a block has its code in that of the block. -/
theorem stands_within {ss : List Stmt} (within : s.Within ss) {loop : Option LoopTargets}
    {number base number' next : Nat} (placed : StmtsAt code scope loop number base ss number' next) :
    ∃ number base next, code.Stands scope s number base next := by
  induction within generalizing loop number base number' next with
  | here =>
    cases placed with | cons first _ =>
    exact ⟨_, _, _, _, _, first⟩
  | later _ ih =>
    cases placed with | cons _ rest =>
    exact ih rest
  | branch _ ih =>
    cases placed with | cons first _ =>
    cases first with | branch _ _ body _ _ _ =>
    exact ih body
  | elif member _ ih =>
    cases placed with | cons first _ =>
    cases first with | branch _ _ _ _ elifs _ =>
    obtain ⟨_, _, _, _, body⟩ := elifsAt_mem member elifs
    exact ih body
  | otherwise _ ih =>
    cases placed with | cons first _ =>
    cases first with | branch _ _ _ _ _ last =>
    cases last with | present body =>
    exact ih body
  | loopTimes _ ih =>
    cases placed with | cons first _ =>
    cases first with | loopTimes _ _ body _ =>
    exact ih body
  | loopWhile _ ih =>
    cases placed with | cons first _ =>
    cases first with | loopWhile _ _ body _ =>
    exact ih body
  | loopRange _ ih =>
    cases placed with | cons first _ =>
    cases first with | loopRange _ _ body _ =>
    exact ih body
  | loopEach _ ih =>
    cases placed with | cons first _ =>
    cases first with | loopEach _ _ body _ =>
    exact ih body

theorem Stmt.everyIn_of_elif {P : Expr → Prop} {Q : Stmt → Prop} {es : List Elif} {e : Elif}
    (member : e ∈ es) (every : Stmt.EveryElif P Q es) : Stmt.EveryIn P Q e.body := by
  induction es with
  | nil => cases member
  | cons first es ih =>
    rcases List.mem_cons.mp member with rfl | later
    · obtain ⟨_, _, _⟩ := e
      exact every.1.2
    · exact ih later every.2

/-- What holds of every part of a block holds of what stands in it. -/
theorem Stmt.Within.every {P : Expr → Prop} {Q : Stmt → Prop} {ss : List Stmt}
    (within : s.Within ss) (every : Stmt.EveryIn P Q ss) : s.Every P Q := by
  induction within with
  | here => exact every.1
  | later _ ih => exact ih every.2
  | branch _ ih => exact ih every.1.2.2.1
  | elif member _ ih => exact ih (everyIn_of_elif member every.1.2.2.2.1)
  | otherwise _ ih => exact ih every.1.2.2.2.2
  | loopTimes _ ih => exact ih every.1.2.2
  | loopWhile _ ih => exact ih every.1.2.2
  | loopRange _ ih => exact ih every.1.2.2.2.2
  | loopEach _ ih => exact ih every.1.2.2

/-- In front of a last expression stands all else that stands in a block. -/
theorem Stmt.Within.init {init : List Stmt} {pos : Pos} {value : Expr}
    (within : s.Within (init ++ [.expr pos value])) (other : s ≠ .expr pos value) :
    s.Within init := by
  induction init with
  | nil =>
    cases within with
    | here => exact absurd rfl other
    | later none => cases none
  | cons t init ih =>
    cases within with
    | here => exact .here init
    | later rest => exact .later (ih rest)
    | branch inside => exact .branch inside
    | elif member inside => exact .elif member inside
    | otherwise inside => exact .otherwise inside
    | loopTimes inside => exact .loopTimes inside
    | loopWhile inside => exact .loopWhile inside
    | loopRange inside => exact .loopRange inside
    | loopEach inside => exact .loopEach inside

namespace Program

variable {program : Program} {keepResult : Bool} {finish : Nat}

theorem exists_entry {base : Nat} {fs : List Func} {f : Func} (member : f ∈ fs) :
    ∃ entry, (entry, f) ∈ Code.entriesFrom base fs := by
  induction fs generalizing base with
  | nil => cases member
  | cons first fs ih =>
    rcases List.mem_cons.mp member with rfl | later
    · exact ⟨base, .head _⟩
    · obtain ⟨entry, found⟩ := @ih (base + Code.funcLength first) later
      exact ⟨entry, .tail _ found⟩

/-- Whatever stands in a program has its code in that of the program, but for an expression whose
value is kept. -/
theorem LaidOut.stands (laid : program.LaidOut scope keepResult code finish) (has : program.Has s)
    (other : ∀ pos value, s ≠ .expr pos value) :
    ∃ number base next, code.Stands scope s number base next := by
  rcases has with inMain | ⟨f, member, inside⟩
  · cases laid.main with
    | plain _ body _ => exact stands_within inMain body
    | kept _ whole body _ _ =>
      rw [whole] at inMain
      exact stands_within (inMain.init (other _ _)) body
  · obtain ⟨entry, found⟩ := exists_entry member
    obtain ⟨_, body, -, -, -⟩ := laid.placed _ found
    exact stands_within inside body

theorem shaped_of_has (shaped : program.Shaped) (has : program.Has s) :
    s.Every Expr.Shaped Stmt.Shaped := by
  rcases has with inMain | ⟨f, member, inside⟩
  · exact inMain.every (Every.main shaped)
  · exact inside.every (bodies_shaped shaped member)

end Program

end Places

end Stepwise
