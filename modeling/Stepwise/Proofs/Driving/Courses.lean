import Mathlib.Data.List.Basic
import Stepwise.Engine

/-!
Driving something step by step, until a step stops the drive or fails in the host. A drive has no bound
of its own: it is a `Course`. A bounded one takes the steps of its `trail`, and as long as steps run
out one by one the bound does not matter (`exists_course`). Steps behind which the program is still
under way are travels; a drive to the end can be followed from wherever they lead
(`Travels.gatherFor`).
-/
namespace Stepwise

variable {σ : Type}

section

variable (step : σ → Driven StepReport × σ) (stops : σ → StepReport → σ → Bool)

/-- A drive: the states before the steps behind which it goes on, and the state before the step that
stops it or fails in the host. -/
inductive Course : σ → List σ → σ → Prop where
  | last {s : σ} : (∀ report next, step s = (.ok report, next) → stops s report next = true) →
      Course s [] s
  | more {s next last : σ} {report : StepReport} {before : List σ} :
      step s = (.ok report, next) → stops s report next = false → Course next before last →
      Course s (s :: before) last

/-- The states in which a drive takes its steps, at most `fuel` of them. -/
def trail : Nat → σ → List σ
  | 0, _ => []
  | fuel + 1, s =>
    s :: match step s with
      | (.ok report, next) => if stops s report next then [] else trail fuel next
      | (.error _, _) => []

/-- Steps run out: each one that does not end the program leaves one less. -/
structure Dwindles (left : σ → Nat) : Prop where
  pos : ∀ s, 0 < left s
  less : ∀ s report next, step s = (.ok report, next) → report.done = false →
    left s = left next + 1

end

/-- A drive that stops when the program is over, if not before. -/
def Sane (stops : σ → StepReport → σ → Bool) : Prop :=
  ∀ s report next, report.done = true → stops s report next = true

variable {step : σ → Driven StepReport × σ} {stops : σ → StepReport → σ → Bool} {left : σ → Nat}
  {s last : σ} {fuel : Nat} {before : List σ}

theorem Sane.undone (sane : Sane stops) {report : StepReport} {next : σ}
    (going : stops s report next = false) : report.done = false := by
  cases done : report.done with
  | true => exact (sane s report next done).symm.trans going
  | false => rfl

/-- A drive comes to its last step before the steps run out. -/
theorem exists_course (dwindles : Dwindles step left) (sane : Sane stops) (enough : left s ≤ fuel) :
    ∃ before last, trail step stops fuel s = before ++ [last] ∧ before.length < left s ∧
      Course step stops s before last := by
  induction fuel generalizing s with
  | zero => exact absurd (dwindles.pos s) (by omega)
  | succ fuel ih =>
    rcases stepped : step s with ⟨failure | report, next⟩
    · refine ⟨[], s, by rw [trail, stepped]; rfl, dwindles.pos s, .last ?_⟩
      exact fun report next answered => nomatch stepped.symm.trans answered
    · cases stop : stops s report next with
      | true =>
        refine ⟨[], s, by simp [trail, stepped, stop], dwindles.pos s, .last ?_⟩
        intro report' next' answered
        cases stepped.symm.trans answered
        exact stop
      | false =>
        have less := dwindles.less s report next stepped (sane.undone stop)
        obtain ⟨before, last, steps, short, course⟩ := ih (s := next) (by omega)
        refine ⟨s :: before, last, ?_, ?_, .more stepped stop course⟩
        · simp [trail, stepped, stop, steps]
        · rw [List.length_cons]
          omega

/-- The steps behind which a drive goes on. -/
theorem Course.mem (course : Course step stops s before last) {k : σ} (member : k ∈ before) :
    ∃ report next, step k = (.ok report, next) ∧ stops k report next = false := by
  induction course with
  | last => cases member
  | more stepped going _ ih =>
    rcases List.mem_cons.mp member with rfl | member
    · exact ⟨_, _, stepped, going⟩
    · exact ih member

/-- The last step of a drive stops it, unless it fails in the host. -/
theorem Course.stop (course : Course step stops s before last) {report : StepReport} {next : σ}
    (stepped : step last = (.ok report, next)) : stops last report next = true := by
  induction course with
  | last stop => exact stop report next stepped
  | more _ _ _ ih => exact ih stepped

/-- A drive that comes to an end without failing in the host had an answer to every step. -/
theorem Course.answered (course : Course step stops s before last)
    (ends : ∃ report, (step last).1 = .ok report) {k : σ} (member : k ∈ before ++ [last]) :
    ∃ report, (step k).1 = .ok report := by
  rw [List.mem_append, List.mem_singleton] at member
  rcases member with earlier | rfl
  · obtain ⟨report, next, stepped, -⟩ := course.mem earlier
    exact ⟨report, congrArg Prod.fst stepped⟩
  · exact ends

/-- What the steps of a drive put in front of a record stands there behind the drive. -/
theorem Course.record {α : Type} (kept : σ → List α) {made : σ → List α}
    (each : ∀ s, kept (step s).2 = (made s).reverse ++ kept s)
    (course : Course step stops s before last) :
    kept (step last).2 = ((before ++ [last]).flatMap made).reverse ++ kept s := by
  induction course with
  | last => simpa using each _
  | @more s next last report before stepped _ _ ih =>
    have first := each s
    rw [stepped] at first
    rw [ih, first, List.cons_append, List.flatMap_cons, List.reverse_append, List.append_assoc]

/-- What every step keeps holds wherever a drive takes a step. -/
theorem Course.keeps {P : σ → Prop} (kept : ∀ s, P s → P (step s).2)
    (course : Course step stops s before last) (holds : P s) :
    (∀ k ∈ before, P k) ∧ P last := by
  induction course with
  | last => exact ⟨fun _ member => (nomatch member), holds⟩
  | @more s next _ _ _ stepped _ _ ih =>
    have later : P next := by
      have stepped' := kept s holds
      rwa [stepped] at stepped'
    have ⟨all, ends⟩ := ih later
    refine ⟨fun k member => ?_, ends⟩
    rcases List.mem_cons.mp member with rfl | member
    · exact holds
    · exact all k member

/-- A run to the end stops when the program is over. -/
def atEnd (_ : σ) (report : StepReport) (_ : σ) : Bool := report.done

/-- A run that gives the host its turn stops behind a command as well, and when it is paused. -/
def atTurn (status : σ → Status) (_ : σ) (report : StepReport) (next : σ) : Bool :=
  report.done || report.acted || status next = .paused

theorem sane_atEnd : Sane (σ := σ) atEnd := fun _ _ _ done => done

theorem sane_atTurn (status : σ → Status) : Sane (atTurn status) :=
  fun _ _ _ done => by simp [atTurn, done]

variable (step stops) in
/-- Steps until one stops the drive, at most `fuel` times. -/
def driveFor : Nat → σ → Driven StepReport × σ
  | 0, s => (.ok .ended, s)
  | fuel + 1, s =>
    match step s with
    | (.error failure, next) => (.error failure, next)
    | (.ok report, next) => if stops s report next then (.ok report, next) else driveFor fuel next

theorem Course.driveFor (course : Course step stops s before last) (short : before.length < fuel) :
    driveFor step stops fuel s = step last := by
  induction course generalizing fuel with
  | @last s stop =>
    obtain ⟨fuel, rfl⟩ := Nat.exists_eq_add_of_lt short
    unfold Stepwise.driveFor
    rcases stepped : step s with ⟨failure | report, next⟩
    · rfl
    · exact if_pos (stop report next stepped)
  | more stepped going _ ih =>
    obtain ⟨fuel, rfl⟩ := Nat.exists_eq_add_of_lt short
    unfold Stepwise.driveFor
    rw [stepped]
    dsimp only
    rw [going, if_neg Bool.false_ne_true]
    exact ih (by rw [List.length_cons] at *; omega)

variable (step) in
/-- Steps until a step is done, at most `fuel` times, and collects the reports of the steps that
acted. -/
def gatherFor : Nat → List StepReport → σ → Driven (List StepReport) × σ
  | 0, acted, s => (.ok acted.reverse, s)
  | fuel + 1, acted, s =>
    match step s with
    | (.error failure, next) => (.error failure, next)
    | (.ok report, next) =>
      let acted := if report.acted then report :: acted else acted
      if report.done then (.ok acted.reverse, next) else gatherFor fuel acted next

variable (step) in
/-- The report of a step, if the step acted. -/
def actedReport? (s : σ) : Option StepReport :=
  match (step s).1 with
  | .ok report => if report.acted then some report else none
  | .error _ => none

theorem reverse_acted {report : StepReport} {next : σ} (stepped : step s = (.ok report, next))
    (acted : List StepReport) :
    (if report.acted then report :: acted else acted).reverse =
      acted.reverse ++ (actedReport? step s).toList := by
  unfold actedReport?
  rw [stepped]
  dsimp only
  split <;> simp

/-- What a run to the end answers, and where it leads. -/
theorem Course.gatherFor (course : Course step atEnd s before last) (short : before.length < fuel)
    (acted : List StepReport) :
    gatherFor step fuel acted s = ((step last).1.map fun _ =>
      acted.reverse ++ (before ++ [last]).filterMap (actedReport? step), (step last).2) := by
  induction course generalizing fuel acted with
  | @last s stop =>
    obtain ⟨fuel, rfl⟩ := Nat.exists_eq_add_of_lt short
    unfold Stepwise.gatherFor
    rcases stepped : step s with ⟨failure | report, next⟩
    · rfl
    · have done : report.done = true := stop report next stepped
      dsimp only
      rw [if_pos done, reverse_acted stepped]
      cases found : actedReport? step s <;> simp [found, Except.map]
  | @more s next last report before stepped going _ ih =>
    obtain ⟨fuel, rfl⟩ := Nat.exists_eq_add_of_lt short
    have undone : ¬ report.done = true := by simpa [atEnd] using going
    have room : before.length < (s :: before).length + fuel := by
      rw [List.length_cons]
      omega
    unfold Stepwise.gatherFor
    rw [stepped]
    dsimp only
    rw [if_neg undone, ih room, reverse_acted stepped, List.append_assoc, List.cons_append]
    cases found : actedReport? step s <;> simp [found]

/-- What the reports that a run to the end collects have to tell is told step by step. -/
theorem Course.gathered {α : Type} {tell : StepReport → α} {told : σ → Option α}
    (each : ∀ s report, (step s).1 = .ok report → (actedReport? step s).map tell = told s)
    (course : Course step atEnd s before last) {reports : List StepReport}
    (ended : ((step last).1.map fun _ => (before ++ [last]).filterMap (actedReport? step)) =
      .ok reports) : reports.map tell = (before ++ [last]).filterMap told := by
  have ends : ∃ report, (step last).1 = .ok report := by
    cases result : (step last).1 with
    | ok report => exact ⟨report, rfl⟩
    | error => simp [result, Except.map] at ended
  obtain ⟨report, answer⟩ := ends
  rw [answer] at ended
  obtain rfl := Except.ok.inj ended
  rw [List.map_filterMap]
  refine List.filterMap_congr fun k member => ?_
  obtain ⟨report, stepped⟩ := course.answered ⟨report, answer⟩ member
  exact each k report stepped

section Travels

variable {along : σ → Prop} {t u : σ}

/-- Steps behind which the program is still under way, taken where something holds. -/
inductive Travels (step : σ → Driven StepReport × σ) (along : σ → Prop) : σ → σ → Prop where
  | here (s : σ) : Travels step along s s
  | on {s next last : σ} {report : StepReport} : along s → step s = (.ok report, next) →
      report.done = false → Travels step along next last → Travels step along s last

theorem Travels.trans (first : Travels step along s t) (rest : Travels step along t u) :
    Travels step along s u := by
  induction first with
  | here => exact rest
  | on holds stepped going _ ih => exact .on holds stepped going (ih rest)

theorem Travels.mono {along' : σ → Prop} (travels : Travels step along s t)
    (wider : ∀ s, along s → along' s) : Travels step along' s t := by
  induction travels with
  | here => exact .here _
  | on holds stepped going _ ih => exact .on (wider _ holds) stepped going ih

/-- Steps lead to one place behind those where something holds. -/
theorem Travels.unique (first : Travels step along s t) (left : ¬ along t)
    (other : Travels step along s u) (left' : ¬ along u) : t = u := by
  induction first with
  | here =>
    cases other with
    | here => rfl
    | on holds => exact absurd holds left
  | on holds stepped _ _ ih =>
    cases other with
    | here => exact absurd holds left'
    | on _ stepped' _ rest =>
      cases stepped.symm.trans stepped'
      exact ih left rest

/-- A drive to the end can be followed from any state that it goes through. -/
theorem Travels.gatherFor (travels : Travels step along s t) (dwindles : Dwindles step left)
    (enough : left s ≤ fuel) (acted : List StepReport) : ∃ fuel' acted', left t ≤ fuel' ∧
      Stepwise.gatherFor step fuel acted s = Stepwise.gatherFor step fuel' acted' t := by
  induction travels generalizing fuel acted with
  | here => exact ⟨fuel, acted, enough, rfl⟩
  | @on s next last report _ stepped going _ ih =>
    have less := dwindles.less s report next stepped going
    obtain ⟨fuel, rfl⟩ : ∃ k, fuel = k + 1 := ⟨fuel - 1, by omega⟩
    have enough : left next ≤ fuel := by omega
    obtain ⟨fuel', acted', enough', same⟩ :=
      ih enough (if report.acted then report :: acted else acted)
    refine ⟨fuel', acted', enough', ?_⟩
    rw [← same, Stepwise.gatherFor, stepped]
    dsimp only
    rw [going, if_neg Bool.false_ne_true]

end Travels

end Stepwise
