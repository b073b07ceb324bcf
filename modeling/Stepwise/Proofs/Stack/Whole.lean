import Stepwise.Proofs.Code.Program
import Stepwise.Proofs.Stack.Balance

/-!
Heights of a whole program. Its code is balanced: the main body starts with an empty stack, a
function above its arguments, and the halt leaves what `resultHeight` says.
-/
namespace Stepwise

/-- Number of values that stay on the stack at the halt behind a main body. -/
def resultHeight (keepResult : Bool) (body : List Stmt) : Nat :=
  match keepResult, body.getLast? with
  | true, some (.expr _ _) => 1
  | _, _ => 0

def mainHeights (keepResult : Bool) (body : List Stmt) : List Nat :=
  match keepResult, body.getLast? with
  | true, some (.expr _ value) => stmtsHeights 0 body.dropLast ++ exprHeights 0 value ++ [1]
  | _, _ => stmtsHeights 0 body ++ [0]

namespace Program

def heights (program : Program) (keepResult : Bool) : List Nat :=
  List.replicate program.classes.length 0 ++ mainHeights keepResult program.main ++
    program.bodies.flatMap funcHeights

/-- The height of the stack above the base of the innermost call, before the instruction at an
address. -/
def heightAt (program : Program) (keepResult : Bool) (a : Nat) : Nat :=
  (program.heights keepResult).getD a 0

theorem marks_heights (program : Program) (keepResult : Bool) :
    Code.Marks (program.heightAt keepResult) 0 (program.heights keepResult) := by
  intro k h found
  simp [heightAt, List.getD, found]

theorem bodies_shaped {program : Program} (shaped : program.Shaped) {f : Func}
    (member : f ∈ program.bodies) : Stmt.EveryIn Expr.Shaped Stmt.Shaped f.body :=
  Every.body shaped member

end Program

namespace Code

variable {code : Code} {scope : Scope} {H : Nat → Nat}

theorem mem_of_mem_entriesFrom {base : Nat} {fs : List Func} {entry : Nat × Func}
    (member : entry ∈ entriesFrom base fs) : entry.2 ∈ fs := by
  induction fs generalizing base with
  | nil => cases member
  | cons f fs ih =>
    rcases List.mem_cons.mp member with rfl | later
    · exact List.mem_cons_self
    · exact List.mem_cons_of_mem _ (ih later)

theorem le_of_mem_entriesFrom {base : Nat} {fs : List Func} {entry : Nat × Func}
    (member : entry ∈ entriesFrom base fs) : base ≤ entry.1 := by
  induction fs generalizing base with
  | nil => cases member
  | cons f fs ih =>
    rcases List.mem_cons.mp member with rfl | later
    · exact Nat.le_refl _
    · exact Nat.le_trans (Nat.le_add_right ..) (ih later)

theorem MainAt.halts {keepResult : Bool} {base finish : Nat} {body : List Stmt}
    (placed : MainAt code scope keepResult base body finish) :
    code.Has finish ⟨.halt, .null, none⟩ := by
  cases placed with
  | plain _ _ halt => exact halt
  | kept _ _ _ _ halt => exact halt

theorem funcHeights_length {base : Nat} {f : Func} (placed : FuncAt code scope base f) :
    (funcHeights f).length = funcLength f := by
  obtain ⟨_, body, same, -, -⟩ := placed
  have next := (@stmts_fits code scope (fun _ => 0) (fun _ => True) f.body 0 _ _ _ _ _ body).1
  simp only [funcHeights, funcLength, List.length_append, List.length_map, List.length_range,
    List.length_cons, List.length_nil]
  omega

theorem marks_entries {base : Nat} {fs : List Func}
    (placed : ∀ entry ∈ entriesFrom base fs, FuncAt code scope entry.1 entry.2)
    (marks : Marks H base (fs.flatMap funcHeights)) :
    ∀ entry ∈ entriesFrom base fs, Marks H entry.1 (funcHeights entry.2) := by
  induction fs generalizing base with
  | nil => exact fun _ member => nomatch member
  | cons f fs ih =>
    simp only [entriesFrom, List.forall_mem_cons] at placed ⊢
    rw [List.flatMap_cons, marks_append, funcHeights_length placed.1] at marks
    exact ⟨marks.1, ih placed.2 marks.2⟩

/-- The addresses of a function. -/
def InFunc (base : Nat) (f : Func) (a : Nat) : Prop := base ≤ a ∧ a < base + funcLength f

theorem func_fits {base : Nat} {f : Func} {inside : Nat → Prop}
    (placed : FuncAt code scope base f) (shaped : Stmt.EveryIn Expr.Shaped Stmt.Shaped f.body)
    (marks : Marks H base (funcHeights f)) (within : ∀ a, InFunc base f a → inside a) :
    H base = f.params.length ∧ ∀ a, InFunc base f a → code.Fits H inside a := by
  obtain ⟨stores, body, same, push, ret⟩ := placed
  have within : Within inside base (base + f.params.length + stmtsLength f.body + 1) :=
    fun a above below => within a ⟨above, by rw [funcLength]; omega⟩
  simp only [funcHeights, List.append_assoc, marks_append, marks_cons, List.length_map,
    List.length_range] at marks
  obtain ⟨marksStores, marksBody, m1, m2, -⟩ := marks
  obtain ⟨next, bodyFits⟩ := @stmts_fits code scope H inside f.body 0 _ _ _ _ _ body
  rw [← next] at m1 m2
  subst same
  have bodyFits := bodyFits shaped marksBody m1 (by intro targets none; cases none) within.narrow
  have height : ∀ k, k ≤ f.params.length → H (base + k) = f.params.length - k := by
    intro k bound
    rcases Nat.lt_or_ge k f.params.length with inStores | atBody
    · exact marksStores k _ (by simp [inStores])
    · obtain rfl : k = f.params.length := by omega
      rw [bodyFits.1, Nat.sub_self]
  refine ⟨height 0 (Nat.zero_le _), ?_⟩
  have storesFit : code.FitsFrom H inside base (base + f.params.length) := by
    intro a above below
    obtain ⟨k, rfl⟩ := Nat.exists_eq_add_of_le above
    have bound : k < f.params.length := by omega
    have has := stores k _ (List.getElem?_eq_getElem (by simpa using bound))
    rw [List.getElem_map] at has
    have balance : f.params.length - (k + 1) + 1 = f.params.length - k + 0 := by omega
    exact .next has ⟨rfl, rfl⟩ (height k (by omega)) (height (k + 1) bound) (within.at (by omega)
      (by omega)) (fun _ leads => leads) (by omega) balance
  intro a here
  have whole := ((storesFit.append bodyFits.2).snoc (.next push ⟨rfl, rfl⟩ m1 m2 within.at)).snoc
    (.ret ret (by omega))
  exact whole a here.1 (by have := here.2; rw [funcLength] at this; omega)

theorem mainHeights_plain {keepResult : Bool} {body : List Stmt}
    (plain : keepResult = true → ∀ pos value, body.getLast? ≠ some (.expr pos value)) :
    mainHeights keepResult body = stmtsHeights 0 body ++ [0] ∧
      resultHeight keepResult body = 0 := by
  constructor
  · unfold mainHeights
    split
    next pos value last => exact absurd last (plain rfl pos value)
    next => rfl
  · unfold resultHeight
    split
    next pos value last => exact absurd last (plain rfl pos value)
    next => rfl

theorem mainHeights_kept {init : List Stmt} {pos : Pos} {value : Expr} :
    mainHeights true (init ++ [.expr pos value]) =
        stmtsHeights 0 init ++ (exprHeights 0 value ++ [1]) ∧
      resultHeight true (init ++ [.expr pos value]) = 1 := by
  simp [mainHeights, resultHeight]

theorem main_fits {keepResult : Bool} {base finish : Nat} {body : List Stmt} {inside : Nat → Prop}
    (placed : MainAt code scope keepResult base body finish)
    (shaped : Stmt.EveryIn Expr.Shaped Stmt.Shaped body) :
    finish + 1 = base + (mainHeights keepResult body).length ∧
      (Marks H base (mainHeights keepResult body) → Within inside base finish →
        H base = 0 ∧ H finish = resultHeight keepResult body ∧
          code.FitsFrom H inside base finish) := by
  cases placed with
  | plain last inner _ =>
    obtain ⟨heights, result⟩ := mainHeights_plain last
    obtain ⟨rfl, fits⟩ := @stmts_fits code scope H inside body 0 _ _ _ _ _ inner
    rw [heights, result]
    refine ⟨by simp [Nat.add_assoc], fun marks within => ?_⟩
    simp only [marks_append, marks_cons] at marks
    have fits := fits shaped marks.1 marks.2.1 (by intro targets none; cases none) within
    exact ⟨fits.1, marks.2.1, fits.2⟩
  | @kept init pos value number mid keep whole inner last _ =>
    subst keep whole
    obtain ⟨heights, result⟩ := @mainHeights_kept init pos value
    obtain ⟨rfl, fits⟩ := @stmts_fits code scope H inside init 0 _ _ _ _ _ inner
    obtain rfl := exprAt_next value 0 last
    rw [heights, result]
    refine ⟨by simp [Nat.add_assoc], fun marks within => ?_⟩
    simp only [marks_append, marks_cons] at marks
    have shapedParts := (Stmt.everyIn_iff ..).mp shaped
    have lastFits := expr_fits value last (shapedParts (.expr pos value) (by simp)).2 marks.2.1
      marks.2.2.1 within.narrow
    have fits := fits ((Stmt.everyIn_iff ..).mpr fun s member => shapedParts s (by simp [member]))
      marks.1 lastFits.1 (by intro targets none; cases none) within.narrow
    exact ⟨fits.1, marks.2.2.1, fits.2.append lastFits.2⟩

end Code

namespace Program

/-- The addresses of the main body, whose halt stands at `finish`, or of the functions behind it,
where every call under way stands. -/
def Region (program : Program) (finish : Nat) (called : Bool) (a : Nat) : Prop :=
  if called then
    ∃ entry ∈ Code.entriesFrom (finish + 1) program.bodies, Code.InFunc entry.1 entry.2 a
  else a ≤ finish

/-- Code whose instructions all fit the heights `H`. -/
structure Balanced (program : Program) (code : Code) (H : Nat → Nat) (finish result : Nat) :
    Prop where
  start : H 0 = 0
  finished : H finish = result
  halts : code.Has finish ⟨.halt, .null, none⟩
  fits : ∀ called a, program.Region finish called a → a ≠ finish →
    code.Fits H (program.Region finish called) a
  apart : ∀ entry ∈ Code.entriesFrom (finish + 1) program.bodies, ∀ a,
    Code.InFunc entry.1 entry.2 a → code.Fits H (Code.InFunc entry.1 entry.2) a
  behind : ∀ a, program.Region finish true a → finish < a
  entered : ∀ entry ∈ Code.entriesFrom (finish + 1) program.bodies,
    program.Region finish true entry.1 ∧ H entry.1 = entry.2.params.length

theorem balanced_of_laidOut {program : Program} (shaped : program.Shaped) {scope : Scope}
    {keepResult : Bool} {code : Code} {finish : Nat}
    (laid : LaidOut program scope keepResult code finish) :
    Balanced program code (program.heightAt keepResult) finish
      (resultHeight keepResult program.main) := by
  have mainShaped : Stmt.EveryIn Expr.Shaped Stmt.Shaped program.main := Every.main shaped
  obtain ⟨length, mainFits⟩ := @Code.main_fits code scope (program.heightAt keepResult) keepResult
    _ finish _ (program.Region finish false) laid.main mainShaped
  have marks := marks_heights program keepResult
  simp only [heights, List.append_assoc, Code.marks_append, List.length_replicate, Nat.zero_add,
    ← length] at marks
  obtain ⟨marksClasses, marksMain, marksBodies⟩ := marks
  have within : Code.Within (program.Region finish false) 0 finish := fun a _ below => below
  obtain ⟨mainStart, finished, mainFits⟩ := mainFits marksMain within.narrow
  have zero : ∀ k, k ≤ program.classes.length → program.heightAt keepResult k = 0 := by
    intro k bound
    rcases Nat.lt_or_ge k program.classes.length with early | atMain
    · have marked := marksClasses k 0 (by simp [early])
      rwa [Nat.zero_add] at marked
    · obtain rfl : k = program.classes.length := by omega
      exact mainStart
  have marked := Code.marks_entries laid.placed marksBodies
  have functions := fun entry member => @Code.func_fits code scope _ _ _
    (Code.InFunc entry.1 entry.2) (laid.placed entry member)
    (bodies_shaped shaped (Code.mem_of_mem_entriesFrom member)) (marked entry member)
    fun a here => here
  refine ⟨zero 0 (Nat.zero_le _), finished, laid.main.halts, ?_,
    fun entry member => (functions entry member).2, ?_, ?_⟩
  · rintro (_ | _) a inside notLast
    · have below : a ≤ finish := inside
      rcases Nat.lt_or_ge a program.classes.length with early | inMain
      · have has := laid.registrations a _ (List.getElem?_eq_getElem (by simpa using early))
        rw [List.getElem_map, Nat.zero_add] at has
        exact .next has ⟨rfl, rfl⟩ (zero a (by omega)) (zero (a + 1) early)
          (within.at (Nat.zero_le _) (by omega))
      · exact mainFits a inMain (by omega)
    · obtain ⟨entry, member, here⟩ := inside
      exact ((functions entry member).2 a here).mono fun b within => ⟨entry, member, within⟩
  · rintro a ⟨entry, member, here⟩
    exact Nat.lt_of_lt_of_le (Code.le_of_mem_entriesFrom member) here.1
  · intro entry member
    exact ⟨⟨entry, member, Nat.le_refl _, by rw [Code.funcLength]; omega⟩,
      (functions entry member).1⟩

end Program

end Stepwise
