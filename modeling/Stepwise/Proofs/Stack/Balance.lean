import Stepwise.Proofs.Code.Entries
import Stepwise.Proofs.Stack.Heights

/-!
Compiled code keeps the operand stack balanced. `Fits` compares the height at an instruction with
the heights at the instructions it may lead to; every instruction of a compiled program fits the
heights of its tree.
-/
namespace Stepwise

/-- How many values an instruction takes off the stack and how many it leaves there in their place.
A call counts as a whole, with its return; a jump has an address, and a halt has no place in the
middle of code. -/
def Instruction.Moves (i : Instruction) (taken given : Nat) : Prop :=
  match i.op with
  | .push | .load => taken = 0 ∧ given = 1
  | .pop | .store | .ret => taken = 1 ∧ given = 0
  | .jumpIf | .jumpIfNot => (taken = 1 ∧ given = 0) ∧ ∃ target : Int, i.operand = .int target
  | .dup => taken = 1 ∧ given = 2
  | .neg | .not | .repeatCount => taken = 1 ∧ given = 1
  | .jump => (taken = 0 ∧ given = 0) ∧ ∃ target : Int, i.operand = .int target
  | .nop | .classDef => taken = 0 ∧ given = 0
  | .rangeCheck => taken = 3 ∧ given = 3
  | .arraySet | .memberSet => taken = 3 ∧ given = 0
  | .slice => taken = 3 ∧ given = 1
  | .arrayCreate => i.operand = .int taken ∧ given = 1
  | .objectCreate => (∃ n : Nat, i.operand = .int n ∧ taken = 2 * n) ∧ given = 1
  | .call | .callUser | .new =>
    (∃ name : String, '.' ∉ name.toList ∧ i.operand = .text (callOperand name taken)) ∧ given = 1
  | .methodCall =>
    (∃ name : String, i.operand = .text (callOperand name taken)) ∧ 1 ≤ taken ∧ given = 1
  | .halt => False
  | _ => taken = 2 ∧ given = 1

/-- Whether an instruction may lead from one address to another within a call. -/
def Instruction.Leads (i : Instruction) (a : Nat) (b : Int) : Prop :=
  match i.op with
  | .jump => i.operand.weight? = some (.int b)
  | .jumpIf | .jumpIfNot => b = (a + 1 : Nat) ∨ i.operand.weight? = some (.int b)
  | .ret => False
  | _ => b = (a + 1 : Nat)

namespace Code

/-- All addresses from one up to another, both included. -/
def Within (inside : Nat → Prop) (lo hi : Nat) : Prop := ∀ a, lo ≤ a → a ≤ hi → inside a

theorem Within.at {inside : Nat → Prop} {lo hi a : Nat} (within : Within inside lo hi)
    (above : lo ≤ a := by clear * -; omega) (below : a ≤ hi := by clear * -; omega) : inside a :=
  within a above below

theorem Within.narrow {inside : Nat → Prop} {lo hi lo' hi' : Nat} (within : Within inside lo hi)
    (above : lo ≤ lo' := by clear * -; omega) (below : hi' ≤ hi := by clear * -; omega) :
    Within inside lo' hi' :=
  fun a lower upper => within a (Nat.le_trans above lower) (Nat.le_trans upper below)

/-- The instruction at an address fits the heights there and behind it. -/
def Fits (code : Code) (H : Nat → Nat) (inside : Nat → Prop) (a : Nat) : Prop :=
  ∃ i taken given, code.Has a i ∧ i.Moves taken given ∧ taken ≤ H a ∧
    ∀ b, i.Leads a b → ∃ b' : Nat, b = b' ∧ inside b' ∧ H b' + taken = H a + given

/-- All instructions from one address up to another fit. -/
def FitsFrom (code : Code) (H : Nat → Nat) (inside : Nat → Prop) (lo hi : Nat) : Prop :=
  ∀ a, lo ≤ a → a < hi → code.Fits H inside a

variable {code : Code} {scope : Scope} {H : Nat → Nat} {inside : Nat → Prop}

theorem Fits.mono {inside' : Nat → Prop} {a : Nat} (fits : code.Fits H inside a)
    (wider : ∀ b, inside b → inside' b) : code.Fits H inside' a := by
  obtain ⟨i, taken, given, has, moves, enough, leads⟩ := fits
  refine ⟨i, taken, given, has, moves, enough, fun b led => ?_⟩
  obtain ⟨b', same, within, balance⟩ := leads b led
  exact ⟨b', same, wider b' within, balance⟩

/-- An instruction that goes on with the next one. -/
theorem Fits.next {i : Instruction} {a taken given x y : Nat} (has : code.Has a i)
    (moves : i.Moves taken given) (here : H a = x) (there : H (a + 1) = y)
    (within : inside (a + 1))
    (falls : ∀ b, i.Leads a b → b = (a + 1 : Nat) := by exact fun _ leads => leads)
    (enough : taken ≤ x := by clear * -; omega)
    (balance : y + taken = x + given := by clear * -; omega) :
    code.Fits H inside a := by
  refine ⟨i, taken, given, has, moves, here ▸ enough, fun b leads => ?_⟩
  exact ⟨a + 1, falls b leads, within, by omega⟩

theorem Fits.jump {a target : Nat} {line : Option Int}
    (has : code.Has a ⟨.jump, .int (target : Nat), line⟩) (same : H target = H a)
    (within : inside target) : code.Fits H inside a := by
  refine ⟨_, 0, 0, has, ⟨⟨rfl, rfl⟩, _, rfl⟩, Nat.zero_le _, fun b leads => ?_⟩
  cases leads
  exact ⟨target, rfl, within, same⟩

theorem Fits.branch {op : Opcode} {a target x : Nat} {line : Option Int}
    (has : code.Has a ⟨op, .int (target : Nat), line⟩) (tests : op = .jumpIf ∨ op = .jumpIfNot)
    (here : H a = x + 1) (next : H (a + 1) = x) (there : H target = x) (within : inside (a + 1))
    (withinTarget : inside target) : code.Fits H inside a := by
  have leads : ∀ b, Instruction.Leads ⟨op, .int (target : Nat), line⟩ a b →
      b = (a + 1 : Nat) ∨ b = target := by
    intro b leads
    rcases tests with rfl | rfl
    all_goals
      rcases leads with rfl | same
      · exact .inl rfl
      · cases same
        exact .inr rfl
  have moves : Instruction.Moves ⟨op, .int (target : Nat), line⟩ 1 0 := by
    rcases tests with rfl | rfl <;> exact ⟨⟨rfl, rfl⟩, _, rfl⟩
  refine ⟨_, 1, 0, has, moves, by omega, fun b led => ?_⟩
  rcases leads b led with rfl | rfl
  · exact ⟨a + 1, rfl, within, by omega⟩
  · exact ⟨target, rfl, withinTarget, by omega⟩

theorem Fits.ret {a : Nat} {line : Option Int} (has : code.Has a ⟨.ret, .null, line⟩)
    (enough : 1 ≤ H a) : code.Fits H inside a :=
  ⟨_, 1, 0, has, ⟨rfl, rfl⟩, enough, fun _ leads => leads.elim⟩

theorem FitsFrom.nil (a : Nat) : code.FitsFrom H inside a a := Along.nil a

theorem FitsFrom.append {lo mid hi : Nat} (first : code.FitsFrom H inside lo mid)
    (second : code.FitsFrom H inside mid hi) : code.FitsFrom H inside lo hi :=
  Along.append first second

theorem FitsFrom.snoc {lo mid : Nat} (first : code.FitsFrom H inside lo mid)
    (last : code.Fits H inside mid) : code.FitsFrom H inside lo (mid + 1) :=
  Along.snoc first last

theorem FitsFrom.one {a : Nat} (fits : code.Fits H inside a) : code.FitsFrom H inside a (a + 1) :=
  Along.one fits

/-- Heights stand one after the other from an address on. -/
def Marks (H : Nat → Nat) : Nat → List Nat → Prop := Standing fun a h => H a = h

theorem marks_cons {base h : Nat} {hs : List Nat} :
    Marks H base (h :: hs) ↔ H base = h ∧ Marks H (base + 1) hs := standing_cons

theorem marks_append {base : Nat} {hs gs : List Nat} :
    Marks H base (hs ++ gs) ↔ Marks H base hs ∧ Marks H (base + hs.length) gs := standing_append

/-- Any heights stand somewhere, with nothing on the stack behind them. -/
theorem exists_marks (base : Nat) (hs : List Nat) :
    ∃ H : Nat → Nat, Marks H base hs ∧ ∀ a, base + hs.length ≤ a → H a = 0 := by
  refine ⟨fun a => hs.getD (a - base) 0, fun k h found => ?_, fun a behind => ?_⟩
  · simp only [Nat.add_sub_cancel_left, List.getD_eq_getElem?_getD, found, Option.getD_some]
  · simp only [List.getD_eq_getElem?_getD]
    rw [List.getElem?_eq_none (by omega), Option.getD_none]

theorem moves_binary {op : BinaryOp} {opcode : Opcode} (known : binaryOpcode? op = some opcode)
    (line : Option Int) : Instruction.Moves ⟨opcode, .null, line⟩ 2 1 ∧
      ∀ a b, Instruction.Leads ⟨opcode, .null, line⟩ a b → b = (a + 1 : Nat) := by
  cases op <;> cases known
  all_goals exact ⟨⟨rfl, rfl⟩, fun _ _ leads => leads⟩

theorem moves_update {op : UpdateOp} {opcode : Opcode} (known : updateOpcode? op = some opcode)
    (line : Option Int) : Instruction.Moves ⟨opcode, .null, line⟩ 2 1 ∧
      ∀ a b, Instruction.Leads ⟨opcode, .null, line⟩ a b → b = (a + 1 : Nat) := by
  cases op <;> cases known
  all_goals exact ⟨⟨rfl, rfl⟩, fun _ _ leads => leads⟩

theorem moves_call {callee : Constant} (isName : callee.IsName) (name : Name) (argc : Nat)
    (line : Option Int) :
    Instruction.Moves ⟨scope.callOpcode name, .text (callOperand callee.plain argc), line⟩ argc 1 ∧
      ∀ a b, Instruction.Leads ⟨scope.callOpcode name, .text (callOperand callee.plain argc), line⟩
        a b → b = (a + 1 : Nat) := by
  obtain ⟨_, rfl, s, rfl, pointless⟩ := isName.pointless
  unfold Scope.callOpcode
  split
  · exact ⟨⟨⟨s, pointless, rfl⟩, rfl⟩, fun _ _ leads => leads⟩
  · split
    all_goals exact ⟨⟨⟨s, pointless, rfl⟩, rfl⟩, fun _ _ leads => leads⟩

mutual

theorem expr_fits : ∀ (e : Expr) {h base next : Nat} {line : Option Int},
    ExprAt code scope line base e next → e.Every Expr.Shaped → Marks H base (exprHeights h e) →
    H next = h + 1 → Within inside base next →
    H base = h ∧ code.FitsFrom H inside base next
  | .literal _ _ _, h, base, _, _, placed, _, marks, last, within => by
    cases placed with | literal has =>
    have here := (marks_cons.mp marks).1
    exact ⟨here, .one (.next has ⟨rfl, rfl⟩ here last within.at)⟩
  | .var _ _, h, base, _, _, placed, _, marks, last, within => by
    cases placed with | var has =>
    have here := (marks_cons.mp marks).1
    exact ⟨here, .one (.next has ⟨rfl, rfl⟩ here last within.at)⟩
  | .binary pos op left right, h, base, _, _, placed, shaped, marks, last, within => by
    have shapedLeft := shaped.2.1
    have shapedRight := shaped.2.2
    cases placed with
    | and first dup skip pop second | or first dup skip pop second =>
      obtain rfl := exprAt_next left h first
      obtain rfl := exprAt_next right h second
      simp only [exprHeights, List.append_assoc, List.cons_append, List.nil_append, marks_append,
        marks_cons] at marks
      obtain ⟨marksLeft, m1, m2, m3, marksRight⟩ := marks
      have right := expr_fits right second shapedRight marksRight last within.narrow
      have left := expr_fits left first shapedLeft marksLeft m1 within.narrow
      refine ⟨left.1, (((left.2.snoc ?_).snoc ?_).snoc ?_).append right.2⟩
      · exact .next dup ⟨rfl, rfl⟩ m1 m2 within.at
      · exact .branch skip (by simp) m2 m3 last within.at within.at
      · exact .next pop ⟨rfl, rfl⟩ m3 right.1 within.at
    | binary known first second has =>
      obtain rfl := exprAt_next left h first
      obtain rfl := exprAt_next right (h + 1) second
      have heights : exprHeights h (.binary pos op left right) =
          exprHeights h left ++ (exprHeights (h + 1) right ++ [h + 2]) := by
        cases op <;> cases known
        all_goals simp only [exprHeights, List.append_assoc]
      simp only [heights, marks_append, marks_cons] at marks
      obtain ⟨marksLeft, marksRight, m1, -⟩ := marks
      have right := expr_fits right second shapedRight marksRight m1 within.narrow
      have left := expr_fits left first shapedLeft marksLeft right.1 within.narrow
      obtain ⟨moves, falls⟩ := moves_binary known _
      exact ⟨left.1, (left.2.append right.2).snoc (.next has moves m1 last within.at (falls _))⟩
  | .unary _ _ operand, h, base, _, _, placed, shaped, marks, last, within => by
    cases placed with
    | neg inner has | not inner has =>
      obtain rfl := exprAt_next operand h inner
      simp only [exprHeights, marks_append, marks_cons] at marks
      have operand := expr_fits operand inner shaped.2 marks.1 marks.2.1 within.narrow
      exact ⟨operand.1, operand.2.snoc (.next has ⟨rfl, rfl⟩ marks.2.1 last within.at)⟩
  | .call _ _ args, h, base, _, _, placed, shaped, marks, last, within => by
    cases placed with | call _ inner has =>
    obtain rfl := exprsAt_next args h inner
    simp only [exprHeights, marks_append, marks_cons] at marks
    have args := exprs_fits args inner shaped.2 marks.1 marks.2.1 within.narrow
    obtain ⟨moves, falls⟩ := moves_call shaped.1 _ _ _
    exact ⟨args.1, args.2.snoc (.next has moves marks.2.1 last within.at (falls _))⟩
  | .new _ _ _, _, _, _, _, _, shaped, _, _, _ => shaped.1.elim
  | .invoke _ object method args, h, base, _, _, placed, shaped, marks, last, within => by
    cases placed with | invoke first inner has =>
    obtain rfl := exprAt_next object h first
    obtain rfl := exprsAt_next args (h + 1) inner
    simp only [exprHeights, List.append_assoc, marks_append, marks_cons] at marks
    obtain ⟨marksObject, marksArgs, m1, -⟩ := marks
    have inside := exprs_fits args inner shaped.2.2 marksArgs m1 within.narrow
    have object := expr_fits object first shaped.2.1 marksObject inside.1 within.narrow
    exact ⟨object.1, (object.2.append inside.2).snoc
      (.next has ⟨⟨_, rfl⟩, Nat.le_add_left .., rfl⟩ m1 last within.at)⟩
  | .list _ elements, h, base, _, _, placed, shaped, marks, last, within => by
    cases placed with | list inner has =>
    obtain rfl := exprsAt_next elements h inner
    simp only [exprHeights, marks_append, marks_cons] at marks
    have inside := exprs_fits elements inner shaped.2 marks.1 marks.2.1 within.narrow
    exact ⟨inside.1, inside.2.snoc (.next has ⟨rfl, rfl⟩ marks.2.1 last within.at)⟩
  | .record _ entries, h, base, _, _, placed, shaped, marks, last, within => by
    cases placed with | record inner has =>
    obtain rfl := entriesAt_next entries h inner
    simp only [exprHeights, marks_append, marks_cons] at marks
    have inside := entries_fits entries inner shaped.2 marks.1 marks.2.1 within.narrow
    exact ⟨inside.1, inside.2.snoc (.next has ⟨⟨_, rfl, rfl⟩, rfl⟩ marks.2.1 last within.at)⟩
  | .index _ object position, h, base, _, _, placed, shaped, marks, last, within => by
    cases placed with | index first second has =>
    obtain rfl := exprAt_next object h first
    obtain rfl := exprAt_next position (h + 1) second
    simp only [exprHeights, List.append_assoc, marks_append, marks_cons] at marks
    obtain ⟨marksObject, marksPosition, m1, -⟩ := marks
    have position := expr_fits position second shaped.2.2 marksPosition m1 within.narrow
    have object := expr_fits object first shaped.2.1 marksObject position.1 within.narrow
    exact ⟨object.1, (object.2.append position.2).snoc (.next has ⟨rfl, rfl⟩ m1 last within.at)⟩
  | .slice _ object start stop, h, base, _, _, placed, shaped, marks, last, within => by
    cases placed with | slice first second third has =>
    obtain rfl := exprAt_next object h first
    obtain rfl := boundAt_next start (h + 1) second
    obtain rfl := boundAt_next stop (h + 2) third
    simp only [exprHeights, List.append_assoc, marks_append, marks_cons] at marks
    obtain ⟨marksObject, marksStart, marksStop, m1, -⟩ := marks
    have stop := bound_fits stop third shaped.2.2.2 marksStop m1 within.narrow
    have start := bound_fits start second shaped.2.2.1 marksStart stop.1 within.narrow
    have object := expr_fits object first shaped.2.1 marksObject start.1 within.narrow
    exact ⟨object.1, ((object.2.append start.2).append stop.2).snoc
      (.next has ⟨rfl, rfl⟩ m1 last within.at)⟩
  | .member _ object _, h, base, _, _, placed, shaped, marks, last, within => by
    cases placed with | member inner push get =>
    obtain rfl := exprAt_next object h inner
    simp only [exprHeights, marks_append, marks_cons] at marks
    obtain ⟨marksObject, m1, m2, -⟩ := marks
    have object := expr_fits object inner shaped.2 marksObject m1 within.narrow
    refine ⟨object.1, (object.2.snoc ?_).snoc ?_⟩
    · exact .next push ⟨rfl, rfl⟩ m1 m2 within.at
    · exact .next get ⟨rfl, rfl⟩ m2 last within.at
  | .alien _, _, _, _, _, placed, _, _, _, _ => nomatch placed

theorem exprs_fits : ∀ (es : List Expr) {h base next : Nat} {line : Option Int},
    ExprsAt code scope line base es next → Expr.EveryIn Expr.Shaped es →
    Marks H base (exprsHeights h es) → H next = h + es.length →
    Within inside base next → H base = h ∧ code.FitsFrom H inside base next
  | [], _, _, _, _, placed, _, _, last, _ => by
    cases placed
    exact ⟨last, .nil _⟩
  | e :: es, h, _, _, _, placed, shaped, marks, last, within => by
    cases placed with | cons first second =>
    obtain rfl := exprAt_next e h first
    obtain rfl := exprsAt_next es (h + 1) second
    simp only [exprsHeights, marks_append] at marks
    have rest := exprs_fits es second shaped.2 marks.2 (by rw [last, List.length_cons]; omega)
      within.narrow
    have here := expr_fits e first shaped.1 marks.1 rest.1 within.narrow
    exact ⟨here.1, here.2.append rest.2⟩

theorem bound_fits : ∀ (bound : Option Expr) {h base next : Nat} {line : Option Int},
    BoundAt code scope line base bound next → Expr.EveryBound Expr.Shaped bound →
    Marks H base (boundHeights h bound) → H next = h + 1 →
    Within inside base next → H base = h ∧ code.FitsFrom H inside base next
  | none, _, _, _, _, placed, _, marks, last, within => by
    cases placed with | absent has =>
    have here := (marks_cons.mp marks).1
    exact ⟨here, .one (.next has ⟨rfl, rfl⟩ here last within.at)⟩
  | some e, _, _, _, _, placed, shaped, marks, last, within => by
    cases placed with | present inner =>
    exact expr_fits e inner shaped marks last within

theorem entries_fits : ∀ (entries : List (Constant × Expr)) {h base next : Nat}
    {line : Option Int}, EntriesAt code scope line base entries next →
    Expr.EveryEntry Expr.Shaped entries → Marks H base (entriesHeights h entries) →
    H next = h + 2 * entries.length → Within inside base next →
    H base = h ∧ code.FitsFrom H inside base next
  | [], _, _, _, _, placed, _, _, last, _ => by
    cases placed
    exact ⟨last, .nil _⟩
  | (_, e) :: entries, h, _, _, _, placed, shaped, marks, last, within => by
    cases placed with | cons has first second =>
    obtain rfl := exprAt_next e (h + 1) first
    obtain rfl := entriesAt_next entries (h + 2) second
    simp only [entriesHeights, List.cons_append, List.nil_append, marks_append,
      marks_cons] at marks
    obtain ⟨m1, marksValue, marksRest⟩ := marks
    have rest := entries_fits entries second shaped.2 marksRest
      (by rw [last, List.length_cons]; omega) within.narrow
    have value := expr_fits e first shaped.1 marksValue rest.1 within.narrow
    refine ⟨m1, (FitsFrom.one ?_).append (value.2.append rest.2)⟩
    exact .next has ⟨rfl, rfl⟩ m1 value.1 within.at

end

/-- Leaving the innermost loop and going on with its next round keep the height. -/
def TargetsFit (H : Nat → Nat) (inside : Nat → Prop) (h : Nat) (loop : Option LoopTargets) : Prop :=
  ∀ targets, loop = some targets →
    (H targets.leave = h ∧ inside targets.leave) ∧ H targets.again = h ∧ inside targets.again

theorem TargetsFit.some {h leave again : Nat} (leaves : H leave = h) (withinLeave : inside leave)
    (resumes : H again = h) (withinAgain : inside again) :
    TargetsFit H inside h (some ⟨leave, again⟩) := by
  rintro _ ⟨⟩
  exact ⟨⟨leaves, withinLeave⟩, resumes, withinAgain⟩

/-- The setup and the test of a range loop, whose jump leads to `leave`. -/
theorem range_fits (h : Nat) {line : Option Int} {number base start leave : Nat} {var : Constant}
    {first last : Expr} {step : Option Expr} {stopName : String} {known : Number ⊕ String}
    {pushStep : Instruction}
    (placed : RangeAt code scope line number base var first last step start stopName known pushStep)
    (test : code.Holds start (rangeTest line start var stopName known ++
      [⟨.jumpIfNot, .int (leave : Nat), line⟩])) :
    (pushStep.Moves 0 1 ∧ ∀ a b, pushStep.Leads a b → b = (a + 1 : Nat)) ∧
    start + (rangeTest line start var stopName known).length + 1 =
        base + (rangeHeights h first last step).length ∧
      (first.Every Expr.Shaped → last.Every Expr.Shaped → Expr.EveryBound Expr.Shaped step →
        Marks H base (rangeHeights h first last step) →
        H (start + (rangeTest line start var stopName known).length + 1) = h → H leave = h →
        inside leave →
        Within inside base (start + (rangeTest line start var stopName known).length + 1) →
        H start = h ∧ base ≤ start ∧ H base = h ∧ code.FitsFrom H inside base
          (start + (rangeTest line start var stopName known).length + 1)) := by
  cases placed with
  | known kind weight positive placedFirst placedLast setup =>
    obtain rfl := exprAt_next first h placedFirst
    obtain rfl := exprAt_next last (h + 1) placedLast
    refine ⟨⟨⟨rfl, rfl⟩, fun _ _ leads => leads⟩, ?_, ?_⟩
    · simp only [rangeHeights, kind, RangeStep.isKnown, if_true, List.length_append,
        List.length_cons, List.length_nil, rangeTest]
      omega
    · intro shapedFirst shapedLast _ marks behind there withinLeave within
      simp only [rangeTest, List.length_cons, List.length_nil] at behind within ⊢
      simp only [rangeTest, List.cons_append, List.nil_append, holds_cons] at test
      simp only [holds_cons] at setup
      simp only [rangeHeights, kind, RangeStep.isKnown, if_true, List.append_assoc, marks_append,
        marks_cons] at marks
      obtain ⟨i1, i2, i3, i4, i5, -⟩ := setup
      obtain ⟨i6, i7, i8, i9, -⟩ := test
      obtain ⟨marksFirst, marksLast, m1, m2, m3, m4, m5, m6, m7, m8, m9, -⟩ := marks
      have lastFits := expr_fits last placedLast shapedLast marksLast m1 within.narrow
      have firstFits := expr_fits first placedFirst shapedFirst marksFirst lastFits.1 within.narrow
      refine ⟨m6, by omega, firstFits.1, (((((((((firstFits.2.append lastFits.2).snoc ?_).snoc
        ?_).snoc ?_).snoc ?_).snoc ?_).snoc ?_).snoc ?_).snoc ?_).snoc ?_⟩
      · exact .next i1 ⟨rfl, rfl⟩ m1 m2 within.at
      · exact .next i2 ⟨rfl, rfl⟩ m2 m3 within.at
      · exact .next i3 ⟨rfl, rfl⟩ m3 m4 within.at
      · exact .next i4 ⟨rfl, rfl⟩ m4 m5 within.at
      · exact .next i5 ⟨rfl, rfl⟩ m5 m6 within.at
      · exact .next i6 ⟨rfl, rfl⟩ m6 m7 within.at
      · exact .next i7 ⟨rfl, rfl⟩ m7 m8 within.at
      · split at i8
        all_goals exact .next i8 ⟨rfl, rfl⟩ m8 m9 within.at
      · exact .branch i9 (.inr rfl) m9 behind there within.at withinLeave
  | computed kind placedFirst placedLast placedStep setup =>
    obtain rfl := exprAt_next first h placedFirst
    obtain rfl := exprAt_next last (h + 1) placedLast
    obtain rfl := boundAt_next step (h + 2) placedStep
    refine ⟨⟨⟨rfl, rfl⟩, fun _ _ leads => leads⟩, ?_, ?_⟩
    · simp only [rangeHeights, kind, RangeStep.isKnown, Bool.false_eq_true, if_false,
        List.length_append, List.length_cons, List.length_nil, rangeTest]
      omega
    · intro shapedFirst shapedLast shapedStep marks behind there withinLeave within
      simp only [rangeTest, List.length_cons, List.length_nil] at behind within ⊢
      simp only [rangeTest, List.cons_append, List.nil_append, holds_cons] at test
      simp only [holds_cons] at setup
      simp only [rangeHeights, kind, RangeStep.isKnown, Bool.false_eq_true, if_false,
        List.append_assoc, marks_append, marks_cons] at marks
      obtain ⟨i1, i2, i3, i4, -⟩ := setup
      obtain ⟨i5, i6, i7, i8, i9, i10, i11, i12, i13, i14, i15, i16, -⟩ := test
      obtain ⟨marksFirst, marksLast, marksStep, m1, m2, m3, m4, m5, m6, m7, m8, m9, m10, m11, m12,
        m13, m14, m15, m16, -⟩ := marks
      have stepFits := bound_fits step placedStep shapedStep marksStep m1 within.narrow
      have lastFits := expr_fits last placedLast shapedLast marksLast stepFits.1 within.narrow
      have firstFits := expr_fits first placedFirst shapedFirst marksFirst lastFits.1 within.narrow
      have setupFits := (((((firstFits.2.append lastFits.2).append stepFits.2).snoc
        (.next i1 ⟨rfl, rfl⟩ m1 m2 within.at)).snoc
        (.next i2 ⟨rfl, rfl⟩ m2 m3 within.at)).snoc
        (.next i3 ⟨rfl, rfl⟩ m3 m4 within.at)).snoc
        (.next i4 ⟨rfl, rfl⟩ m4 m5 within.at)
      refine ⟨m5, by omega, firstFits.1, (((((((((((setupFits.snoc ?_).snoc ?_).snoc ?_).snoc
        ?_).snoc ?_).snoc ?_).snoc ?_).snoc ?_).snoc ?_).snoc ?_).snoc ?_).snoc ?_⟩
      · exact .next i5 ⟨rfl, rfl⟩ m5 m6 within.at
      · exact .next i6 ⟨rfl, rfl⟩ m6 m7 within.at
      · exact .next i7 ⟨rfl, rfl⟩ m7 m8 within.at
      · exact .branch i8 (.inr rfl) m8 m9 m13 within.at within.at
      · exact .next i9 ⟨rfl, rfl⟩ m9 m10 within.at
      · exact .next i10 ⟨rfl, rfl⟩ m10 m11 within.at
      · exact .next i11 ⟨rfl, rfl⟩ m11 m12 within.at
      · exact .jump i12 (m16.trans m12.symm) within.at
      · exact .next i13 ⟨rfl, rfl⟩ m13 m14 within.at
      · exact .next i14 ⟨rfl, rfl⟩ m14 m15 within.at
      · exact .next i15 ⟨rfl, rfl⟩ m15 m16 within.at
      · exact .branch i16 (.inr rfl) m16 behind there within.at withinLeave

theorem exit_next {line : Option Int} {base finish next : Nat} {last : Bool}
    (exit : ExitAt code line base finish next last) (h : Nat) :
    next = base + (if last = true then [] else [h]).length := by
  cases last with
  | true => exact exit.1.symm
  | false => exact exit.1

theorem exit_fits {line : Option Int} {base finish next h : Nat} {last : Bool}
    (exit : ExitAt code line base finish next last)
    (marks : Marks H base (if last = true then [] else [h])) (there : H finish = h)
    (within : inside finish) : H base = h ∧ code.FitsFrom H inside base next := by
  cases last with
  | true =>
    obtain ⟨rfl, rfl⟩ := exit
    exact ⟨there, .nil _⟩
  | false =>
    obtain ⟨rfl, has⟩ := exit
    have here := (marks_cons.mp marks).1
    exact ⟨here, .one (.jump has (there.trans here.symm) within)⟩

/-- The setup of a counted loop and the instruction that gives its limit. -/
theorem limit_fits {line : Option Int} {number base number' start : Nat} {count : Expr}
    {limit : Instruction} (placed : LimitAt code scope line number base count number' start limit)
    (h : Nat) :
    (limit.Moves 0 1 ∧ ∀ a b, limit.Leads a b → b = (a + 1 : Nat)) ∧
      start = base + (limitHeights h count).length ∧
      (count.Every Expr.Shaped → Marks H base (limitHeights h count) → H start = h →
        Within inside base start → H base = h ∧ code.FitsFrom H inside base start) := by
  cases placed with
  | literal known =>
    rw [limitHeights, known]
    exact ⟨⟨⟨rfl, rfl⟩, fun _ _ leads => leads⟩, rfl, fun _ _ last _ => ⟨last, .nil _⟩⟩
  | computed unknown inner convert store =>
    obtain rfl := exprAt_next count h inner
    rw [limitHeights, unknown]
    refine ⟨⟨⟨rfl, rfl⟩, fun _ _ leads => leads⟩, by simp [Nat.add_assoc],
      fun shaped marks last within => ?_⟩
    simp only [Option.isSome_none, Bool.false_eq_true, if_false, marks_append, marks_cons] at marks
    obtain ⟨marksCount, m1, m2, -⟩ := marks
    have inner := expr_fits count inner shaped marksCount m1 within.narrow
    refine ⟨inner.1, (inner.2.snoc ?_).snoc ?_⟩
    · exact .next convert ⟨rfl, rfl⟩ m1 m2 within.at
    · exact .next store ⟨rfl, rfl⟩ m2 last within.at

/-- The code from one address up to another starts and ends at a height and fits the heights in between,
if what it is the code of is shaped as it should be. -/
structure Level (code : Code) (H : Nat → Nat) (inside : Nat → Prop) (shaped : Prop) (hs : List Nat)
    (h : Nat) (loop : Option LoopTargets) (base next : Nat) : Prop where
  ends : next = base + hs.length
  fits : shaped → Marks H base hs → H next = h → TargetsFit H inside h loop → Within inside base next →
    H base = h ∧ code.FitsFrom H inside base next

/-- The same of the arms of a branch behind its first one; they may lead to its end. -/
structure ElifsLevel (code : Code) (H : Nat → Nat) (inside : Nat → Prop) (lastArm : Bool)
    (es : List Elif) (h finish : Nat) (loop : Option LoopTargets) (base next : Nat) : Prop where
  ends : next = base + (elifsHeights h lastArm es).length
  fits : Stmt.EveryElif Expr.Shaped Stmt.Shaped es → Marks H base (elifsHeights h lastArm es) →
    H next = h → H finish = h → TargetsFit H inside h loop → Within inside base next →
    inside finish → H base = h ∧ code.FitsFrom H inside base next

-- The forms below are independent of each other; the equations of the heights are made once, here.
attribute [local simp] stmtHeights stmtsHeights elifsHeights elifHeights

section Bodies

variable {loop : Option LoopTargets} {number base number' next : Nat} {pos : Pos} {body : List Stmt}
  (bodyFits : ∀ (h : Nat) {loop : Option LoopTargets} {number base number' next : Nat},
    StmtsAt code scope loop number base body number' next →
    code.Level H inside (Stmt.EveryIn Expr.Shaped Stmt.Shaped body) (stmtsHeights h body) h loop base next)

include bodyFits

theorem arm_fits {test : Expr} {mid last target finish : Nat} {only : Bool} (h : Nat)
    (first : ExprAt code scope pos.line base test mid)
    (skip : code.Has mid ⟨.jumpIfNot, .int (target : Nat), pos.line⟩)
    (placedBody : StmtsAt code scope loop number (mid + 1) body number' last)
    (exit : ExitAt code pos.line last finish target only) :
    target = base + (elifHeights h only (.mk pos test body)).length ∧
      (test.Every Expr.Shaped → Stmt.EveryIn Expr.Shaped Stmt.Shaped body →
        Marks H base (elifHeights h only (.mk pos test body)) → H target = h → H finish = h →
        inside finish → TargetsFit H inside h loop → Within inside base target →
        H base = h ∧ code.FitsFrom H inside base target) := by
  obtain rfl := exprAt_next test h first
  obtain ⟨rfl, bodyFits⟩ := bodyFits h placedBody
  obtain rfl := exit_next exit h
  refine ⟨by simp only [elifHeights, List.length_append, List.length_singleton]; omega,
    fun shapedTest shapedBody marks there finished withinFinish targets within => ?_⟩
  simp only [elifHeights, List.append_assoc, List.cons_append, List.nil_append, marks_append,
    marks_cons] at marks
  obtain ⟨marksTest, m1, marksBody, marksExit⟩ := marks
  have exitFits := exit_fits exit marksExit finished withinFinish
  have bodyFits := bodyFits shapedBody marksBody exitFits.1 targets within.narrow
  have testFits := expr_fits test first shapedTest marksTest m1 within.narrow
  have skipFits := Fits.branch skip (.inr rfl) m1 bodyFits.1 there within.at within.at
  exact ⟨testFits.1, ((testFits.2.snoc skipFits).append bodyFits.2).append exitFits.2⟩

theorem elif_fits {test : Expr} {es : List Elif} {lastArm : Bool} {finish : Nat} (h : Nat)
    (others : ∀ {number base number' next : Nat},
      ElifsAt code scope loop finish lastArm number base es number' next →
      code.ElifsLevel H inside lastArm es h finish loop base next)
    (placed : ElifsAt code scope loop finish lastArm number base (.mk pos test body :: es) number' next) :
    code.ElifsLevel H inside lastArm (.mk pos test body :: es) h finish loop base next := by
  cases placed with | cons first skip placedBody exit rest =>
  obtain ⟨rfl, armFits⟩ := arm_fits bodyFits h first skip placedBody exit
  obtain ⟨rfl, others⟩ := others rest
  refine ⟨by rw [elifsHeights, List.length_append, Nat.add_assoc],
    fun shaped marks last finished targets within withinFinish => ?_⟩
  rw [elifsHeights, marks_append] at marks
  have others := others shaped.2 marks.2 last finished targets within.narrow withinFinish
  have armFits := armFits shaped.1.1 shaped.1.2 marks.1 others.1 finished withinFinish targets
    within.narrow
  exact ⟨armFits.1, armFits.2.append others.2⟩

theorem branch_fits {test : Expr} {elifs : List Elif} {otherwise : Option (List Stmt)} (h : Nat)
    (elifsFit : ∀ {finish number base number' next : Nat},
      ElifsAt code scope loop finish otherwise.isNone number base elifs number' next →
      code.ElifsLevel H inside otherwise.isNone elifs h finish loop base next)
    (elseFits : ∀ {number base number' next : Nat},
      OtherwiseAt code scope loop number base otherwise number' next →
      code.Level H inside (Stmt.EveryOtherwise Expr.Shaped Stmt.Shaped otherwise)
        (otherwiseHeights h otherwise) h loop base next)
    (placed : StmtAt code scope loop number base (.branch pos test body elifs otherwise) number' next) :
    code.Level H inside (Stmt.Every Expr.Shaped Stmt.Shaped (.branch pos test body elifs otherwise))
      (stmtHeights h (.branch pos test body elifs otherwise)) h loop base next := by
  have heights : stmtHeights h (.branch pos test body elifs otherwise) =
      elifHeights h (elifs.isEmpty && otherwise.isNone) (.mk pos test body) ++
        elifsHeights h otherwise.isNone elifs ++ otherwiseHeights h otherwise := by
    rw [stmtHeights, elifHeights]
  cases placed with | branch first skip placedBody exit placedElifs placedElse =>
  obtain ⟨rfl, armFits⟩ := arm_fits bodyFits h first skip placedBody exit
  obtain ⟨rfl, elifsFit⟩ := elifsFit placedElifs
  obtain ⟨rfl, elseFits⟩ := elseFits placedElse
  rw [heights]
  refine ⟨by rw [List.length_append, List.length_append, Nat.add_assoc, Nat.add_assoc, Nat.add_assoc],
    fun shaped marks last targets within => ?_⟩
  rw [marks_append, marks_append, List.length_append, ← Nat.add_assoc] at marks
  obtain ⟨⟨marksArm, marksElifs⟩, marksElse⟩ := marks
  have elseFits := elseFits shaped.2.2.2.2 marksElse last targets within.narrow
  have elifsFit := elifsFit shaped.2.2.2.1 marksElifs elseFits.1 last targets within.narrow within.at
  have armFits := armFits shaped.2.1 shaped.2.2.1 marksArm elifsFit.1 last within.at targets
    within.narrow
  exact ⟨armFits.1, (armFits.2.append elifsFit.2).append elseFits.2⟩

theorem times_fits {count : Expr} (h : Nat)
    (placed : StmtAt code scope loop number base (.loopTimes pos count body) number' next) :
    code.Level H inside (Stmt.Every Expr.Shaped Stmt.Shaped (.loopTimes pos count body))
      (stmtHeights h (.loopTimes pos count body)) h loop base next := by
  cases placed with | loopTimes limit setup placedBody again =>
  obtain ⟨rfl, bodyFits⟩ := bodyFits (h + 1) placedBody
  obtain ⟨⟨moves, falls⟩, rfl, limitFits⟩ := limit_fits limit h
  refine ⟨by simp only [stmtHeights, List.length_append, List.length_cons, List.length_nil]; omega,
    fun shaped marks last _ within => ?_⟩
  simp only [stmtHeights, List.append_assoc, List.cons_append, List.nil_append, marks_append,
    marks_cons] at marks
  obtain ⟨marksLimit, m1, m2, m3, m4, m5, marksBody, m6, m7, m8, m9, -⟩ := marks
  simp only [holds_cons] at setup again
  obtain ⟨i1, i2, i3, i4, i5, -⟩ := setup
  obtain ⟨i6, i7, i8, i9, -⟩ := again
  have limitFits := limitFits shaped.2.1 marksLimit m1 within.narrow
  have bodyFits := bodyFits shaped.2.2 marksBody m6 (.some m9 within.at m6 within.at)
    within.narrow
  have setupFits := ((((limitFits.2.snoc
    (.next i1 ⟨rfl, rfl⟩ m1 m2 within.at)).snoc
    (.next i2 ⟨rfl, rfl⟩ m2 m3 within.at)).snoc
    (.next i3 moves m3 m4 within.at (falls _))).snoc
    (.next i4 ⟨rfl, rfl⟩ m4 m5 within.at)).snoc
    (.branch i5 (.inl rfl) m5 bodyFits.1 m9 within.at within.at)
  refine ⟨limitFits.1, ((((setupFits.append bodyFits.2).snoc ?_).snoc ?_).snoc ?_).snoc ?_⟩
  · exact .next i6 ⟨rfl, rfl⟩ m6 m7 within.at
  · exact .next i7 ⟨rfl, rfl⟩ m7 m8 within.at
  · exact .jump i8 (m2.trans m8.symm) within.at
  · exact .next i9 ⟨rfl, rfl⟩ m9 last within.at

theorem while_fits {test : Expr} (h : Nat)
    (placed : StmtAt code scope loop number base (.loopWhile pos test body) number' next) :
    code.Level H inside (Stmt.Every Expr.Shaped Stmt.Shaped (.loopWhile pos test body))
      (stmtHeights h (.loopWhile pos test body)) h loop base next := by
  cases placed with | loopWhile first skip placedBody back =>
  obtain rfl := exprAt_next test h first
  obtain ⟨rfl, bodyFits⟩ := bodyFits h placedBody
  refine ⟨by simp only [stmtHeights, List.length_append, List.length_singleton]; omega,
    fun shaped marks last _ within => ?_⟩
  simp only [stmtHeights, List.append_assoc, List.cons_append, List.nil_append, marks_append,
    marks_cons] at marks
  obtain ⟨marksTest, m1, marksBody, m2, -⟩ := marks
  have testFits := expr_fits test first shaped.2.1 marksTest m1 within.narrow
  have bodyFits := bodyFits shaped.2.2 marksBody m2 (.some last within.at testFits.1 within.at)
    within.narrow
  have skipFits := Fits.branch skip (.inr rfl) m1 bodyFits.1 last within.at within.at
  exact ⟨testFits.1, ((testFits.2.snoc skipFits).append bodyFits.2).snoc
    (.jump back (testFits.1.trans m2.symm) within.at)⟩

theorem loopRange_fits {var : Constant} {start stop : Expr} {step : Option Expr} (h : Nat)
    (placed : StmtAt code scope loop number base (.loopRange pos var start stop step body) number' next) :
    code.Level H inside (Stmt.Every Expr.Shaped Stmt.Shaped (.loopRange pos var start stop step body))
      (stmtHeights h (.loopRange pos var start stop step body)) h loop base next := by
  cases placed with | loopRange range test placedBody again =>
  obtain ⟨rfl, bodyFits⟩ := bodyFits h placedBody
  obtain ⟨⟨moves, falls⟩, behind, rangeFits⟩ := range_fits h range test
  rw [behind] at bodyFits rangeFits again test ⊢
  refine ⟨by simp only [stmtHeights, List.length_append, List.length_cons, List.length_nil]; omega,
    fun shaped marks last _ within => ?_⟩
  simp only [stmtHeights, List.append_assoc, marks_append, marks_cons] at marks
  obtain ⟨marksRange, marksBody, m1, m2, m3, m4, m5, -⟩ := marks
  simp only [holds_cons] at again
  obtain ⟨i1, i2, i3, i4, i5, -⟩ := again
  have bodyFits := bodyFits shaped.2.2.2.2 marksBody m1 (.some last within.at m1 within.at)
    within.narrow
  have rangeFits := rangeFits shaped.2.1 shaped.2.2.1 shaped.2.2.2.1 marksRange bodyFits.1 last
    within.at within.narrow
  refine ⟨rangeFits.2.2.1, (((((rangeFits.2.2.2.append bodyFits.2).snoc ?_).snoc ?_).snoc ?_).snoc
    ?_).snoc ?_⟩
  · exact .next i1 ⟨rfl, rfl⟩ m1 m2 within.at
  · exact .next i2 moves m2 m3 within.at (falls _)
  · exact .next i3 ⟨rfl, rfl⟩ m3 m4 within.at
  · exact .next i4 ⟨rfl, rfl⟩ m4 m5 within.at
  · exact .jump i5 (rangeFits.1.trans m5.symm) (within.at rangeFits.2.1 (by omega))

theorem each_fits {var : Constant} {items : Expr} (h : Nat)
    (placed : StmtAt code scope loop number base (.loopEach pos var items body) number' next) :
    code.Level H inside (Stmt.Every Expr.Shaped Stmt.Shaped (.loopEach pos var items body))
      (stmtHeights h (.loopEach pos var items body)) h loop base next := by
  cases placed with | loopEach first setup placedBody again =>
  obtain rfl := exprAt_next items h first
  obtain ⟨rfl, bodyFits⟩ := bodyFits h placedBody
  refine ⟨by simp only [stmtHeights, List.length_append, List.length_cons, List.length_nil]; omega,
    fun shaped marks last _ within => ?_⟩
  simp only [stmtHeights, List.append_assoc, List.cons_append, List.nil_append, marks_append,
    marks_cons] at marks
  obtain ⟨marksItems, m1, m2, m3, m4, m5, m6, m7, m8, m9, m10, m11, m12, m13, m14, marksBody, m15,
    m16, m17, m18, m19, -⟩ := marks
  simp only [eachSetup, eachAgain, holds_cons] at setup again
  obtain ⟨i1, i2, i3, i4, i5, i6, i7, i8, i9, i10, i11, i12, i13, i14, -⟩ := setup
  obtain ⟨i15, i16, i17, i18, i19, -⟩ := again
  have itemsFit := expr_fits items first shaped.2.1 marksItems m1 within.narrow
  have bodyFits := bodyFits shaped.2.2 marksBody m15 (.some last within.at m15 within.at)
    within.narrow
  have setupFits := (((((itemsFit.2.snoc
    (.next i1 ⟨rfl, rfl⟩ m1 m2 within.at)).snoc
    (.next i2 ⟨rfl, rfl⟩ m2 m3 within.at)).snoc
    (.next i3 ⟨⟨"len", by decide, rfl⟩, rfl⟩ m3 m4 within.at)).snoc
    (.next i4 ⟨rfl, rfl⟩ m4 m5 within.at)).snoc
    (.next i5 ⟨rfl, rfl⟩ m5 m6 within.at)).snoc
    (.next i6 ⟨rfl, rfl⟩ m6 m7 within.at)
  have testFits := (((setupFits.snoc
    (.next i7 ⟨rfl, rfl⟩ m7 m8 within.at)).snoc
    (.next i8 ⟨rfl, rfl⟩ m8 m9 within.at)).snoc
    (.next i9 ⟨rfl, rfl⟩ m9 m10 within.at)).snoc
    (.branch i10 (.inr rfl) m10 m11 last within.at within.at)
  have roundFits := (((testFits.snoc
    (.next i11 ⟨rfl, rfl⟩ m11 m12 within.at)).snoc
    (.next i12 ⟨rfl, rfl⟩ m12 m13 within.at)).snoc
    (.next i13 ⟨rfl, rfl⟩ m13 m14 within.at)).snoc
    (.next i14 ⟨rfl, rfl⟩ m14 bodyFits.1 within.at)
  refine ⟨itemsFit.1, (((((roundFits.append bodyFits.2).snoc ?_).snoc ?_).snoc ?_).snoc ?_).snoc
    ?_⟩
  · exact .next i15 ⟨rfl, rfl⟩ m15 m16 within.at
  · exact .next i16 ⟨rfl, rfl⟩ m16 m17 within.at
  · exact .next i17 ⟨rfl, rfl⟩ m17 m18 within.at
  · exact .next i18 ⟨rfl, rfl⟩ m18 m19 within.at
  · exact .jump i19 (m7.trans m19.symm) within.at

end Bodies

mutual

theorem stmt_fits : ∀ (s : Stmt) (h : Nat) {loop : Option LoopTargets}
    {number base number' next : Nat}, StmtAt code scope loop number base s number' next →
    code.Level H inside (s.Every Expr.Shaped Stmt.Shaped) (stmtHeights h s) h loop base next
  | .expr _ value, h, _, _, _, _, _, placed => by
    cases placed with | expr inner has =>
    obtain rfl := exprAt_next value h inner
    refine ⟨by simp [stmtHeights, Nat.add_assoc], fun shaped marks last _ within => ?_⟩
    simp only [stmtHeights, marks_append, marks_cons] at marks
    have value := expr_fits value inner shaped.2 marks.1 marks.2.1 within.narrow
    exact ⟨value.1, value.2.snoc (.next has ⟨rfl, rfl⟩ marks.2.1 last within.at)⟩
  | .assign _ _ value, h, _, _, _, _, _, placed => by
    cases placed with | assign inner has =>
    obtain rfl := exprAt_next value h inner
    refine ⟨by simp [stmtHeights, Nat.add_assoc], fun shaped marks last _ within => ?_⟩
    simp only [stmtHeights, marks_append, marks_cons] at marks
    have value := expr_fits value inner shaped.2 marks.1 marks.2.1 within.narrow
    exact ⟨value.1, value.2.snoc (.next has ⟨rfl, rfl⟩ marks.2.1 last within.at)⟩
  | .update _ _ op value, h, _, _, _, _, _, placed => by
    cases placed with | update known load inner has store =>
    obtain rfl := exprAt_next value (h + 1) inner
    refine ⟨by simp [stmtHeights]; omega, fun shaped marks last _ within => ?_⟩
    simp only [stmtHeights, List.cons_append, List.nil_append, marks_append, marks_cons] at marks
    obtain ⟨m1, marksValue, m2, m3, -⟩ := marks
    have value := expr_fits value inner shaped.2 marksValue m2 within.narrow
    obtain ⟨moves, falls⟩ := moves_update known _
    refine ⟨m1, (((FitsFrom.one ?_).append value.2).snoc ?_).snoc ?_⟩
    · exact .next load ⟨rfl, rfl⟩ m1 value.1 within.at
    · exact .next has moves m2 m3 within.at (falls _)
    · exact .next store ⟨rfl, rfl⟩ m3 last within.at
  | .setIndex _ object position value, h, _, _, _, _, _, placed => by
    cases placed with | setIndex first second third has =>
    obtain rfl := exprAt_next object h first
    obtain rfl := exprAt_next position (h + 1) second
    obtain rfl := exprAt_next value (h + 2) third
    refine ⟨by simp [stmtHeights, Nat.add_assoc], fun shaped marks last _ within => ?_⟩
    simp only [stmtHeights, List.append_assoc, marks_append, marks_cons] at marks
    obtain ⟨marksObject, marksPosition, marksValue, m1, -⟩ := marks
    have value := expr_fits value third shaped.2.2.2 marksValue m1 within.narrow
    have position := expr_fits position second shaped.2.2.1 marksPosition value.1 within.narrow
    have object := expr_fits object first shaped.2.1 marksObject position.1 within.narrow
    exact ⟨object.1, ((object.2.append position.2).append value.2).snoc
      (.next has ⟨rfl, rfl⟩ m1 last within.at)⟩
  | .setMember _ object _ value, h, _, _, _, _, _, placed => by
    cases placed with | setMember first push second has =>
    obtain rfl := exprAt_next object h first
    obtain rfl := exprAt_next value (h + 2) second
    refine ⟨by simp [stmtHeights]; omega, fun shaped marks last _ within => ?_⟩
    simp only [stmtHeights, List.append_assoc, List.cons_append, List.nil_append, marks_append,
      marks_cons] at marks
    obtain ⟨marksObject, m1, marksValue, m2, -⟩ := marks
    have value := expr_fits value second shaped.2.2 marksValue m2 within.narrow
    have object := expr_fits object first shaped.2.1 marksObject m1 within.narrow
    refine ⟨object.1, ((object.2.snoc ?_).append value.2).snoc ?_⟩
    · exact .next push ⟨rfl, rfl⟩ m1 value.1 within.at
    · exact .next has ⟨rfl, rfl⟩ m2 last within.at
  | .branch _ _ body elifs otherwise, h, _, _, _, _, _, placed =>
    branch_fits (stmts_fits body) h (elifs_fits elifs h) (otherwise_fits otherwise h) placed
  | .loopTimes _ _ body, h, _, _, _, _, _, placed => times_fits (stmts_fits body) h placed
  | .loopWhile _ _ body, h, _, _, _, _, _, placed => while_fits (stmts_fits body) h placed
  | .loopRange _ _ _ _ _ body, h, _, _, _, _, _, placed => loopRange_fits (stmts_fits body) h placed
  | .loopEach _ _ _ body, h, _, _, _, _, _, placed => each_fits (stmts_fits body) h placed
  | .leave _, h, _, _, _, _, _, placed => by
    cases placed with | leave has =>
    refine ⟨rfl, fun _ marks _ targets _ => ?_⟩
    have here := (marks_cons.mp marks).1
    have fit := (targets _ rfl).1
    exact ⟨here, .one (.jump has (fit.1.trans here.symm) fit.2)⟩
  | .again _, h, _, _, _, _, _, placed => by
    cases placed with | again has =>
    refine ⟨rfl, fun _ marks _ targets _ => ?_⟩
    have here := (marks_cons.mp marks).1
    have fit := (targets _ rfl).2
    exact ⟨here, .one (.jump has (fit.1.trans here.symm) fit.2)⟩
  | .pass _, h, _, _, _, _, _, placed => by
    cases placed with | pass has =>
    refine ⟨rfl, fun _ marks last _ within => ?_⟩
    have here := (marks_cons.mp marks).1
    exact ⟨here, .one (.next has ⟨rfl, rfl⟩ here last within.at)⟩
  | .give _ value, h, _, _, _, _, _, placed => by
    cases placed with | give inner has =>
    obtain rfl := boundAt_next value h inner
    refine ⟨by simp [stmtHeights, Nat.add_assoc], fun shaped marks last _ within => ?_⟩
    simp only [stmtHeights, marks_append, marks_cons] at marks
    have value := bound_fits value inner shaped.2 marks.1 marks.2.1 within.narrow
    exact ⟨value.1, value.2.snoc (.ret has (by rw [marks.2.1]; exact Nat.le_add_left ..))⟩
  | .define _, _, _, _, _, _, _, placed => nomatch placed
  | .defineClass _ _ _, _, _, _, _, _, _, placed => nomatch placed
  | .alien _, _, _, _, _, _, _, placed => nomatch placed

theorem stmts_fits : ∀ (ss : List Stmt) (h : Nat) {loop : Option LoopTargets}
    {number base number' next : Nat}, StmtsAt code scope loop number base ss number' next →
    code.Level H inside (Stmt.EveryIn Expr.Shaped Stmt.Shaped ss) (stmtsHeights h ss) h loop base next
  | [], _, _, _, _, _, _, placed => by
    cases placed
    exact ⟨rfl, fun _ _ last _ _ => ⟨last, .nil _⟩⟩
  | s :: ss, h, _, _, _, _, _, placed => by
    cases placed with | cons first rest =>
    obtain ⟨rfl, here⟩ := stmt_fits s h first
    obtain ⟨rfl, others⟩ := stmts_fits ss h rest
    refine ⟨by simp [stmtsHeights, Nat.add_assoc], fun shaped marks last targets within => ?_⟩
    simp only [stmtsHeights, marks_append] at marks
    have others := others shaped.2 marks.2 last targets within.narrow
    have here := here shaped.1 marks.1 others.1 targets within.narrow
    exact ⟨here.1, here.2.append others.2⟩

theorem elifs_fits : ∀ (es : List Elif) (h : Nat) {loop : Option LoopTargets} {lastArm : Bool}
    {finish number base number' next : Nat},
    ElifsAt code scope loop finish lastArm number base es number' next →
    code.ElifsLevel H inside lastArm es h finish loop base next
  | [], _, _, _, _, _, _, _, _, placed => by
    cases placed
    exact ⟨rfl, fun _ _ last _ _ _ _ => ⟨last, .nil _⟩⟩
  | .mk _ _ body :: es, h, _, _, _, _, _, _, _, placed =>
    elif_fits (stmts_fits body) h (elifs_fits es h) placed

theorem otherwise_fits : ∀ (otherwise : Option (List Stmt)) (h : Nat) {loop : Option LoopTargets}
    {number base number' next : Nat}, OtherwiseAt code scope loop number base otherwise number' next →
    code.Level H inside (Stmt.EveryOtherwise Expr.Shaped Stmt.Shaped otherwise)
      (otherwiseHeights h otherwise) h loop base next
  | none, _, _, _, _, _, _, placed => by
    cases placed
    exact ⟨rfl, fun _ _ last _ _ => ⟨last, .nil _⟩⟩
  | some body, h, _, _, _, _, _, placed => by
    cases placed with | present inner =>
    exact stmts_fits body h inner

end

end Code

end Stepwise
