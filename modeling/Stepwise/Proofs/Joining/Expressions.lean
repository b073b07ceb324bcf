import Stepwise.Tree.Expression
import Stepwise.Proofs.Joining.Cursors
import Stepwise.Proofs.Joining.Trees

/-!
Reading expressions in a text that goes on. An expression is always followed by something else, so the
readers never look past the end of the shorter text.
-/
namespace Stepwise

/-- A tree of the first text in the second one. -/
abbrev Seam.placed (seam : Seam) (e : Expr) : Expr := e.moved (Pos.down seam.lines)

/-- An entry of a record in the second text. -/
abbrev Seam.placedEntry (seam : Seam) (entry : Constant × Expr) : Constant × Expr :=
  (entry.1, seam.placed entry.2)

namespace Parser

open Token (Kind)
open Cursor (Live Even Here)

variable {α β : Type} {seam : Seam} {depth n : Nat}

/-- Within a block the second reader gives what the first one gives, and both pass some token. -/
def Repeats (seam : Seam) (depth : Nat) (f : α → β) (p : Parser α) (p' : Parser β) : Prop :=
  ∀ n, Tracks (Live seam depth n) (Live seam depth (n - 1)) f p p'

theorem tracks_expectName {suggestion : Option String} :
    Tracks (Live seam depth n) (Live seam depth (n - 1)) id (expectName suggestion)
      (expectName suggestion) :=
  (tracks_expect (by decide)).bind fun _ => .pure (fun _ _ => id) rfl

section Lists

variable {f : α → β} {item : Parser α} {item' : Parser β} (repeats : Repeats seam depth f item item')
include repeats

theorem tracks_commaSeparated (fuel : Nat) : ∀ n, n ≤ fuel →
    Tracks (Live seam depth n) (Live seam depth (n - 1)) (List.map f) (commaSeparated item fuel)
      (commaSeparated item' (fuel + seam.others.length)) := by
  induction fuel with
  | zero => exact fun n none => tracks_none none
  | succ fuel ih =>
    intro n enough
    rw [Nat.succ_add]
    refine (repeats n).bind fun first => ?_
    refine tracks_accept (by decide) ?_ (.pure (fun _ _ => id) rfl)
    refine (ih _ (by omega)).bind fun rest => .pure (fun _ _ live => live.mono (by omega)) rfl

theorem repeats_listUntil {close : Kind} {suggestion : Option String} (code : close.IsCode) :
    Repeats seam depth (List.map f) (listUntil close suggestion item)
      (listUntil close suggestion item') := by
  intro n
  have closed (items : List α) : Tracks (Live seam depth n) (Live seam depth (n - 1)) (List.map f)
      (do let _ ← expect close suggestion; return items : Parser (List α))
      (do let _ ← expect close suggestion; return items.map f : Parser (List β)) :=
    (tracks_expect code).bind fun _ => .pure (fun _ _ => id) rfl
  refine tracks_look ?_ ?_
  · exact .bind (.pure (fun _ _ here => here.live_code code) rfl) closed
  · refine tracks_remaining fun m le => ?_
    exact ((tracks_commaSeparated repeats m m (Nat.le_refl m)).looser (by omega)).bind closed

end Lists

section Left

variable {op? : Kind → Option BinaryOp} {operand operand' : Parser Expr}
  (known : ∀ k op, op? k = some op → k.IsCode)
  (repeats : Repeats seam depth seam.placed operand operand')
include known repeats

theorem tracks_leftTail (fuel : Nat) : ∀ n left, n ≤ fuel →
    Tracks (Live seam depth n) (Live seam depth n) seam.placed (leftTail op? operand fuel left)
      (leftTail op? operand' (fuel + seam.others.length) (seam.placed left)) := by
  induction fuel with
  | zero => exact fun n left none => tracks_none none
  | succ fuel ih =>
    intro n left enough
    rw [Nat.succ_add]
    refine tracks_kind fun k inside => ?_
    cases found : op? k with
    | none => exact .pure (fun _ _ here => here.live inside) rfl
    | some op =>
      refine (tracks_advance (known k op found)).bind fun sign => ?_
      refine (repeats _).bind fun right => ?_
      have placed := ih _ (.binary left.pos op left right) (show n - 1 - 1 ≤ fuel by omega)
      simp only [Seam.placed, Expr.moved, ← Expr.moved_pos] at placed
      exact placed.looser (by omega)

theorem repeats_leftLevel :
    Repeats seam depth seam.placed (leftLevel op? operand) (leftLevel op? operand') := by
  intro n
  refine (repeats n).bind fun left => tracks_remaining fun m le => ?_
  exact (tracks_leftTail known repeats m m left (Nat.le_refl m)).looser le

end Left

theorem codes_of_operators : (∀ k op, orOp k = some op → k.IsCode) ∧
    (∀ k op, andOp k = some op → k.IsCode) ∧ (∀ k op, comparisonOp k = some op → k.IsCode) ∧
    (∀ k op, sumOp k = some op → k.IsCode) ∧ ∀ k op, termOp k = some op → k.IsCode := by
  refine ⟨?_, ?_, ?_, ?_, ?_⟩ <;> intro k op found <;> cases k <;> first | decide | cases found

section Expressions

variable {whole whole' : Parser Expr} (repeats : Repeats seam depth seam.placed whole whole')
include repeats

theorem repeats_recordEntry :
    Repeats seam depth seam.placedEntry (recordEntry whole) (recordEntry whole') := by
  intro n
  refine tracks_current fun t => ?_
  by_cases named : t.kind = .identifier || t.kind = .string
  · have named' : (t.down seam.lines).kind = .identifier || (t.down seam.lines).kind = .string := named
    rw [if_pos named, if_pos named']
    have code : t.kind.IsCode := by
      simp only [Bool.or_eq_true, decide_eq_true_eq] at named
      rcases named with kind | kind <;> rw [kind] <;> decide
    refine (tracks_advance code).bind fun _ => ?_
    refine (tracks_expect (by decide)).bind fun _ => ?_
    exact (repeats _).bind fun e => .pure (fun _ _ live => live.mono (by omega)) rfl
  · rw [if_neg named]
    exact tracks_fail

theorem repeats_arguments : Repeats seam depth (List.map seam.placed) (arguments whole)
    (arguments whole') :=
  repeats_listUntil repeats (by decide)

theorem repeats_atom : Repeats seam depth seam.placed (atom whole) (atom whole') := by
  intro n
  refine tracks_current fun t => ?_
  have literal (form : LiteralForm) (value : Constant) (code : t.kind.IsCode) :
      Tracks (Here seam t.kind depth n) (Live seam depth (n - 1)) seam.placed
        (do let _ ← advance; return .literal (tokenPos t) form value)
        (do let _ ← advance; return .literal (tokenPos (t.down seam.lines)) form value) :=
    (tracks_advance code).bind fun _ => .pure (fun _ _ => id) rfl
  rw [Token.down_kind]
  dsimp only
  split
  · next kind => exact literal .number t.literal (by rw [kind]; decide)
  · next kind => exact literal .string t.literal (by rw [kind]; decide)
  · next kind => exact literal .boolean _ (by rw [kind]; decide)
  · next kind => exact literal .boolean _ (by rw [kind]; decide)
  · next kind =>
    rw [kind]
    refine (tracks_advance (by decide)).bind fun _ => (repeats _).bind fun e => ?_
    exact (tracks_expect (by decide)).bind fun _ => .pure (fun _ _ live => live.mono (by omega)) rfl
  · next kind =>
    rw [kind]
    refine (tracks_advance (by decide)).bind fun _ => ?_
    refine (repeats_listUntil repeats (by decide) _).bind fun es => ?_
    refine .pure (fun _ _ live => live.mono (by omega)) ?_
    rw [Seam.placed, Expr.moved, Expr.movedAll_eq_map]
    rfl
  · next kind =>
    rw [kind]
    refine (tracks_advance (by decide)).bind fun _ => ?_
    refine (repeats_listUntil (repeats_recordEntry repeats) (by decide) _).bind fun entries => ?_
    refine .pure (fun _ _ live => live.mono (by omega)) ?_
    rw [Seam.placed, Expr.moved, Expr.movedEntries_eq_map]
    rfl
  · next kind =>
    rw [kind]
    refine (tracks_advance (by decide)).bind fun _ => tracks_accept (by decide) ?_ ?_
    · refine (repeats_arguments repeats _).bind fun args => ?_
      refine .pure (fun _ _ live => live.mono (by omega)) ?_
      rw [Seam.placed, Expr.moved, Expr.movedAll_eq_map]
      rfl
    · exact .pure (fun _ _ live => live.mono (by omega)) rfl
  · exact tracks_fail
  · exact .of_fails (fails_bind fun _ c => fail_run _ _)

/-- An expression that may be left out. -/
theorem repeats_present : Repeats seam depth (Option.map seam.placed) (some <$> whole : Parser (Option Expr))
    (some <$> whole' : Parser (Option Expr)) :=
  fun n => (repeats n).map fun _ => rfl

theorem repeats_subscript (object : Expr) : Repeats seam depth seam.placed (subscript whole object)
    (subscript whole' (seam.placed object)) := by
  intro n
  have closed (start stop : Option Expr) : Tracks (Live seam depth (n - 1)) (Live seam depth (n - 1))
      seam.placed
      (do
        let _ ← expect .rbracket (some "Close the index with ']'.")
        return .slice object.pos object start stop)
      (do
        let _ ← expect .rbracket (some "Close the index with ']'.")
        return .slice (seam.placed object).pos (seam.placed object) (start.map seam.placed)
          (stop.map seam.placed)) := by
    refine (tracks_expect (by decide)).bind fun _ => .pure (fun _ _ live => live.mono (by omega)) ?_
    rw [Seam.placed, Expr.moved, Expr.movedOption_eq_map, Expr.movedOption_eq_map, Expr.moved_pos]
  have slice (start : Option Expr) : Tracks (Live seam depth n) (Live seam depth (n - 1)) seam.placed
      (do
        let _ ← expect .colon
        let stop ← if ← at? .rbracket then pure none else some <$> whole
        let _ ← expect .rbracket (some "Close the index with ']'.")
        return .slice object.pos object start stop)
      (do
        let _ ← expect .colon
        let stop ← if ← at? .rbracket then pure none else some <$> whole'
        let _ ← expect .rbracket (some "Close the index with ']'.")
        return .slice (seam.placed object).pos (seam.placed object) (start.map seam.placed) stop) := by
    refine (tracks_expect (by decide)).bind fun _ => tracks_look ?_ ?_
    · exact .bind (.pure (fun _ _ here => here.live_code (by decide)) rfl) (closed start)
    · exact ((repeats_present repeats _).looser (by omega)).bind (closed start)
  refine tracks_look ?_ ?_
  · exact (slice none).weaken (fun _ _ here => here.live_code (by decide)) fun _ _ => id
  · refine (repeats n).bind fun position => tracks_accept (by decide) ?_ ?_
    · refine .pure (fun _ _ live => live.mono (by omega)) ?_
      rw [Seam.placed, Expr.moved, Expr.moved_pos]
    · exact (slice (some position)).weaken (fun _ _ live => live.mono (by omega)) fun _ _ => id

theorem tracks_suffixes (fuel : Nat) : ∀ n e, n ≤ fuel →
    Tracks (Live seam depth n) (Live seam depth n) seam.placed (suffixes whole fuel e)
      (suffixes whole' (fuel + seam.others.length) (seam.placed e)) := by
  induction fuel with
  | zero => exact fun n e none => tracks_none none
  | succ fuel ih =>
    intro n e enough
    rw [Nat.succ_add]
    refine tracks_accept (by decide) ?_ (tracks_accept (by decide) ?_ (.pure (fun _ _ => id) rfl))
    · refine (repeats_subscript repeats e _).bind fun e => ?_
      exact (ih _ e (by omega)).looser (by omega)
    · refine tracks_expectName.bind fun name => tracks_accept (by decide) ?_ ?_
      · refine (repeats_arguments repeats _).bind fun args => ?_
        have placed := ih (n - 1 - 1 - 1 - 1) (.invoke e.pos e name args) (by omega)
        simp only [Seam.placed, Expr.moved, Expr.movedAll_eq_map, ← Expr.moved_pos] at placed
        exact placed.looser (by omega)
      · have placed := ih (n - 1 - 1) (.member e.pos e name) (by omega)
        simp only [Seam.placed, Expr.moved, ← Expr.moved_pos] at placed
        exact placed.looser (by omega)

theorem repeats_suffixed : Repeats seam depth seam.placed (suffixed whole) (suffixed whole') := by
  intro n
  refine (repeats_atom repeats n).bind fun e => tracks_remaining fun m le => ?_
  exact (tracks_suffixes repeats m m e (Nat.le_refl m)).looser le

/-- The sign counts as a token, so the levels of signs end before the tokens do. -/
theorem tracks_signed (fuel : Nat) : ∀ n, n ≤ fuel →
    Tracks (Live seam depth n) (Live seam depth (n - 1)) seam.placed (signed whole fuel)
      (signed whole' (fuel + seam.others.length)) := by
  induction fuel with
  | zero => exact fun n none => tracks_none none
  | succ fuel ih =>
    intro n enough
    rw [Nat.succ_add]
    refine tracks_look ?_ ?_
    · refine (tracks_advance (by decide)).bind fun sign => ?_
      refine (ih _ (by omega)).bind fun e => .pure (fun _ _ live => live.mono (by omega)) rfl
    · refine (repeats_suffixed repeats n).bind fun base => ?_
      refine tracks_accept (by decide) ?_ (.pure (fun _ _ => id) rfl)
      refine (ih _ (by omega)).bind fun e => .pure (fun _ _ live => live.mono (by omega)) ?_
      rw [Seam.placed, Expr.moved, Expr.moved_pos]


theorem repeats_comparison : Repeats seam depth seam.placed (comparison whole) (comparison whole') := by
  obtain ⟨-, -, comparing, summing, scaling⟩ := codes_of_operators
  refine repeats_leftLevel comparing (repeats_leftLevel summing (repeats_leftLevel scaling ?_))
  exact fun n => tracks_remaining fun m le => (tracks_signed repeats m m (Nat.le_refl m)).looser (by omega)

theorem tracks_negation (fuel : Nat) : ∀ n, n ≤ fuel →
    Tracks (Live seam depth n) (Live seam depth (n - 1)) seam.placed (negation whole fuel)
      (negation whole' (fuel + seam.others.length)) := by
  induction fuel with
  | zero => exact fun n none => tracks_none none
  | succ fuel ih =>
    intro n enough
    rw [Nat.succ_add]
    refine tracks_look ?_ (repeats_comparison repeats n)
    refine (tracks_advance (by decide)).bind fun sign => ?_
    exact (ih _ (by omega)).bind fun e => .pure (fun _ _ live => live.mono (by omega)) rfl

theorem repeats_disjunction :
    Repeats seam depth seam.placed (disjunction whole) (disjunction whole') := by
  obtain ⟨either, both, -⟩ := codes_of_operators
  refine repeats_leftLevel either (repeats_leftLevel both ?_)
  exact fun n => tracks_remaining fun m le =>
    (tracks_negation repeats m m (Nat.le_refl m)).looser (by omega)

end Expressions

theorem repeats_nested (levels more : Nat) :
    Repeats seam depth seam.placed (nested levels) (nested (levels + more)) := by
  induction levels with
  | zero =>
    cases more with
    | zero => exact repeats_disjunction fun n => tracks_fail
    | succ more => exact repeats_disjunction fun n => tracks_fail
  | succ levels ih =>
    rw [Nat.succ_add]
    exact repeats_disjunction ih

theorem repeats_expression : Repeats seam depth seam.placed expression expression :=
  fun _ => tracks_remaining fun m le => (repeats_nested m _ m).looser (by omega)

end Parser

end Stepwise
