import Stepwise.Tree.Parse
import Stepwise.Proofs.Joining.Expressions

/-!
Reading statements in a text that goes on. A statement ends with its line or with its last block, and
behind a block at the end of the shorter text nothing stands that could go on with it.
-/
namespace Stepwise

/-- Trees of the first text in the second one. -/
abbrev Seam.placedStmt (seam : Seam) (s : Stmt) : Stmt := s.moved (Pos.down seam.lines)

namespace Parser

open Token (Kind)
open Cursor (Live Even Here)

variable {α β : Type} {seam : Seam} {depth n : Nat}

theorem Tracks.even {before : Cursor → Cursor → Prop} {f : α → β} {p : Parser α} {p' : Parser β}
    {m : Nat} (tracks : Tracks before (Even seam depth m) f p p') (le : m ≤ n) :
    Tracks before (Even seam depth n) f p p' :=
  tracks.weaken (fun _ _ => id) fun _ _ even => even.mono le

theorem tracks_endOfStatement :
    Tracks (Live seam depth n) (Even seam depth n) id endOfStatement endOfStatement := by
  have ends : Tracks (Live seam depth n) (Even seam depth n) id
      (accept .newline >>= fun found => if found then pure () else do
        let found ← describe (← current)
        fail s!"Unexpected {found} after the end of the statement"
          (some "Put each statement on its own line.") : Parser Unit)
      (accept .newline >>= fun found => if found then pure () else do
        let found ← describe (← current)
        fail s!"Unexpected {found} after the end of the statement"
          (some "Put each statement on its own line.") : Parser Unit) := by
    refine Tracks.weaken (tracks_accept_newline (.pure (fun _ _ even => even.mono (Nat.sub_le n 1)) rfl)
      (.of_fails ?_)) (fun _ _ live => live.toEven) fun _ _ => id
    exact fails_bind fun _ => fails_bind fun _ c => fail_run _ _
  intro c d live a c' read
  have shut (c : Cursor) (inside : c.current.kind ∉ [.eof, .dedent]) :
      (c.current.kind == .eof || c.current.kind == .dedent) = false := by
    simpa [not_or] using inside
  have kind : d.current.kind = c.current.kind := (live.step fun kind => live.inside (by simp [kind])).1
  unfold endOfStatement at read ⊢
  rw [bind_of_ok (at_run _), bind_of_ok (at_run _), shut c live.inside] at read
  rw [bind_of_ok (at_run _), bind_of_ok (at_run _), shut d (kind ▸ live.inside)]
  exact ends c d live a c' read

theorem tracks_skipNewlinesUpTo (fuel : Nat) : ∀ n, n ≤ fuel →
    Tracks (Even seam depth n) (Even seam depth n) id (skipNewlinesUpTo fuel)
      (skipNewlinesUpTo (fuel + seam.others.length)) := by
  induction fuel with
  | zero =>
    exact fun n none _ _ even => absurd (Nat.le_zero.mp none) even.filled
  | succ fuel ih =>
    intro n enough
    rw [Nat.succ_add]
    refine tracks_accept_newline ?_ (.pure (fun _ _ => id) rfl)
    exact (ih _ (by omega)).even (by omega)

theorem tracks_skipNewlines :
    Tracks (Even seam depth n) (Even seam depth n) id skipNewlines skipNewlines :=
  tracks_remaining_even fun m le => (tracks_skipNewlinesUpTo m m (Nat.le_refl m)).even le

theorem tracks_colon :
    Tracks (Live seam depth n) (Live seam depth (n - 1)) id colon colon :=
  (tracks_expect (by decide)).bind fun _ => .pure (fun _ _ => id) rfl

/-- The second reader gives what the first one gives, and both pass a line or a block. -/
def Resumes (seam : Seam) (f : α → β) (p : Parser α) (p' : Parser β) : Prop :=
  ∀ depth n, Tracks (Live seam depth n) (Even seam depth (n - 1)) f p p'

theorem tracks_close {after : Cursor → Cursor → Prop} {f : α → β} {p : Parser α} {p' : Parser β}
    (then_ : Tracks (Even seam depth (n - 1)) after f p p') :
    Tracks (Here seam .dedent (depth + 1) n) after f (accept .dedent >>= fun _ => p)
      (accept .dedent >>= fun _ => p') := by
  intro c d here a c' read
  have kind : d.current.kind = .dedent := (here.step (by rw [here.kind]; decide)).1.trans here.kind
  rw [bind_of_ok (accept_of_eq here.kind)] at read
  rw [bind_of_ok (accept_of_eq kind)]
  exact tracks_pass (k := .dedent) (by decide) (Eq.refl (depth + 1)) then_ c d here a c' read

theorem Tracks.of_live {k : Kind} {after : Cursor → Cursor → Prop} {f : α → β} {p : Parser α}
    {p' : Parser β} (inside : k ∉ [.eof, .dedent]) (tracks : Tracks (Live seam depth n) after f p p') :
    Tracks (Here seam k depth n) after f p p' :=
  tracks.weaken (fun _ _ here => here.live inside) fun _ _ => id

theorem tracks_failAt {before after : Cursor → Cursor → Prop} {f : α → β} {token : Token}
    {message : String} {suggestion : Option String} {p' : Parser β} :
    Tracks before after f (failAt token message suggestion) p' :=
  .of_fails fun _ _ _ => nofun

section Items

variable {f : α → β} {item : Parser α} {item' : Parser β}
  (resumes : Resumes seam f item item')
include resumes

theorem tracks_itemsUpTo (fuel : Nat) : ∀ n, n ≤ fuel →
    Tracks (Even seam (depth + 1) n) (Here seam .dedent (depth + 1) n) (List.map f)
      (itemsUpTo item fuel) (itemsUpTo item' (fuel + seam.others.length)) := by
  induction fuel with
  | zero => exact fun n none _ _ even => absurd (Nat.le_zero.mp none) even.filled
  | succ fuel ih =>
    intro n enough
    rw [Nat.succ_add]
    have more : Tracks (Live seam (depth + 1) n) (Here seam .dedent (depth + 1) n) (List.map f)
        (do
          let first ← item
          skipNewlines
          return first :: (← itemsUpTo item fuel))
        (do
          let first ← item'
          skipNewlines
          return first :: (← itemsUpTo item' (fuel + seam.others.length))) := by
      refine (resumes _ n).bind fun first => tracks_skipNewlines.bind fun _ => ?_
      refine (ih _ (by omega)).bind fun rest => .pure (fun _ _ here => ?_) rfl
      exact ⟨here.toEven.mono (Nat.sub_le n 1), here.kind⟩
    intro c d even a c' read
    have open_ : c.current.kind ≠ .eof := fun ended => absurd (even.over ended).1 (Nat.succ_ne_zero depth)
    have kind : d.current.kind = c.current.kind := (even.step open_).1
    unfold itemsUpTo at read ⊢
    rw [bind_of_ok (at_run _), bind_of_ok (at_run _)] at read ⊢
    rw [kind]
    by_cases closes : c.current.kind = .dedent
    · rw [if_pos (by simp [closes])] at read ⊢
      cases read
      exact ⟨d, rfl, even, closes⟩
    · rw [if_neg (by simp [closes, open_])] at read ⊢
      exact more c d ⟨even, by simp [closes, open_]⟩ a c' read

end Items

section Blocks

variable {inner inner' : Parser Stmt} (resumes : Resumes seam seam.placedStmt inner inner')
include resumes

theorem resumes_block :
    Resumes seam (List.map seam.placedStmt) (block inner) (block inner') := by
  intro depth n
  suffices even : Tracks (Even seam depth n) (Even seam depth (n - 1)) (List.map seam.placedStmt)
      (block inner) (block inner') from even.weaken (fun _ _ live => live.toEven) fun _ _ => id
  refine tracks_expect_mark (by decide) (Eq.refl depth) (tracks_look_even (by decide) ?_ tracks_fail)
  refine tracks_pass (k := .indent) (by decide) (Eq.refl (depth + 1)) ?_
  refine tracks_remaining_even fun m le => ?_
  refine (tracks_itemsUpTo resumes m m (Nat.le_refl m)).bind fun body => tracks_close ?_
  rw [List.isEmpty_map]
  cases body.isEmpty with
  | true => exact tracks_fail
  | false => exact .pure (fun _ _ even => even.mono (by omega)) rfl

theorem tracks_elifsUpTo (fuel : Nat) : ∀ n, n ≤ fuel →
    Tracks (Even seam depth n) (Even seam depth n) (List.map (Stmt.movedElif (Pos.down seam.lines)))
      (elifsUpTo inner fuel) (elifsUpTo inner' (fuel + seam.others.length)) := by
  induction fuel with
  | zero => exact fun n none _ _ even => absurd (Nat.le_zero.mp none) even.filled
  | succ fuel ih =>
    intro n enough
    rw [Nat.succ_add]
    refine tracks_look_even (by decide) ?_ (.pure (fun _ _ => id) rfl)
    refine (tracks_advance (by decide)).bind fun token => (repeats_expression _).bind fun test => ?_
    refine tracks_colon.bind fun _ => (resumes_block resumes _ _).bind fun body => ?_
    refine (ih _ (by omega)).bind fun rest => .pure (fun _ _ even => even.mono (by omega)) ?_
    rw [List.map_cons, Stmt.movedElif, Stmt.movedAll_eq_map]
    rfl

theorem tracks_branch :
    Tracks (Here seam .kwIf depth n) (Even seam depth (n - 1)) seam.placedStmt (branch inner)
      (branch inner') := by
  refine (tracks_advance (by decide)).bind fun token => (repeats_expression _).bind fun test => ?_
  refine tracks_colon.bind fun _ => (resumes_block resumes _ _).bind fun body => ?_
  refine tracks_remaining_even fun m le => ?_
  refine (tracks_elifsUpTo resumes m m (Nat.le_refl m)).bind fun elifs => ?_
  refine tracks_accept_even (by decide) (by decide) ?_ ?_
  · refine tracks_colon.bind fun _ => (resumes_block resumes _ _).bind fun otherwise => ?_
    refine .pure (fun _ _ even => even.mono (by omega)) ?_
    rw [Seam.placedStmt, Stmt.moved, Stmt.movedElifs_eq_map, Stmt.movedOption, Stmt.movedAll_eq_map,
      Stmt.movedAll_eq_map]
    rfl
  · refine .pure (fun _ _ even => even.mono (by omega)) ?_
    rw [Seam.placedStmt, Stmt.moved, Stmt.movedElifs_eq_map, Stmt.movedAll_eq_map]
    rfl

theorem tracks_loopTimes :
    Tracks (Here seam .kwRepeat depth n) (Even seam depth (n - 1)) seam.placedStmt (loopTimes inner)
      (loopTimes inner') := by
  refine (tracks_advance (by decide)).bind fun token => (repeats_expression _).bind fun count => ?_
  refine (tracks_expect (by decide)).bind fun _ => tracks_colon.bind fun _ => ?_
  refine (resumes_block resumes _ _).bind fun body => .pure (fun _ _ even => even.mono (by omega)) ?_
  rw [Seam.placedStmt, Stmt.moved, Stmt.movedAll_eq_map]
  rfl

theorem tracks_loopWhile :
    Tracks (Here seam .kwWhile depth n) (Even seam depth (n - 1)) seam.placedStmt (loopWhile inner)
      (loopWhile inner') := by
  refine (tracks_advance (by decide)).bind fun token => (repeats_expression _).bind fun test => ?_
  have rest (m : Nat) (le : m ≤ n) : Tracks (Live seam depth m) (Even seam depth (n - 1))
      seam.placedStmt
      (do colon; return .loopWhile (tokenPos token) test (← block inner))
      (do
        colon
        return .loopWhile (tokenPos (token.down seam.lines)) (seam.placed test) (← block inner')) := by
    refine tracks_colon.bind fun _ => (resumes_block resumes _ _).bind fun body => ?_
    refine .pure (fun _ _ even => even.mono (by omega)) ?_
    rw [Seam.placedStmt, Stmt.moved, Stmt.movedAll_eq_map]
    rfl
  rw [accept_bind, accept_bind]
  exact tracks_look ((tracks_advance (by decide)).bind fun _ => rest _ (by omega)) (rest _ (by omega))

/-- The bounds of a range in the second text. -/
abbrev Seam.placedBounds (seam : Seam) (bounds : Expr × Expr × Option Expr) :
    Expr × Expr × Option Expr :=
  (seam.placed bounds.1, seam.placed bounds.2.1, bounds.2.2.map seam.placed)

omit resumes in
theorem tracks_rangeBounds :
    Tracks (Live seam depth n) (Live seam depth (n - 1)) (Seam.placedBounds seam) rangeBounds rangeBounds := by
  have closed (m : Nat) (le : m ≤ n) (bounds : Expr × Expr × Option Expr) :
      Tracks (Live seam depth m) (Live seam depth (n - 1)) (Seam.placedBounds seam)
        (do let _ ← expect .rparen; return bounds)
        (do let _ ← expect .rparen; return (Seam.placedBounds seam bounds)) :=
    (tracks_expect (by decide)).bind fun _ => .pure (fun _ _ live => live.mono (by omega)) rfl
  refine (tracks_expect (by decide)).bind fun _ => (repeats_expression _).bind fun first => ?_
  refine tracks_accept (by decide) ?_ ?_
  · refine (repeats_expression _).bind fun stop => tracks_accept (by decide) ?_ ?_
    · exact (repeats_present repeats_expression _).bind fun step =>
        closed _ (by omega) (first, stop, step)
    · exact .bind (.pure (fun _ _ => id) rfl) fun step => closed _ (by omega) (first, stop, step)
  · refine .bind (.pure (fun _ _ => id) ?_) fun bounds => closed _ (by omega) bounds
    simp only [Seam.placedBounds, Seam.placed, Expr.moved, Expr.moved_pos, Option.map_none]

theorem tracks_loopFor :
    Tracks (Here seam .kwFor depth n) (Even seam depth (n - 1)) seam.placedStmt (loopFor inner)
      (loopFor inner') := by
  refine (tracks_advance (by decide)).bind fun token => tracks_expectName.bind fun var => ?_
  refine (tracks_expect (by decide)).bind fun _ => tracks_accept (by decide) ?_ ?_
  · refine tracks_rangeBounds.bind fun bounds => tracks_colon.bind fun _ => ?_
    refine (resumes_block resumes _ _).bind fun body => .pure (fun _ _ even => even.mono (by omega)) ?_
    rw [Seam.placedStmt, Stmt.moved, Stmt.movedAll_eq_map, Expr.movedOption_eq_map]
    rfl
  · refine (repeats_expression _).bind fun items => tracks_colon.bind fun _ => ?_
    refine (resumes_block resumes _ _).bind fun body => .pure (fun _ _ even => even.mono (by omega)) ?_
    rw [Seam.placedStmt, Stmt.moved, Stmt.movedAll_eq_map]
    rfl

omit resumes in
theorem tracks_parameterNames (fuel : Nat) : ∀ n earlier, n ≤ fuel →
    Tracks (Live seam depth n) (Live seam depth (n - 1)) id (parameterNames earlier fuel)
      (parameterNames earlier (fuel + seam.others.length)) := by
  induction fuel with
  | zero => exact fun n _ none => tracks_none none
  | succ fuel ih =>
    intro n earlier enough
    rw [Nat.succ_add]
    refine tracks_expectName.bind fun name => ?_
    rw [id_eq]
    split
    · exact .of_fails (fails_bind fun _ c => fail_run _ _)
    · refine tracks_accept (by decide) ?_ (.pure (fun _ _ => id) rfl)
      exact (ih _ _ (by omega)).looser (by omega)

omit resumes in
theorem tracks_parameters :
    Tracks (Live seam depth n) (Live seam depth (n - 1)) id parameters parameters := by
  have closed (m : Nat) (le : m ≤ n) (names : List Constant) :
      Tracks (Live seam depth m) (Live seam depth (n - 1)) id
        (do let _ ← expect .rparen; return names) (do let _ ← expect .rparen; return names) :=
    (tracks_expect (by decide)).bind fun _ => .pure (fun _ _ live => live.mono (by omega)) rfl
  refine (tracks_expect (by decide)).bind fun _ => tracks_look ?_ ?_
  · exact .bind (.pure (fun _ _ here => here.live_code (by decide)) rfl) (closed _ (by omega))
  · refine tracks_remaining fun m le => ?_
    exact (tracks_parameterNames m m [] (Nat.le_refl m)).bind (closed _ (by omega))

theorem tracks_function :
    Tracks (Here seam .kwDef depth n) (Even seam depth (n - 1)) (Stmt.movedFunc (Pos.down seam.lines))
      (function inner) (function inner') := by
  refine (tracks_advance (by decide)).bind fun token => tracks_expectName.bind fun name => ?_
  refine tracks_parameters.bind fun params => tracks_colon.bind fun _ => ?_
  refine (resumes_block resumes _ _).bind fun body => .pure (fun _ _ even => even.mono (by omega)) ?_
  rw [Stmt.movedFunc, Stmt.movedAll_eq_map]
  rfl

/-- A member of a class in the second text. -/
abbrev Seam.placedMember (seam : Seam) : Option Func → Option Func :=
  Option.map (Stmt.movedFunc (Pos.down seam.lines))

theorem resumes_classMember :
    Resumes seam (Seam.placedMember seam) (classMember inner) (classMember inner') := by
  intro depth n
  refine tracks_look ?_ (tracks_accept (by decide) ?_ tracks_fail)
  · exact (tracks_function resumes).bind fun method => .pure (fun _ _ => id) rfl
  · exact tracks_endOfStatement.bind fun _ => .pure (fun _ _ => id) rfl

theorem tracks_classDefinition :
    Tracks (Here seam .kwClass depth n) (Even seam depth (n - 1)) seam.placedStmt
      (classDefinition inner) (classDefinition inner') := by
  refine (tracks_advance (by decide)).bind fun token => tracks_expectName.bind fun name => ?_
  refine tracks_colon.bind fun _ => ?_
  suffices even : ∀ m, m ≤ n → Tracks (Even seam depth m) (Even seam depth (n - 1)) seam.placedStmt
      (do
        let _ ← expect .newline
        let _ ← expect .indent (some "Indent the methods of the class.")
        let members ← itemsUpTo (classMember inner) (← remaining)
        let _ ← accept .dedent
        return .defineClass (tokenPos token) name (members.filterMap id))
      (do
        let _ ← expect .newline
        let _ ← expect .indent (some "Indent the methods of the class.")
        let members ← itemsUpTo (classMember inner') (← remaining)
        let _ ← accept .dedent
        return .defineClass (tokenPos (token.down seam.lines)) name (members.filterMap id)) from
    (even _ (by omega)).weaken (fun _ _ live => live.toEven) fun _ _ => id
  intro m le
  refine tracks_expect_mark (by decide) (Eq.refl depth) ?_
  refine tracks_expect_mark (k := .indent) (by decide) (Eq.refl (depth + 1)) ?_
  refine tracks_remaining_even fun m le => ?_
  refine (tracks_itemsUpTo (resumes_classMember resumes) m m (Nat.le_refl m)).bind fun members => ?_
  refine tracks_close (.pure (fun _ _ even => even.mono (by omega)) ?_)
  have methods : (members.filterMap id).map (Stmt.movedFunc (Pos.down seam.lines)) =
      (members.map (Seam.placedMember seam)).filterMap id := by
    rw [List.map_filterMap, List.filterMap_map]
    rfl
  rw [Seam.placedStmt, Stmt.moved, Stmt.movedFuncs_eq_map, methods]
  rfl

omit resumes in
theorem tracks_give :
    Tracks (Here seam .kwReturn depth n) (Even seam depth (n - 1)) seam.placedStmt give give := by
  refine (tracks_advance (by decide)).bind fun token => ?_
  have closed (m : Nat) (le : m ≤ n - 1) (value : Option Expr) :
      Tracks (Live seam depth m) (Even seam depth (n - 1)) seam.placedStmt
        (do endOfStatement; return .give (tokenPos token) value)
        (do
          endOfStatement
          return .give (tokenPos (token.down seam.lines)) (value.map seam.placed)) := by
    refine tracks_endOfStatement.bind fun _ => .pure (fun _ _ even => even.mono le) ?_
    rw [Seam.placedStmt, Stmt.moved, Expr.movedOption_eq_map]
    rfl
  intro c d live a c' read
  have kind : d.current.kind = c.current.kind := (live.step fun kind => live.inside (by simp [kind])).1
  rw [bind_of_ok (at_run _), bind_of_ok (at_run _), bind_of_ok (at_run _)] at read ⊢
  rw [kind]
  generalize (c.current.kind == .newline || c.current.kind == .dedent || c.current.kind == .eof) = ends
    at read ⊢
  cases ends with
  | true => exact closed _ (Nat.le_refl _) none c d live a c' read
  | false =>
    exact ((repeats_present repeats_expression _).bind (closed _ (Nat.sub_le _ 1))) c d live a c' read

omit resumes in
theorem tracks_keyword {k : Kind} {form : Pos → Stmt} (code : k.IsCode)
    (placed : ∀ pos, seam.placedStmt (form pos) = form (pos.down seam.lines)) :
    Tracks (Here seam k depth n) (Even seam depth (n - 1)) seam.placedStmt (keyword form)
      (keyword form) := by
  refine (tracks_advance code).bind fun token => tracks_endOfStatement.bind fun _ => ?_
  exact .pure (fun _ _ => id) (placed _)

omit resumes in
theorem code_of_updateOp {k : Kind} {op : UpdateOp} (found : updateOp k = some op) : k.IsCode := by
  cases k <;> first | decide | cases found

omit resumes in
theorem assignment_moved (f : Pos → Pos) (left value : Expr) :
    assignment? (left.moved f) (value.moved f) = (assignment? left value).map (·.moved f) := by
  cases left <;> rfl

omit resumes in
theorem tracks_simple :
    Tracks (Live seam depth n) (Even seam depth (n - 1)) seam.placedStmt simple simple := by
  refine (repeats_expression n).bind fun left => tracks_kind fun k inside => ?_
  cases found : updateOp k with
  | some op =>
    refine (tracks_advance (code_of_updateOp found)).bind fun sign => ?_
    refine (repeats_expression _).bind fun value => tracks_endOfStatement.bind fun _ => ?_
    cases left with
    | var pos name => exact .pure (fun _ _ even => even.mono (by omega)) rfl
    | _ => exact tracks_failAt
  | none =>
    refine .of_live inside (tracks_look ?_ ?_)
    · refine (tracks_advance (by decide)).bind fun sign => (repeats_expression _).bind fun value => ?_
      refine tracks_endOfStatement.bind fun _ => ?_
      rw [assignment_moved]
      cases assignment? left value with
      | some s => exact .pure (fun _ _ even => even.mono (by omega)) rfl
      | none => exact tracks_failAt
    · refine tracks_endOfStatement.bind fun _ => .pure (fun _ _ even => even) ?_
      rw [Seam.placedStmt, Stmt.moved, Expr.moved_pos]

theorem resumes_statementWith :
    Resumes seam seam.placedStmt (statementWith inner) (statementWith inner') := by
  intro depth n
  refine tracks_kind fun k inside => ?_
  split
  · exact tracks_branch resumes
  · exact tracks_loopTimes resumes
  · exact tracks_loopWhile resumes
  · exact tracks_loopFor resumes
  · exact tracks_keyword (by decide) fun _ => rfl
  · exact tracks_keyword (by decide) fun _ => rfl
  · exact tracks_keyword (by decide) fun _ => rfl
  · exact (tracks_function resumes).bind fun f => .pure (fun _ _ => id) rfl
  · exact tracks_classDefinition resumes
  · exact tracks_give
  · exact .of_live inside tracks_simple

end Blocks

theorem resumes_statementUpTo (levels more : Nat) :
    Resumes seam seam.placedStmt (statementUpTo levels) (statementUpTo (levels + more)) := by
  induction levels with
  | zero => cases more <;> exact resumes_statementWith fun _ _ => tracks_fail
  | succ levels ih =>
    rw [Nat.succ_add]
    exact resumes_statementWith ih

theorem resumes_statement : Resumes seam seam.placedStmt statement statement :=
  fun _ _ => tracks_remaining fun m le => (resumes_statementUpTo m _ _ m).even (by omega)

end Parser

end Stepwise
