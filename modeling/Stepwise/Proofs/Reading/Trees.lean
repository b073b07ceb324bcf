import Stepwise.Proofs.Reading.Tokens
import Stepwise.Tree.Parse

/-!
Reading a text gives a shaped program: a cursor over sound tokens stays one, and every parser yields
a shaped tree from it.
-/
namespace Stepwise

structure Cursor.Sound (c : Cursor) : Prop where
  current : c.current.Sound
  rest : ∀ token ∈ c.rest, token.Sound

theorem Cursor.Sound.next {c : Cursor} (sound : c.Sound) : c.next.Sound := by
  unfold Cursor.next
  split
  · exact sound
  split
  · exact sound
  · next token rest same =>
    have rest := sound.rest
    rw [same] at rest
    exact ⟨rest token (by simp), fun t member => rest t (by simp [member])⟩

theorem Token.mark_sound (line column : Option Int) :
    (⟨.eof, .scalar .null, line, column⟩ : Token).Sound :=
  ⟨(by intro same; cases same), (by intro same; cases same), (by intro same; cases same)⟩

theorem Cursor.headed_sound (filename : String) (closed : List Token)
    (all : ∀ token ∈ closed, token.Sound) :
    (match closed with
      | [] => (⟨⟨.eof, .scalar .null, some 1, some 1⟩, [], filename⟩ : Cursor)
      | token :: rest => ⟨token, rest, filename⟩).Sound := by
  cases closed with
  | nil => exact ⟨Token.mark_sound _ _, by simp⟩
  | cons token rest => exact ⟨all token (by simp), fun t member => all t (by simp [member])⟩

theorem Cursor.start_sound {tokens : List Token} (filename : String)
    (sound : ∀ token ∈ tokens, token.Sound) : (Cursor.start tokens filename).Sound := by
  unfold Cursor.start
  apply Cursor.headed_sound
  split
  · intro token member
    rw [List.mem_singleton.mp member]
    exact Token.mark_sound _ _
  split
  · exact sound
  · intro token member
    rcases List.mem_append.mp member with old | new
    · exact sound token old
    · rw [List.mem_singleton.mp new]
      exact Token.mark_sound _ _

/-- What a parser gives from a sound cursor is good, and the cursor stays sound. -/
def Parser.Yields {α : Type} (p : Parser α) (good : α → Prop) : Prop :=
  ∀ c, c.Sound → ∀ a c', p c = .ok (a, c') → good a ∧ c'.Sound

namespace Parser

open Token (Kind)

variable {α β : Type} {good : α → Prop} {fine : β → Prop}

theorem Yields.pure {a : α} (holds : good a) : Yields (pure a) good := by
  intro c sound _ _ same
  cases same
  exact ⟨holds, sound⟩

theorem Yields.bind {p : Parser α} {f : α → Parser β} (first : Yields p good)
    (then_ : ∀ a, good a → Yields (f a) fine) : Yields (p >>= f) fine := by
  intro c sound b c' same
  change (p c >>= fun s => f s.1 s.2) = .ok (b, c') at same
  cases result : p c with
  | error failure =>
    rw [result] at same
    cases same
  | ok pair =>
    rw [result] at same
    obtain ⟨holds, sound⟩ := first c sound pair.1 pair.2 result
    exact then_ pair.1 holds pair.2 sound b c' same

theorem Yields.weaken {p : Parser α} {other : α → Prop} (yields : Yields p good)
    (implied : ∀ a, good a → other a) : Yields p other :=
  fun c sound a c' same => ⟨implied a (yields c sound a c' same).1, (yields c sound a c' same).2⟩

theorem Yields.map {p : Parser α} {f : α → β} (yields : Yields p good)
    (carried : ∀ a, good a → fine (f a)) : Yields (f <$> p) fine := by
  rw [map_eq_pure_bind]
  exact yields.bind fun a holds => .pure (carried a holds)

theorem yields_lift {x : Except Failure α} : Yields (liftM x : Parser α) fun _ => True := by
  intro c sound a c' same
  cases x with
  | error failure => cases same
  | ok a' =>
    cases same
    exact ⟨trivial, sound⟩

theorem yields_current : Yields current Token.Sound := by
  intro c sound a c' same
  cases same
  exact ⟨sound.current, sound⟩

theorem yields_kind : Yields kind fun _ => True := by
  intro c sound a c' same
  cases same
  exact ⟨trivial, sound⟩

theorem yields_at {k : Kind} : Yields (at? k) fun _ => True := by
  intro c sound a c' same
  cases same
  exact ⟨trivial, sound⟩

theorem yields_remaining : Yields remaining fun _ => True := by
  intro c sound a c' same
  cases same
  exact ⟨trivial, sound⟩

theorem yields_advance : Yields advance Token.Sound := by
  intro c sound a c' same
  cases same
  exact ⟨sound.current, sound.next⟩

theorem yields_accept {k : Kind} : Yields (accept k) fun _ => True := by
  refine yields_at.bind fun here _ => ?_
  split
  · exact yields_advance.bind fun _ _ => .pure trivial
  · exact .pure trivial

theorem yields_failAt {token : Token} {message : String} {suggestion : Option String} :
    Yields (failAt token message suggestion : Parser α) good := by
  intro c _ a c' same
  cases same

theorem yields_fail {message : String} {suggestion : Option String} :
    Yields (fail message suggestion : Parser α) good :=
  yields_current.bind fun _ _ => yields_failAt

theorem yields_describe {token : Token} : Yields (describe token) fun _ => True := by
  unfold describe
  split
  · exact .pure trivial
  · exact .pure trivial
  · exact .pure trivial
  · exact .pure trivial
  split
  · exact .pure trivial
  · exact yields_lift.bind fun _ _ => .pure trivial

theorem yields_expect {k : Kind} {suggestion : Option String} :
    Yields (expect k suggestion) fun token => token.Sound ∧ token.kind = k := by
  have fails : Yields (do
      let found ← describe (← current)
      fail s!"Expected {expectedName k} but found {found}" suggestion : Parser Token)
      fun token => token.Sound ∧ token.kind = k :=
    yields_current.bind fun _ _ => yields_describe.bind fun _ _ => yields_fail
  intro c sound a c' same
  change (if c.current.kind == k then (advance : Parser Token) else _) c = _ at same
  split at same
  next here =>
    have same : Except.ok (c.current, c.next) = .ok (a, c') := same
    cases same
    exact ⟨⟨sound.current, beq_iff_eq.mp here⟩, sound.next⟩
  next => exact fails c sound a c' same

theorem yields_expectName {suggestion : Option String} :
    Yields (expectName suggestion) Constant.IsName :=
  yields_expect.bind fun _ found => .pure (found.1.name found.2)

theorem yields_commaSeparated {item : Parser α} (yields : Yields item good) (fuel : Nat) :
    Yields (commaSeparated item fuel) fun items => ∀ a ∈ items, good a := by
  induction fuel with
  | zero => exact .pure (by simp)
  | succ fuel ih =>
    refine yields.bind fun first holds => yields_accept.bind fun more _ => ?_
    split
    · exact ih.bind fun rest others => .pure (by simpa [holds] using others)
    · exact .pure (by simp [holds])

theorem yields_listUntil {close : Kind} {suggestion : Option String} {item : Parser α}
    (yields : Yields item good) :
    Yields (listUntil close suggestion item) fun items => ∀ a ∈ items, good a := by
  have closed (items : List α) (all : ∀ a ∈ items, good a) :
      Yields (do let _ ← expect close suggestion; return items : Parser (List α))
        fun items => ∀ a ∈ items, good a := yields_expect.bind fun _ _ => .pure all
  refine yields_at.bind fun empty _ => ?_
  dsimp only
  split
  · exact (Yields.pure (by simp)).bind closed
  · refine yields_remaining.bind fun n _ => ?_
    exact (yields_commaSeparated yields n).bind closed

/-- A shaped expression all the way down. -/
abbrev Shaped (e : Expr) : Prop := e.Every Expr.Shaped

theorem yields_leftTail {op? : Kind → Option BinaryOp} (known : ∀ k op, op? k = some op → op.IsKnown)
    {operand : Parser Expr} (yields : Yields operand Shaped) (fuel : Nat) :
    ∀ left, Shaped left → Yields (leftTail op? operand fuel left) Shaped := by
  induction fuel with
  | zero => exact fun left shaped => .pure shaped
  | succ fuel ih =>
    intro left shaped
    refine yields_kind.bind fun k _ => ?_
    split
    · exact .pure shaped
    · next op found =>
      refine yields_advance.bind fun _ _ => yields.bind fun right other => ?_
      exact ih _ ⟨known _ _ found, shaped, other⟩

theorem yields_leftLevel {op? : Kind → Option BinaryOp}
    (known : ∀ k op, op? k = some op → op.IsKnown) {operand : Parser Expr}
    (yields : Yields operand Shaped) : Yields (leftLevel op? operand) Shaped :=
  yields.bind fun left shaped =>
    yields_remaining.bind fun n _ => yields_leftTail known yields n left shaped

theorem comparisonOp_known (k : Kind) (op : BinaryOp) (found : comparisonOp k = some op) :
    op.IsKnown := by
  cases k <;> cases found <;> trivial

theorem sumOp_known (k : Kind) (op : BinaryOp) (found : sumOp k = some op) : op.IsKnown := by
  cases k <;> cases found <;> trivial

theorem termOp_known (k : Kind) (op : BinaryOp) (found : termOp k = some op) : op.IsKnown := by
  cases k <;> cases found <;> trivial

theorem orOp_known (k : Kind) (op : BinaryOp) (found : orOp k = some op) : op.IsKnown := by
  cases k <;> cases found
  trivial

theorem andOp_known (k : Kind) (op : BinaryOp) (found : andOp k = some op) : op.IsKnown := by
  cases k <;> cases found
  trivial

section Expressions

variable {whole : Parser Expr} (yields : Yields whole Shaped)
include yields

theorem yields_arguments : Yields (arguments whole) (Expr.EveryIn Expr.Shaped) :=
  (yields_listUntil yields).weaken fun args all => (Expr.everyIn_iff _ args).mpr all

theorem yields_recordEntry : Yields (recordEntry whole) fun entry =>
    entry.1.IsText ∧ Shaped entry.2 := by
  refine yields_current.bind fun token sound => ?_
  split
  · next keyed =>
    have text : token.literal.IsText := by
      simp only [Bool.or_eq_true, decide_eq_true_eq] at keyed
      rcases keyed with name | string
      · exact (sound.name name).isText
      · exact sound.string string
    refine yields_advance.bind fun _ _ => yields_expect.bind fun _ _ => ?_
    exact yields.bind fun e shaped => .pure ⟨text, shaped⟩
  · exact yields_fail

theorem yields_atom : Yields (atom whole) Shaped := by
  refine yields_current.bind fun token sound => ?_
  dsimp only
  split
  · next kind =>
    exact yields_advance.bind fun _ _ => .pure (sound.number kind)
  · next kind =>
    exact yields_advance.bind fun _ _ => .pure (sound.string kind)
  · exact yields_advance.bind fun _ _ => .pure ⟨true, rfl⟩
  · exact yields_advance.bind fun _ _ => .pure ⟨false, rfl⟩
  · refine yields_advance.bind fun _ _ => yields.bind fun e shaped => ?_
    exact yields_expect.bind fun _ _ => .pure shaped
  · refine yields_advance.bind fun _ _ => (yields_listUntil yields).bind fun elements all => ?_
    exact .pure ⟨trivial, (Expr.everyIn_iff _ _).mpr all⟩
  · refine yields_advance.bind fun _ _ => ?_
    refine (yields_listUntil (yields_recordEntry yields)).bind fun entries all => ?_
    exact .pure ⟨fun entry member => (all entry member).1,
      (Expr.everyEntry_iff _ _).mpr fun entry member => (all entry member).2⟩
  · next kind =>
    refine yields_advance.bind fun _ _ => yields_accept.bind fun called _ => ?_
    split
    · exact (yields_arguments yields).bind fun args all => .pure ⟨sound.name kind, all⟩
    · exact .pure (sound.name kind)
  · exact yields_fail
  · exact yields_describe.bind fun _ _ => yields_fail

theorem yields_subscript {object : Expr} (shaped : Shaped object) :
    Yields (subscript whole object) Shaped := by
  have absent : Yields (pure none : Parser (Option Expr)) (Expr.EveryBound Expr.Shaped) :=
    .pure trivial
  have present : Yields (some <$> whole : Parser (Option Expr)) (Expr.EveryBound Expr.Shaped) :=
    yields.map fun e shaped => shaped
  have closed (start stop : Option Expr) (lower : Expr.EveryBound Expr.Shaped start)
      (upper : Expr.EveryBound Expr.Shaped stop) : Yields (do
        let _ ← expect .rbracket (some "Close the index with ']'.")
        return .slice object.pos object start stop : Parser Expr) Shaped :=
    yields_expect.bind fun _ _ => .pure ⟨trivial, shaped, lower, upper⟩
  have slice (start : Option Expr) (lower : Expr.EveryBound Expr.Shaped start) :
      Yields (do
        let _ ← expect .colon
        let stop ← if ← at? .rbracket then pure none else some <$> whole
        let _ ← expect .rbracket (some "Close the index with ']'.")
        return .slice object.pos object start stop : Parser Expr) Shaped := by
    refine yields_expect.bind fun _ _ => yields_at.bind fun here _ => ?_
    dsimp only
    split
    · exact absent.bind fun stop upper => closed start stop lower upper
    · exact present.bind fun stop upper => closed start stop lower upper
  refine yields_at.bind fun open_ _ => ?_
  split
  · exact slice none trivial
  · refine yields.bind fun position other => yields_accept.bind fun closed _ => ?_
    split
    · exact .pure ⟨trivial, shaped, other⟩
    · exact slice (some position) other

theorem yields_suffixes (fuel : Nat) :
    ∀ e, Shaped e → Yields (suffixes whole fuel e) Shaped := by
  induction fuel with
  | zero => exact fun e shaped => .pure shaped
  | succ fuel ih =>
    intro e shaped
    refine yields_accept.bind fun bracket _ => ?_
    split
    · exact (yields_subscript yields shaped).bind fun e shaped => ih e shaped
    · refine yields_accept.bind fun dot _ => ?_
      split
      · refine yields_expectName.bind fun name isName => yields_accept.bind fun called _ => ?_
        split
        · exact (yields_arguments yields).bind fun args all => ih _ ⟨isName, shaped, all⟩
        · exact ih _ ⟨isName, shaped⟩
      · exact .pure shaped

theorem yields_suffixed : Yields (suffixed whole) Shaped :=
  (yields_atom yields).bind fun e shaped =>
    yields_remaining.bind fun n _ => yields_suffixes yields n e shaped

theorem yields_signed (fuel : Nat) : Yields (signed whole fuel) Shaped := by
  induction fuel with
  | zero => exact yields_suffixed yields
  | succ fuel ih =>
    refine yields_at.bind fun minus _ => ?_
    split
    · exact yields_advance.bind fun _ _ => ih.bind fun e shaped => .pure ⟨trivial, shaped⟩
    · refine (yields_suffixed yields).bind fun base shaped => yields_accept.bind fun power _ => ?_
      split
      · exact ih.bind fun e other => .pure ⟨trivial, shaped, other⟩
      · exact .pure shaped

theorem yields_comparison : Yields (comparison whole) Shaped := by
  refine yields_leftLevel comparisonOp_known (yields_leftLevel sumOp_known ?_)
  exact yields_leftLevel termOp_known (yields_remaining.bind fun n _ => yields_signed yields n)

theorem yields_negation (fuel : Nat) : Yields (negation whole fuel) Shaped := by
  induction fuel with
  | zero => exact yields_comparison yields
  | succ fuel ih =>
    refine yields_at.bind fun not _ => ?_
    split
    · exact yields_advance.bind fun _ _ => ih.bind fun e shaped => .pure ⟨trivial, shaped⟩
    · exact yields_comparison yields

theorem yields_disjunction : Yields (disjunction whole) Shaped := by
  refine yields_leftLevel orOp_known (yields_leftLevel andOp_known ?_)
  exact yields_remaining.bind fun n _ => yields_negation yields n

end Expressions

theorem yields_expression : Yields expression Shaped := by
  have nested (depth : Nat) : Yields (nested depth) Shaped := by
    induction depth with
    | zero => exact yields_disjunction yields_fail
    | succ depth ih => exact yields_disjunction ih
  exact yields_remaining.bind fun n _ => nested n

/-- What reading guarantees of a statement, apart from what is inside it: good names, and blocks
that are not empty. -/
abbrev Formed (s : Stmt) : Prop := s.Shaped ∧ s.Filled

/-- A shaped statement all the way down. -/
abbrev ShapedStmt (s : Stmt) : Prop := s.Every Expr.Shaped Formed

abbrev ShapedBlock (ss : List Stmt) : Prop := Stmt.EveryIn Expr.Shaped Formed ss

/-- A function whose names and whose body are shaped. -/
abbrev ShapedFunc (f : Func) : Prop :=
  f.Shaped ∧ f.body ≠ [] ∧ Func.Every Expr.Shaped Formed f

theorem yields_endOfStatement : Yields endOfStatement fun _ => True := by
  refine yields_at.bind fun _ _ => yields_at.bind fun _ _ => ?_
  split
  · exact .pure trivial
  · refine yields_accept.bind fun _ _ => ?_
    split
    · exact .pure trivial
    · exact yields_current.bind fun _ _ => yields_describe.bind fun _ _ => yields_fail

theorem yields_skipNewlines : Yields skipNewlines fun _ => True := by
  have upTo (fuel : Nat) : Yields (skipNewlinesUpTo fuel) fun _ => True := by
    induction fuel with
    | zero => exact .pure trivial
    | succ fuel ih =>
      refine yields_accept.bind fun _ _ => ?_
      split
      · exact ih
      · exact .pure trivial
  exact yields_remaining.bind fun n _ => upTo n

theorem yields_itemsUpTo {item : Parser α} (yields : Yields item good) (fuel : Nat) :
    Yields (itemsUpTo item fuel) fun items => ∀ a ∈ items, good a := by
  induction fuel with
  | zero => exact .pure (by simp)
  | succ fuel ih =>
    refine yields_at.bind fun _ _ => yields_at.bind fun _ _ => ?_
    split
    · exact .pure (by simp)
    · refine yields.bind fun first holds => yields_skipNewlines.bind fun _ _ => ?_
      exact ih.bind fun rest others => .pure (by simpa [holds] using others)

theorem yields_colon : Yields colon fun _ => True :=
  yields_expect.bind fun _ _ => .pure trivial

theorem yields_give : Yields give ShapedStmt := by
  have ended (pos : Pos) (value : Option Expr) (shaped : Expr.EveryBound Expr.Shaped value) :
      Yields (do endOfStatement; return .give pos value : Parser Stmt) ShapedStmt :=
    yields_endOfStatement.bind fun _ _ => .pure ⟨⟨trivial, trivial⟩, shaped⟩
  have absent : Yields (pure none : Parser (Option Expr)) (Expr.EveryBound Expr.Shaped) :=
    .pure trivial
  have present : Yields (some <$> expression : Parser (Option Expr))
      (Expr.EveryBound Expr.Shaped) := yields_expression.map fun e shaped => shaped
  refine yields_advance.bind fun token _ => yields_at.bind fun _ _ => ?_
  refine yields_at.bind fun _ _ => yields_at.bind fun _ _ => ?_
  dsimp only
  split
  · exact absent.bind (ended _)
  · exact present.bind (ended _)

theorem yields_keyword {form : Pos → Stmt} (shaped : ∀ pos, ShapedStmt (form pos)) :
    Yields (keyword form) ShapedStmt :=
  yields_advance.bind fun _ _ => yields_endOfStatement.bind fun _ _ => .pure (shaped _)

theorem updateOp_known (k : Kind) (op : UpdateOp) (found : updateOp k = some op) :
    op.IsKnown := by
  cases k <;> cases found <;> trivial

theorem assignment_shaped {left value : Expr} {s : Stmt} (found : assignment? left value = some s)
    (target : Shaped left) (shaped : Shaped value) : ShapedStmt s := by
  unfold assignment? at found
  split at found
  · cases found
    exact ⟨⟨target, trivial⟩, shaped⟩
  · cases found
    exact ⟨⟨trivial, trivial⟩, target.2.1, target.2.2, shaped⟩
  · cases found
    exact ⟨⟨target.1, trivial⟩, target.2, shaped⟩
  · cases found

theorem yields_simple : Yields simple ShapedStmt := by
  refine yields_expression.bind fun left target => yields_kind.bind fun k _ => ?_
  split
  · next op found =>
    refine yields_advance.bind fun _ _ => yields_expression.bind fun value shaped => ?_
    refine yields_endOfStatement.bind fun _ _ => ?_
    split
    · exact .pure ⟨⟨⟨target, updateOp_known _ _ found⟩, trivial⟩, shaped⟩
    · exact yields_failAt
  · refine yields_at.bind fun _ _ => ?_
    split
    · refine yields_advance.bind fun _ _ => yields_expression.bind fun value shaped => ?_
      refine yields_endOfStatement.bind fun _ _ => ?_
      split
      · next s found => exact .pure (assignment_shaped found target shaped)
      · exact yields_failAt
    · exact yields_endOfStatement.bind fun _ _ => .pure ⟨⟨trivial, trivial⟩, target⟩

/-- Names that differ as names are different. -/
theorem not_mem_of_same {names : List Constant} {name : Constant} (isName : name.IsName)
    (differs : ¬names.any name.same) : name ∉ names := by
  intro member
  apply differs
  obtain ⟨s, rfl, -⟩ := isName
  exact List.any_eq_true.mpr ⟨_, member, by simp [Constant.same, Scalar.same]⟩

theorem yields_parameterNames (fuel : Nat) : ∀ earlier : List Constant,
    (∀ param ∈ earlier, param.IsName) → earlier.Nodup →
    Yields (parameterNames earlier fuel) fun params =>
      (∀ param ∈ params, param.IsName) ∧ params.Nodup := by
  induction fuel with
  | zero => exact fun earlier names nodup => .pure ⟨names, nodup⟩
  | succ fuel ih =>
    intro earlier names nodup
    refine yields_expectName.bind fun name isName => ?_
    split
    · exact yields_lift.bind fun _ _ => yields_fail
    · next differs =>
      have longer : ∀ param ∈ earlier ++ [name], param.IsName := by
        intro param member
        rcases List.mem_append.mp member with old | new
        · exact names param old
        · rwa [List.mem_singleton.mp new]
      have fresh : (earlier ++ [name]).Nodup := by
        refine List.nodup_append.mpr ⟨nodup, by simp, ?_⟩
        intro param old other new same
        rw [same, List.mem_singleton.mp new] at old
        exact not_mem_of_same isName differs old
      refine yields_accept.bind fun _ _ => ?_
      split
      · exact ih _ longer fresh
      · exact .pure ⟨longer, fresh⟩

theorem yields_parameters : Yields parameters fun params =>
    (∀ param ∈ params, param.IsName) ∧ params.Nodup := by
  have closed (params : List Constant) (good : (∀ param ∈ params, param.IsName) ∧ params.Nodup) :
      Yields (do let _ ← expect .rparen; return params : Parser (List Constant)) fun params =>
        (∀ param ∈ params, param.IsName) ∧ params.Nodup :=
    yields_expect.bind fun _ _ => .pure good
  refine yields_expect.bind fun _ _ => yields_at.bind fun _ _ => ?_
  dsimp only
  split
  · exact (Yields.pure ⟨by simp, .nil⟩).bind closed
  · refine yields_remaining.bind fun n _ => ?_
    exact (yields_parameterNames n [] (by simp) .nil).bind closed

section Statements

variable {inner : Parser Stmt} (yields : Yields inner ShapedStmt)
include yields

theorem yields_block : Yields (block inner) fun body => body ≠ [] ∧ ShapedBlock body := by
  refine yields_expect.bind fun _ _ => yields_at.bind fun _ _ => ?_
  split
  · refine yields_advance.bind fun _ _ => yields_remaining.bind fun n _ => ?_
    refine (yields_itemsUpTo yields n).bind fun ss all => yields_accept.bind fun _ _ => ?_
    split
    · exact yields_fail
    next filled =>
      exact .pure ⟨by simpa using filled, (Stmt.everyIn_iff _ _ _).mpr all⟩
  · exact yields_fail

theorem yields_elifsUpTo (fuel : Nat) :
    Yields (elifsUpTo inner fuel) fun elifs =>
      (∀ e ∈ elifs, e.body ≠ []) ∧ Stmt.EveryElif Expr.Shaped Formed elifs := by
  induction fuel with
  | zero => exact .pure ⟨by simp, trivial⟩
  | succ fuel ih =>
    refine yields_at.bind fun _ _ => ?_
    split
    · refine yields_advance.bind fun _ _ => yields_expression.bind fun test shaped => ?_
      refine yields_colon.bind fun _ _ => (yields_block yields).bind fun body all => ?_
      refine ih.bind fun elifs others => .pure ⟨fun e member => ?_, ⟨shaped, all.2⟩, others.2⟩
      rcases List.mem_cons.mp member with rfl | member
      · exact all.1
      · exact others.1 e member
    · exact .pure ⟨by simp, trivial⟩

theorem yields_branch : Yields (branch inner) ShapedStmt := by
  refine yields_advance.bind fun _ _ => yields_expression.bind fun test shaped => ?_
  refine yields_colon.bind fun _ _ => (yields_block yields).bind fun body all => ?_
  refine yields_remaining.bind fun n _ => (yields_elifsUpTo yields n).bind fun elifs others => ?_
  refine yields_accept.bind fun _ _ => ?_
  split
  · refine yields_colon.bind fun _ _ => (yields_block yields).bind fun body last => ?_
    have filled : some body ≠ some [] := fun same => last.1 (Option.some.inj same)
    exact .pure ⟨⟨trivial, all.1, others.1, filled⟩, shaped, all.2, others.2, last.2⟩
  · have filled : (none : Option (List Stmt)) ≠ some [] := fun same => nomatch same
    exact .pure ⟨⟨trivial, all.1, others.1, filled⟩, shaped, all.2, others.2, trivial⟩

theorem yields_loopTimes : Yields (loopTimes inner) ShapedStmt := by
  refine yields_advance.bind fun _ _ => yields_expression.bind fun count shaped => ?_
  refine yields_expect.bind fun _ _ => yields_colon.bind fun _ _ => ?_
  exact (yields_block yields).bind fun body all => .pure ⟨⟨trivial, all.1⟩, shaped, all.2⟩

theorem yields_loopWhile : Yields (loopWhile inner) ShapedStmt := by
  refine yields_advance.bind fun _ _ => yields_expression.bind fun test shaped => ?_
  refine yields_accept.bind fun _ _ => yields_colon.bind fun _ _ => ?_
  exact (yields_block yields).bind fun body all => .pure ⟨⟨trivial, all.1⟩, shaped, all.2⟩

omit yields in
theorem yields_rangeBounds : Yields rangeBounds fun bounds =>
    Shaped bounds.1 ∧ Shaped bounds.2.1 ∧ Expr.EveryBound Expr.Shaped bounds.2.2 := by
  have closed (bounds : Expr × Expr × Option Expr)
      (good : Shaped bounds.1 ∧ Shaped bounds.2.1 ∧ Expr.EveryBound Expr.Shaped bounds.2.2) :
      Yields (do let _ ← expect .rparen; return bounds : Parser (Expr × Expr × Option Expr))
        fun bounds =>
          Shaped bounds.1 ∧ Shaped bounds.2.1 ∧ Expr.EveryBound Expr.Shaped bounds.2.2 :=
    yields_expect.bind fun _ _ => .pure good
  refine yields_expect.bind fun _ _ => yields_expression.bind fun first shaped => ?_
  refine yields_accept.bind fun _ _ => ?_
  dsimp only
  split
  · refine yields_expression.bind fun stop other => yields_accept.bind fun _ _ => ?_
    split
    · refine Yields.bind (yields_expression.map fun e shaped => ?_) fun step given =>
        (Yields.pure ⟨shaped, other, given⟩).bind closed
      exact shaped
    · exact (Yields.pure trivial).bind fun step given =>
        (Yields.pure ⟨shaped, other, given⟩).bind closed
  · exact (Yields.pure ⟨⟨_, rfl⟩, shaped, trivial⟩).bind closed

theorem yields_loopFor : Yields (loopFor inner) ShapedStmt := by
  refine yields_advance.bind fun _ _ => yields_expectName.bind fun var isName => ?_
  refine yields_expect.bind fun _ _ => yields_accept.bind fun _ _ => ?_
  split
  · refine yields_rangeBounds.bind fun bounds shaped => yields_colon.bind fun _ _ => ?_
    refine (yields_block yields).bind fun body all => ?_
    exact .pure ⟨⟨isName, all.1⟩, shaped.1, shaped.2.1, shaped.2.2, all.2⟩
  · refine yields_expression.bind fun items shaped => yields_colon.bind fun _ _ => ?_
    exact (yields_block yields).bind fun body all => .pure ⟨⟨isName, all.1⟩, shaped, all.2⟩

theorem yields_function : Yields (function inner) ShapedFunc := by
  refine yields_advance.bind fun _ _ => yields_expectName.bind fun name isName => ?_
  refine yields_parameters.bind fun params names => yields_colon.bind fun _ _ => ?_
  exact (yields_block yields).bind fun body all => .pure ⟨⟨isName, names.1, names.2⟩, all⟩

theorem yields_classMember : Yields (classMember inner) fun member =>
    ∀ f, member = some f → ShapedFunc f := by
  refine yields_at.bind fun _ _ => ?_
  split
  · refine (yields_function yields).bind fun f shaped => .pure ?_
    intro g same
    cases same
    exact shaped
  · refine yields_accept.bind fun _ _ => ?_
    split
    · exact yields_endOfStatement.bind fun _ _ => .pure (by simp)
    · exact yields_fail

theorem yields_classDefinition : Yields (classDefinition inner) ShapedStmt := by
  refine yields_advance.bind fun _ _ => yields_expectName.bind fun name isName => ?_
  refine yields_colon.bind fun _ _ => yields_expect.bind fun _ _ => ?_
  refine yields_expect.bind fun _ _ => yields_remaining.bind fun n _ => ?_
  refine (yields_itemsUpTo (yields_classMember yields) n).bind fun members all => ?_
  refine yields_accept.bind fun _ _ => .pure ?_
  have methods : ∀ f ∈ members.filterMap id, ShapedFunc f := by
    intro f member
    obtain ⟨found, inside, same⟩ := List.mem_filterMap.mp member
    exact all found inside f same
  exact ⟨⟨⟨isName, fun f member => (methods f member).1⟩, fun f member => (methods f member).2.1⟩,
    (Func.everyIn_iff _ _ _).mpr fun f member => (methods f member).2.2⟩

theorem yields_statementWith : Yields (statementWith inner) ShapedStmt := by
  refine yields_kind.bind fun k _ => ?_
  split
  · exact yields_branch yields
  · exact yields_loopTimes yields
  · exact yields_loopWhile yields
  · exact yields_loopFor yields
  · exact yields_keyword fun _ => ⟨trivial, trivial⟩
  · exact yields_keyword fun _ => ⟨trivial, trivial⟩
  · exact yields_keyword fun _ => ⟨trivial, trivial⟩
  · exact (yields_function yields).bind fun f shaped =>
      .pure ⟨⟨shaped.1, shaped.2.1⟩, shaped.2.2⟩
  · exact yields_classDefinition yields
  · exact yields_give
  · exact yields_simple

end Statements

theorem yields_statement : Yields statement ShapedStmt := by
  have upTo (depth : Nat) : Yields (statementUpTo depth) ShapedStmt := by
    induction depth with
    | zero => exact yields_statementWith yields_fail
    | succ depth ih => exact yields_statementWith ih
  exact yields_remaining.bind fun n _ => upTo n

theorem yields_program : Yields program fun p => p.Every Expr.Shaped Formed := by
  have upTo (fuel : Nat) : Yields (statementsUpTo fuel) ShapedBlock := by
    induction fuel with
    | zero => exact .pure trivial
    | succ fuel ih =>
      refine yields_at.bind fun _ _ => ?_
      split
      · exact .pure trivial
      · refine yields_at.bind fun _ _ => ?_
        split
        · exact yields_fail
        · refine yields_statement.bind fun first shaped => yields_skipNewlines.bind fun _ _ => ?_
          exact ih.bind fun rest others => .pure ⟨shaped, others⟩
  refine yields_skipNewlines.bind fun _ _ => yields_remaining.bind fun n _ => ?_
  exact (upTo n).bind fun body all => .pure all

end Parser

theorem Program.parse_formed {source filename : String} {program : Program}
    (read : Program.parse source filename = .ok program) :
    program.Every Expr.Shaped Parser.Formed := by
  unfold Program.parse at read
  cases scanned : Token.tokenize source filename with
  | error failure =>
    rw [scanned] at read
    cases read
  | ok tokens =>
    rw [scanned] at read
    change Program.ofTokens tokens filename = .ok program at read
    unfold Program.ofTokens at read
    have sound := Cursor.start_sound filename (Token.tokenize_sound scanned)
    cases result : Parser.program (Cursor.start tokens filename) with
    | error failure =>
      rw [StateT.run, result] at read
      cases read
    | ok pair =>
      rw [StateT.run, result] at read
      cases read
      exact (Parser.yields_program _ sound _ _ result).1

/-- What is read from a text is shaped like a program of the language. -/
theorem Program.parse_shaped {source filename : String} {program : Program}
    (read : Program.parse source filename = .ok program) : program.Shaped :=
  Stmt.EveryIn.imp (fun _ formed => formed.1) program.body (Program.parse_formed read)

end Stepwise
