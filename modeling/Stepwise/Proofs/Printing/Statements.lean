import Stepwise.Proofs.Printing.Expressions
import Stepwise.Proofs.Printing.Lines
import Stepwise.Tree.Parse

/-!
Reading statements from their tokens. A block is read whole when each of its statements is, and a
statement when its expressions and its blocks are: one lemma for each form.
-/
namespace Stepwise

namespace Parser

open Token (Kind)
open Grammar

variable {α β : Type} {inner : Parser Stmt}

/-- The reader gives the tree and stands behind the tokens, wherever one of some kinds follows. -/
def Takes (p : Parser α) (unplaced : α → β) (follows : Kind → Prop) (w : List Token) (b : β) :
    Prop :=
  ∀ c c' : Cursor, c.Passes w c' → follows c'.current.kind →
    ∃ a, p c = .ok (a, c') ∧ unplaced a = b

/-- A kind that does not go on with a statement. -/
def Fresh (k : Kind) : Prop := k ∉ [.newline, .kwElif, .kwElse]

/-- A kind that can stand first in a statement. -/
def Starts (k : Kind) : Prop := Fresh k ∧ k ∉ [.indent, .dedent, .eof]

/-- The kinds that an expression starts with. -/
def openers : List Kind :=
  [.number, .string, .kwTrue, .kwFalse, .identifier, .lparen, .lbracket, .lbrace, .minus, .kwNot]

theorem opener_of_reads {w : List Token} {e : Expr} (reads : Reads .or w e) :
    ∃ t u, w = t :: u ∧ t.kind ∈ openers := by
  obtain ⟨t, u, same, opens⟩ := reads.opening
  refine ⟨t, u, same, ?_⟩
  rcases opens with atom | ⟨minus, -⟩ | ⟨negated, -⟩
  · exact List.mem_append_left [Kind.minus, .kwNot] atom
  · simp [minus, openers]
  · simp [negated, openers]

theorem current_opens {w : List Token} {e : Expr} (reads : Reads .or w e) {c c' : Cursor}
    (passes : c.Passes w c') : c.current.kind ∈ openers := by
  obtain ⟨t, u, rfl, opens⟩ := opener_of_reads reads
  rwa [passes.current]

/-- Tokens that are read as an item, with a kind in front that can stand there. -/
structure Piece (item : Parser α) (unplaced : α → β) (w : List Token) (b : β) : Prop where
  takes : Takes item unplaced Fresh w b
  starts : ∃ t u, w = t :: u ∧ Starts t.kind

theorem endOfStatement_run {c c' : Cursor} {t : Token} (kind : t.kind = .newline)
    (passes : c.Passes [t] c') : endOfStatement c = .ok ((), c') := by
  have here : c.current.kind = .newline := by rw [passes.current, kind]
  have behind : c.next = c' := (passes.next (by simp [kind])).eq
  unfold endOfStatement
  rw [bind_of_ok (at_run _), bind_of_ok (at_run _), here, if_neg (by decide),
    bind_of_ok (accept_of_eq here), behind]
  rfl

theorem skipNewlines_run {c : Cursor} (elsewhere : c.current.kind ≠ .newline) :
    skipNewlines c = .ok ((), c) := by
  unfold skipNewlines
  rw [bind_of_ok remaining_run]
  cases c.tokens.length with
  | zero => rfl
  | succ n =>
    unfold skipNewlinesUpTo
    rw [bind_of_ok (accept_of_ne elsewhere)]
    rfl

/-- In front of items stands the first of them, or what follows them. -/
theorem current_of_pieces {item : Parser α} {unplaced : α → β} {pieces : List (List Token × β)}
    (good : ∀ piece ∈ pieces, Piece item unplaced piece.1 piece.2) {c c' : Cursor}
    (passes : c.Passes (pieces.map Prod.fst).flatten c') :
    Starts c.current.kind ∨ c = c' := by
  cases pieces with
  | nil => exact .inr passes.eq
  | cons piece rest =>
    obtain ⟨t, u, same, starts⟩ := (good piece (by simp)).starts
    rw [List.map_cons, List.flatten_cons, same] at passes
    exact .inl (passes.current ▸ starts)

/-- Items up to the end of a block are read one by one. -/
theorem items_run {item : Parser α} {unplaced : α → β} {pieces : List (List Token × β)}
    (good : ∀ piece ∈ pieces, Piece item unplaced piece.1 piece.2) (fuel : Nat)
    (enough : pieces.length ≤ fuel) {c c' : Cursor}
    (passes : c.Passes (pieces.map Prod.fst).flatten c') (ended : c'.current.kind = .dedent) :
    ∃ as, itemsUpTo item fuel c = .ok (as, c') ∧ as.map unplaced = pieces.map Prod.snd := by
  induction pieces generalizing fuel c with
  | nil =>
    cases passes.eq
    refine ⟨[], ?_, rfl⟩
    cases fuel with
    | zero => rfl
    | succ fuel =>
      unfold itemsUpTo
      rw [bind_of_ok (at_run _), bind_of_ok (at_run _), ended]
      rfl
  | cons piece rest ih =>
    obtain ⟨fuel, rfl⟩ : ∃ k, fuel = k + 1 := ⟨fuel - 1, by simp at enough; omega⟩
    have first := good piece (by simp)
    have others : ∀ piece ∈ rest, Piece item unplaced piece.1 piece.2 :=
      fun piece member => good piece (by simp [member])
    have starts : Starts c.current.kind := by
      obtain ⟨t, u, same, starts⟩ := first.starts
      rw [List.map_cons, List.flatten_cons, same] at passes
      exact passes.current ▸ starts
    obtain ⟨m, passed, passes⟩ := passes.split
    have fresh : Fresh m.current.kind := by
      rcases current_of_pieces others passes with starts | rfl
      · exact starts.1
      · simp [Fresh, ended]
    obtain ⟨a, read, same⟩ := first.takes c m passed fresh
    obtain ⟨as, readRest, sames⟩ := ih others fuel (by simpa using enough) passes
    refine ⟨a :: as, ?_, by simp [same, sames]⟩
    unfold itemsUpTo
    rw [bind_of_ok (at_run _), bind_of_ok (at_run _), if_neg ?_, bind_of_ok read,
      bind_of_ok (skipNewlines_run fun feed => fresh (by simp [feed])), bind_of_ok readRest]
    · rfl
    · rw [Bool.or_eq_true, beq_iff_eq, beq_iff_eq]
      rintro (same | same) <;> exact starts.2 (by simp [same])

theorem length_le_flatten {ws : List (List Token)} (filled : ∀ w ∈ ws, 0 < w.length) :
    ws.length ≤ ws.flatten.length := by
  induction ws with
  | nil => simp
  | cons w ws ih =>
    have first := filled w (by simp)
    have others := ih fun w member => filled w (by simp [member])
    rw [List.flatten_cons, List.length_append, List.length_cons]
    omega

theorem pieces_length {item : Parser α} {unplaced : α → β} {pieces : List (List Token × β)}
    (good : ∀ piece ∈ pieces, Piece item unplaced piece.1 piece.2) :
    pieces.length ≤ (pieces.map Prod.fst).flatten.length := by
  rw [← List.length_map Prod.fst]
  apply length_le_flatten
  intro w member
  obtain ⟨piece, inside, rfl⟩ := List.mem_map.mp member
  obtain ⟨t, u, same, -⟩ := (good piece inside).starts
  simp [same]

/-- Tokens that are a block with its statements. -/
def Blocked (inner : Parser Stmt) (w : List Token) (ss : List Stmt) : Prop :=
  Takes (block inner) Stmt.unplacedAll (fun _ => True) w ss

/-- A block is an indented sequence of statements, not an empty one. -/
theorem block_takes {pieces : List (List Token × Stmt)} {n i d : Token}
    (good : ∀ piece ∈ pieces, Piece inner Stmt.unplaced piece.1 piece.2) (filled : pieces ≠ [])
    (feed : n.kind = .newline) (opening : i.kind = .indent) (closing : d.kind = .dedent) :
    Blocked inner (n :: i :: (pieces.map Prod.fst).flatten ++ [d]) (pieces.map Prod.snd) := by
  intro c c' passes _
  have here := passes.current
  have inside := passes.next (by simp [feed])
  have indented := inside.current
  obtain ⟨m, passed, last⟩ := (inside.next (by simp [opening])).split
  have ended : m.current.kind = .dedent := by rw [last.current, closing]
  have behind : m.next = c' := (last.next (by simp [closing])).eq
  have count := pieces_length good
  have length := passed.length
  obtain ⟨as, read, same⟩ := items_run good c.next.next.tokens.length (by omega) passed ended
  have some_ : as.isEmpty = false := by
    cases as with
    | nil => exact absurd same.symm (by simpa using filled)
    | cons => rfl
  refine ⟨as, ?_, by rw [Stmt.unplacedAll_eq_map, same]⟩
  unfold block
  rw [bind_of_ok (expect_of_eq (by rw [here, feed])), bind_of_ok (at_run _), indented, opening,
    if_pos (by decide), bind_of_ok advance_run, bind_of_ok remaining_run, bind_of_ok read,
    bind_of_ok (accept_of_eq ended), some_, behind]
  rfl

theorem colon_run {c m : Cursor} {t : Token} {w : List Token} (passes : c.Passes (t :: w) m)
    (kind : t.kind = .colon) : colon c = .ok ((), c.next) := by
  unfold colon
  rw [bind_of_ok (expect_of_eq (by rw [passes.current, kind]))]
  rfl

/-- A word, a test and a block, as a branch or a loop starts. -/
structure Clause where
  sign : Token
  words : List Token
  colon : Token
  body : List Token
  test : Expr
  block : List Stmt

def Clause.all (x : Clause) : List Token := x.sign :: x.words ++ x.colon :: x.body

structure Clause.Good (inner : Parser Stmt) (k : Kind) (x : Clause) : Prop where
  sign : x.sign.kind = k
  words : Reads .or x.words x.test
  colon : x.colon.kind = .colon
  block : Blocked inner x.body x.block

/-- A clause is read as its test, a colon and its block. -/
theorem clause_run {x : Clause} {k : Kind} (good : x.Good inner k) (inside : k ≠ .eof)
    {c c' : Cursor} (passes : c.Passes x.all c') : ∃ e m ss,
      expression c.next = .ok (e, m) ∧ e.unplaced = x.test ∧ m.current.kind = .colon ∧
        colon m = .ok ((), m.next) ∧ block inner m.next = .ok (ss, c') ∧
        Stmt.unplacedAll ss = x.block := by
  have behind := passes.next (by rw [good.sign]; exact inside)
  obtain ⟨m, passed, rest⟩ := behind.split
  have here := rest.current
  obtain ⟨e, read, same⟩ := expression_meets good.words _ _ passed
    (by rw [here, good.colon]; rfl)
  obtain ⟨ss, readBlock, sames⟩ := good.block _ _ (rest.next (by simp [good.colon])) trivial
  exact ⟨e, m, ss, read, same, by rw [here, good.colon], colon_run rest good.colon, readBlock, sames⟩

theorem loopWhile_takes {x : Clause} (good : x.Good inner .kwWhile) :
    Takes (loopWhile inner) Stmt.unplaced Fresh x.all (.loopWhile {} x.test x.block) := by
  intro c c' passes _
  obtain ⟨e, m, ss, read, same, here, passed, readBlock, sames⟩ := clause_run good (by decide) passes
  refine ⟨.loopWhile (tokenPos c.current) e ss, ?_, by rw [Stmt.unplaced, same, sames]⟩
  unfold loopWhile
  rw [bind_of_ok advance_run, bind_of_ok read, bind_of_ok (accept_of_ne (by simp [here])),
    bind_of_ok passed, bind_of_ok readBlock]
  rfl

theorem elifs_run {xs : List Clause} (good : ∀ x ∈ xs, x.Good inner .kwElif) (fuel : Nat)
    (enough : xs.length ≤ fuel) {c c' : Cursor} (passes : c.Passes (xs.flatMap Clause.all) c')
    (ended : c'.current.kind ≠ .kwElif) : ∃ elifs, elifsUpTo inner fuel c = .ok (elifs, c') ∧
      Stmt.unplacedElifs elifs = xs.map fun x => .mk {} x.test x.block := by
  induction xs generalizing fuel c with
  | nil =>
    cases passes.eq
    refine ⟨[], ?_, rfl⟩
    cases fuel with
    | zero => rfl
    | succ fuel =>
      unfold elifsUpTo
      rw [bind_of_ok (at_run _), if_neg (by simpa using ended)]
      rfl
  | cons x xs ih =>
    obtain ⟨fuel, rfl⟩ : ∃ k, fuel = k + 1 := ⟨fuel - 1, by simp at enough; omega⟩
    have first := good x (by simp)
    rw [List.flatMap_cons] at passes
    have here : c.current.kind = .kwElif := by
      rw [Clause.all, List.cons_append] at passes
      rw [passes.current, first.sign]
    obtain ⟨p, passed, passes⟩ := passes.split
    obtain ⟨e, m, ss, read, same, -, colon, readBlock, sames⟩ :=
      clause_run first (by decide) passed
    obtain ⟨elifs, readRest, others⟩ := ih (fun x member => good x (by simp [member])) fuel
      (by simpa using enough) passes
    refine ⟨.mk (tokenPos c.current) e ss :: elifs, ?_, ?_⟩
    · unfold elifsUpTo
      rw [bind_of_ok (at_run _), if_pos (by simp [here]), bind_of_ok advance_run, bind_of_ok read,
        bind_of_ok colon, bind_of_ok readBlock, bind_of_ok readRest]
      rfl
    · rw [Stmt.unplacedElifs, Stmt.unplacedElif, same, sames, others]
      rfl

/-- The last part of a branch. -/
structure Rest where
  sign : Token
  colon : Token
  body : List Token
  block : List Stmt

def Rest.all (x : Rest) : List Token := x.sign :: x.colon :: x.body

structure Rest.Good (inner : Parser Stmt) (x : Rest) : Prop where
  sign : x.sign.kind = .kwElse
  colon : x.colon.kind = .colon
  block : Blocked inner x.body x.block

theorem branch_takes {x : Clause} {xs : List Clause} {rest : Option Rest}
    (good : x.Good inner .kwIf) (others : ∀ x ∈ xs, x.Good inner .kwElif)
    (last : ∀ r ∈ rest, r.Good inner) :
    Takes (branch inner) Stmt.unplaced Fresh
      (x.all ++ xs.flatMap Clause.all ++ (rest.map Rest.all).getD [])
      (.branch {} x.test x.block (xs.map fun x => .mk {} x.test x.block) (rest.map Rest.block)) := by
  intro c c' passes fresh
  obtain ⟨p, before, behind⟩ := passes.split
  obtain ⟨q, first, between⟩ := before.split
  obtain ⟨e, m, ss, read, same, -, colon, readBlock, sames⟩ := clause_run good (by decide) first
  have ended : p.current.kind ≠ .kwElif := by
    cases rest with
    | none =>
      cases behind.eq
      exact fun elif => fresh (by simp [elif])
    | some r =>
      have here : p.current = r.sign := behind.current
      rw [here, (last r rfl).sign]
      decide
  have count : xs.length ≤ (xs.flatMap Clause.all).length := by
    rw [List.flatMap_def, ← List.length_map Clause.all]
    exact length_le_flatten (by simp [Clause.all])
  have length := between.length
  obtain ⟨elifs, readElifs, clauses⟩ :=
    elifs_run others q.tokens.length (by omega) between ended
  have start : branch inner c = (do
      let token ← pure c.current
      if ← accept .kwElse then
        Parser.colon
        return .branch (tokenPos token) e ss elifs (some (← block inner))
      else return .branch (tokenPos token) e ss elifs none : Parser Stmt) p := by
    unfold branch
    rw [bind_of_ok advance_run, bind_of_ok read, bind_of_ok colon, bind_of_ok readBlock,
      bind_of_ok remaining_run, bind_of_ok readElifs]
    rfl
  rw [start]
  cases rest with
  | none =>
    cases behind.eq
    refine ⟨.branch (tokenPos c.current) e ss elifs none, ?_, ?_⟩
    · rw [bind_of_ok (pure_run _), bind_of_ok (accept_of_ne fun other => fresh (by simp [other]))]
      rfl
    · rw [Stmt.unplaced, same, sames, clauses]
      rfl
  | some r =>
    have good := last r rfl
    have here : p.current = r.sign := behind.current
    have signed := behind.next (by rw [good.sign]; decide)
    obtain ⟨ss', readRest, sames'⟩ := good.block _ _ (signed.next (by simp [good.colon])) trivial
    refine ⟨.branch (tokenPos c.current) e ss elifs (some ss'), ?_, ?_⟩
    · rw [bind_of_ok (pure_run _), bind_of_ok (accept_of_eq (by rw [here, good.sign])), if_pos rfl,
        bind_of_ok (colon_run signed good.colon), bind_of_ok readRest]
      rfl
    · rw [Stmt.unplaced, same, sames, clauses, Stmt.unplacedOption, sames']
      rfl

theorem loopTimes_takes {sign times colon : Token} {words body : List Token} {e : Expr}
    {ss : List Stmt} (inside : sign.kind ≠ .eof) (count : Reads .or words e)
    (timed : times.kind = .kwTimes) (ends : colon.kind = .colon) (good : Blocked inner body ss) :
    Takes (loopTimes inner) Stmt.unplaced Fresh (sign :: words ++ times :: colon :: body)
      (.loopTimes {} e ss) := by
  intro c c' passes _
  obtain ⟨m, passed, rest⟩ := (passes.next inside).split
  have here := rest.current
  have behind := rest.next (by simp [timed])
  obtain ⟨e', read, same⟩ := expression_meets count _ _ passed (by rw [here, timed]; rfl)
  obtain ⟨ss', readBlock, sames⟩ := good _ _ (behind.next (by simp [ends])) trivial
  refine ⟨.loopTimes (tokenPos c.current) e' ss', ?_, by rw [Stmt.unplaced, same, sames]⟩
  unfold loopTimes
  rw [bind_of_ok advance_run, bind_of_ok read, bind_of_ok (expect_of_eq (by rw [here, timed])),
    bind_of_ok (colon_run behind ends), bind_of_ok readBlock]
  rfl

theorem expectName_run {c : Cursor} (suggestion : Option String)
    (here : c.current.kind = .identifier) :
    expectName suggestion c = .ok (c.current.literal, c.next) := by
  unfold expectName
  rw [bind_of_ok (expect_of_eq here)]
  rfl

theorem loopEach_takes {sign t into colon : Token} {words body : List Token} {e : Expr}
    {ss : List Stmt} (inside : sign.kind ≠ .eof) (named : t.kind = .identifier)
    (within : into.kind = .kwIn) (items : Reads .or words e) (ends : colon.kind = .colon)
    (good : Blocked inner body ss) :
    Takes (loopFor inner) Stmt.unplaced Fresh (sign :: t :: into :: words ++ colon :: body)
      (.loopEach {} t.literal e ss) := by
  intro c c' passes _
  have first := passes.next inside
  have second := first.next (by simp [named])
  have third := second.next (by simp [within])
  have here := first.current
  obtain ⟨m, passed, rest⟩ := third.split
  have elsewhere : c.next.next.next.current.kind ≠ .kwRange := by
    have others : ∀ k ∈ openers, k ≠ .kwRange := by decide
    exact others _ (current_opens items passed)
  obtain ⟨e', read, same⟩ := expression_meets items _ _ passed (by rw [rest.current, ends]; rfl)
  obtain ⟨ss', readBlock, sames⟩ := good _ _ (rest.next (by simp [ends])) trivial
  refine ⟨.loopEach (tokenPos c.current) t.literal e' ss', ?_, by rw [Stmt.unplaced, same, sames]⟩
  unfold loopFor
  rw [bind_of_ok advance_run, bind_of_ok (expectName_run _ (by rw [here, named])),
    bind_of_ok (expect_of_eq (by rw [second.current, within])), bind_of_ok (accept_of_ne elsewhere),
    if_neg (by decide), bind_of_ok read, bind_of_ok (colon_run rest ends), bind_of_ok readBlock, here]
  rfl

/-- The bounds of a range are written out, with a step or without. -/
theorem rangeBounds_run {l r comma : Token} {v w : List Token} {a b : Expr}
    {step : Option (Token × List Token × Expr)} (opening : l.kind = .lparen)
    (first : Reads .or v a) (apart : comma.kind = .comma) (second : Reads .or w b)
    (third : ∀ p ∈ step, p.1.kind = .comma ∧ Reads .or p.2.1 p.2.2) (closing : r.kind = .rparen)
    {c c' : Cursor} (passes : c.Passes
      (l :: v ++ comma :: w ++ ((step.map fun p => p.1 :: p.2.1).getD []) ++ [r]) c') :
    ∃ start stop step', rangeBounds c = .ok ((start, stop, step'), c') ∧ start.unplaced = a ∧
      stop.unplaced = b ∧ Expr.unplacedOption step' = step.map fun p => p.2.2 := by
  obtain ⟨p, before, last⟩ := passes.split
  have ended : p.current.kind = .rparen := by rw [last.current, closing]
  have behind : p.next = c' := (last.next (by simp [closing])).eq
  have finish (bounds : Expr × Expr × Option Expr) :
      (do let _ ← expect .rparen; return bounds : Parser _) p = .ok (bounds, c') := by
    rw [bind_of_ok (expect_of_eq ended), behind]
    rfl
  obtain ⟨q, before, tail⟩ := before.split
  obtain ⟨m, head, rest⟩ := before.split
  have here := rest.current
  obtain ⟨start, read, same⟩ := expression_meets first _ _ (head.next (by simp [opening]))
    (by rw [here, apart]; rfl)
  have loose : grip q.current.kind = 0 := by
    cases step with
    | none =>
      cases tail.eq
      rw [ended]
      rfl
    | some p =>
      rw [tail.current, (third p rfl).1]
      rfl
  obtain ⟨stop, read', same'⟩ :=
    expression_meets second _ _ (rest.next (by simp [apart])) loose
  unfold rangeBounds
  rw [bind_of_ok (expect_of_eq (by rw [head.current, opening])), bind_of_ok read,
    bind_of_ok (accept_of_eq (by rw [here, apart]))]
  dsimp only
  rw [if_pos rfl, bind_of_ok read']
  cases step with
  | none =>
    cases tail.eq
    refine ⟨start, stop, none, ?_, same, same', rfl⟩
    rw [bind_of_ok (accept_of_ne (by rw [ended]; decide))]
    exact finish (start, stop, none)
  | some s =>
    obtain ⟨sign, reads⟩ := third s rfl
    have there := tail.current
    obtain ⟨step, read'', same''⟩ := expression_meets reads _ _ (tail.next (by simp [sign]))
      (by rw [ended]; rfl)
    refine ⟨start, stop, some step, ?_, same, same', congrArg some same''⟩
    have mapped : (some <$> expression : Parser _) q.next = .ok (some step, p) := by
      rw [map_eq_pure_bind, bind_of_ok read'']
      rfl
    rw [bind_of_ok (accept_of_eq (by rw [there, sign])), if_pos rfl, bind_of_ok mapped]
    exact finish (start, stop, some step)

theorem loopRange_takes {sign t into range colon : Token} {words body : List Token}
    {a b : Expr} {step : Option Expr} {ss : List Stmt} (inside : sign.kind ≠ .eof)
    (named : t.kind = .identifier) (within : into.kind = .kwIn) (ranged : range.kind = .kwRange)
    (bounds : ∀ c c' : Cursor, c.Passes words c' → ∃ start stop step',
      rangeBounds c = .ok ((start, stop, step'), c') ∧ start.unplaced = a ∧ stop.unplaced = b ∧
        Expr.unplacedOption step' = step)
    (ends : colon.kind = .colon) (good : Blocked inner body ss) :
    Takes (loopFor inner) Stmt.unplaced Fresh
      (sign :: t :: into :: range :: words ++ colon :: body)
      (.loopRange {} t.literal a b step ss) := by
  intro c c' passes _
  have first := passes.next inside
  have second := first.next (by simp [named])
  have third := second.next (by simp [within])
  have here := first.current
  obtain ⟨m, passed, rest⟩ := (third.next (by simp [ranged])).split
  obtain ⟨start, stop, step', read, same, same', same''⟩ := bounds _ _ passed
  obtain ⟨ss', readBlock, sames⟩ := good _ _ (rest.next (by simp [ends])) trivial
  refine ⟨.loopRange (tokenPos c.current) t.literal start stop step' ss', ?_,
    by rw [Stmt.unplaced, same, same', same'', sames]⟩
  unfold loopFor
  rw [bind_of_ok advance_run, bind_of_ok (expectName_run _ (by rw [here, named])),
    bind_of_ok (expect_of_eq (by rw [second.current, within])),
    bind_of_ok (accept_of_eq (by rw [third.current, ranged])), if_pos rfl, bind_of_ok read]
  dsimp only
  rw [bind_of_ok (colon_run rest ends), bind_of_ok readBlock, here]
  rfl

theorem function_run {sign t colon : Token} {words body : List Token} {params : List Constant}
    {ss : List Stmt} (inside : sign.kind ≠ .eof) (named : t.kind = .identifier)
    (listed : ∀ c c' : Cursor, c.Passes words c' → parameters c = .ok (params, c'))
    (ends : colon.kind = .colon) (good : Blocked inner body ss) {c c' : Cursor}
    (passes : c.Passes (sign :: t :: words ++ colon :: body) c') :
    ∃ f, function inner c = .ok (f, c') ∧ Stmt.unplacedFunc f = .mk {} t.literal params ss := by
  have first := passes.next inside
  have here := first.current
  obtain ⟨m, passed, rest⟩ := (first.next (by simp [named])).split
  obtain ⟨ss', readBlock, sames⟩ := good _ _ (rest.next (by simp [ends])) trivial
  refine ⟨.mk (tokenPos c.current) t.literal params ss', ?_, by rw [Stmt.unplacedFunc, sames]⟩
  unfold function
  rw [bind_of_ok advance_run, bind_of_ok (expectName_run _ (by rw [here, named])),
    bind_of_ok (listed _ _ passed), bind_of_ok (colon_run rest ends), bind_of_ok readBlock, here]
  rfl

/-- A class body is a sequence of members, each a method or a line that adds none. -/
theorem classDefinition_takes {sign t colon n i d : Token}
    {pieces : List (List Token × Option Func)} (inside : sign.kind ≠ .eof)
    (named : t.kind = .identifier) (ends : colon.kind = .colon) (feed : n.kind = .newline)
    (opening : i.kind = .indent) (closing : d.kind = .dedent)
    (good : ∀ piece ∈ pieces,
      Piece (classMember inner) (Option.map Stmt.unplacedFunc) piece.1 piece.2) :
    Takes (classDefinition inner) Stmt.unplaced Fresh
      (sign :: t :: colon :: n :: i :: (pieces.map Prod.fst).flatten ++ [d])
      (.defineClass {} t.literal ((pieces.map Prod.snd).filterMap id)) := by
  intro c c' passes _
  have first := passes.next inside
  have second := first.next (by simp [named])
  have third := second.next (by simp [ends])
  have fourth := third.next (by simp [feed])
  have here := first.current
  obtain ⟨m, passed, last⟩ := (fourth.next (by simp [opening])).split
  have ended : m.current.kind = .dedent := by rw [last.current, closing]
  have behind : m.next = c' := (last.next (by simp [closing])).eq
  have count := pieces_length good
  have length := passed.length
  obtain ⟨members, read, same⟩ := items_run good c.next.next.next.next.next.tokens.length
    (by omega) passed ended
  refine ⟨.defineClass (tokenPos c.current) t.literal (members.filterMap id), ?_, ?_⟩
  · unfold classDefinition
    rw [bind_of_ok advance_run, bind_of_ok (expectName_run _ (by rw [here, named])),
      bind_of_ok (colon_run second ends), bind_of_ok (expect_of_eq (by rw [third.current, feed])),
      bind_of_ok (expect_of_eq (by rw [fourth.current, opening])), bind_of_ok remaining_run,
      bind_of_ok read, bind_of_ok (accept_of_eq ended), behind, here]
    rfl
  · rw [Stmt.unplaced, ← same, Stmt.unplacedFuncs_eq_map, List.map_filterMap, List.filterMap_map]
    rfl

theorem keyword_takes {sign feed : Token} (form : Pos → Stmt) (inside : sign.kind ≠ .eof)
    (kind : feed.kind = .newline) (same : ∀ pos, (form pos).unplaced = form {}) :
    Takes (keyword form) Stmt.unplaced Fresh [sign, feed] (form {}) := by
  intro c c' passes _
  refine ⟨form (tokenPos c.current), ?_, same _⟩
  unfold keyword
  rw [bind_of_ok advance_run, bind_of_ok (endOfStatement_run kind (passes.next inside))]
  rfl

theorem give_takes {sign feed : Token} {value : Option (List Token × Expr)}
    (inside : sign.kind ≠ .eof) (kind : feed.kind = .newline)
    (reads : ∀ p ∈ value, Reads .or p.1 p.2) :
    Takes give Stmt.unplaced Fresh (sign :: boundWords value ++ [feed])
      (.give {} (value.map Prod.snd)) := by
  intro c c' passes _
  obtain ⟨m, passed, last⟩ := (passes.next inside).split
  have ended := endOfStatement_run kind last
  unfold give
  rw [bind_of_ok advance_run]
  cases value with
  | none =>
    cases passed.eq
    refine ⟨.give (tokenPos c.current) none, ?_, rfl⟩
    rw [bind_of_ok (at_run _), bind_of_ok (at_run _), bind_of_ok (at_run _), last.current, kind,
      if_pos (by decide), bind_of_ok (pure_run _)]
    dsimp only
    rw [bind_of_ok ended]
    rfl
  | some p =>
    have readable := reads p rfl
    have elsewhere : ¬ (c.next.current.kind == .newline || c.next.current.kind == .dedent ||
        c.next.current.kind == .eof) = true := by
      have others : ∀ k ∈ openers, ¬ (k == .newline || k == .dedent || k == .eof) = true := by decide
      exact others _ (current_opens readable passed)
    obtain ⟨e, read, same⟩ := expression_meets readable _ _ passed (by rw [last.current, kind]; rfl)
    refine ⟨.give (tokenPos c.current) (some e), ?_, congrArg (Stmt.give {} <| some ·) same⟩
    have mapped : (some <$> expression : Parser _) c.next = .ok (some e, m) := by
      rw [map_eq_pure_bind, bind_of_ok read]
      rfl
    rw [bind_of_ok (at_run _), bind_of_ok (at_run _), bind_of_ok (at_run _), if_neg elsewhere,
      bind_of_ok mapped]
    dsimp only
    rw [bind_of_ok ended]
    rfl

theorem expression_takes {words : List Token} {feed : Token} {e : Expr} (reads : Reads .or words e)
    (kind : feed.kind = .newline) :
    Takes simple Stmt.unplaced Fresh (words ++ [feed]) (.expr {} e) := by
  intro c c' passes _
  obtain ⟨m, passed, last⟩ := passes.split
  have here := last.current
  obtain ⟨e', read, same⟩ := expression_meets reads _ _ passed (by rw [here, kind]; rfl)
  refine ⟨.expr e'.pos e', ?_, by rw [Stmt.unplaced, same]⟩
  unfold simple
  rw [bind_of_ok read, bind_of_ok kind_run, here, kind]
  dsimp only [updateOp]
  rw [bind_of_ok (at_run _), here, kind, if_neg (by decide),
    bind_of_ok (endOfStatement_run kind last)]
  rfl

/-- An assignment, judged by the trees of its sides. -/
theorem assigned_takes {words others : List Token} {sign feed : Token} {target value : Expr}
    {s : Stmt} (left : Reads .or words target) (assigns : sign.kind = .assign)
    (right : Reads .or others value) (kind : feed.kind = .newline)
    (judged : ∀ e e', e.unplaced = target → e'.unplaced = value →
      ∃ s', assignment? e e' = some s' ∧ s'.unplaced = s) :
    Takes simple Stmt.unplaced Fresh (words ++ sign :: others ++ [feed]) s := by
  intro c c' passes _
  obtain ⟨p, before, last⟩ := passes.split
  obtain ⟨m, passed, rest⟩ := before.split
  have here := rest.current
  obtain ⟨e, read, same⟩ := expression_meets left _ _ passed (by rw [here, assigns]; rfl)
  obtain ⟨e', read', same'⟩ := expression_meets right _ _ (rest.next (by simp [assigns]))
    (by rw [last.current, kind]; rfl)
  obtain ⟨s', found, result⟩ := judged e e' same same'
  refine ⟨s', ?_, result⟩
  unfold simple
  rw [bind_of_ok read, bind_of_ok kind_run, here, assigns]
  dsimp only [updateOp]
  rw [bind_of_ok (at_run _), here, assigns, if_pos (by decide), bind_of_ok advance_run,
    bind_of_ok read', bind_of_ok (endOfStatement_run kind last), found]
  rfl

theorem update_takes {t sign feed : Token} {words : List Token} {op : UpdateOp} {value : Expr}
    (named : t.kind = .identifier) (signed : updateOp sign.kind = some op)
    (right : Reads .or words value) (kind : feed.kind = .newline) :
    Takes simple Stmt.unplaced Fresh (t :: sign :: words ++ [feed])
      (.update {} t.literal op value) := by
  intro c c' passes _
  have quiet : grip sign.kind = 0 ∧ sign.kind ≠ .eof := by
    revert signed
    generalize sign.kind = k
    cases k <;> simp [updateOp, grip]
  obtain ⟨p, before, last⟩ := passes.split
  obtain ⟨m, passed, rest⟩ := Cursor.Passes.split (v := [t]) before
  have here := rest.current
  have reads : Reads .or [t] (.var {} t.literal) := (Reads.var named).loosen .or (by decide)
  obtain ⟨e, read, same⟩ := expression_meets reads _ _ passed (by rw [here]; exact quiet.1)
  obtain ⟨e', read', same'⟩ := expression_meets right _ _ (rest.next quiet.2)
    (by rw [last.current, kind]; rfl)
  obtain ⟨pos, rfl⟩ : ∃ pos, e = .var pos t.literal := by
    cases e <;> cases same
    exact ⟨_, rfl⟩
  refine ⟨.update pos t.literal op e', ?_, by rw [Stmt.unplaced, same']⟩
  unfold simple
  rw [bind_of_ok read, bind_of_ok kind_run, here, signed]
  dsimp only
  rw [bind_of_ok advance_run, bind_of_ok read', bind_of_ok (endOfStatement_run kind last)]
  rfl

/-- A statement that starts like an expression is a simple one. -/
theorem statementWith_of_opener {c : Cursor} (opens : c.current.kind ∈ openers) :
    statementWith inner c = simple c := by
  unfold statementWith
  rw [bind_of_ok kind_run]
  revert opens
  generalize c.current.kind = k
  intro opens
  simp only [openers, List.mem_cons, List.not_mem_nil, or_false] at opens
  rcases opens with rfl | rfl | rfl | rfl | rfl | rfl | rfl | rfl | rfl | rfl <;> rfl

/-- The forms of statements that are known by their first word. -/
def worded (inner : Parser Stmt) : List (Kind × Parser Stmt) :=
  [(.kwIf, branch inner), (.kwRepeat, loopTimes inner), (.kwWhile, loopWhile inner),
   (.kwFor, loopFor inner), (.kwBreak, keyword .leave), (.kwContinue, keyword .again),
   (.kwPass, keyword .pass), (.kwDef, do return .define (← function inner)),
   (.kwClass, classDefinition inner), (.kwReturn, give)]

theorem starts_of_worded {k : Kind} {p : Parser Stmt} (form : (k, p) ∈ worded inner) : Starts k := by
  have all : ∀ k ∈ (worded inner).map Prod.fst, Starts k := by
    simp only [worded, List.map_cons, List.map_nil]
    unfold Starts Fresh
    decide
  exact all _ (List.mem_map_of_mem (f := Prod.fst) form)

theorem ne_eof_of_worded {k : Kind} {p : Parser Stmt} (form : (k, p) ∈ worded inner) :
    k ≠ .eof := fun mark => (starts_of_worded form).2 (by simp [mark])

/-- A statement that a word opens is read as the form of that word. -/
theorem piece_of_word {p : Parser Stmt} {t : Token} {w : List Token} {s : Stmt}
    (form : (t.kind, p) ∈ worded inner) (takes : Takes p Stmt.unplaced Fresh (t :: w) s) :
    Piece (statementWith inner) Stmt.unplaced (t :: w) s where
  takes c c' passes fresh := by
    have run : statementWith inner c = p c := by
      unfold statementWith
      rw [bind_of_ok kind_run, passes.current]
      revert form
      generalize t.kind = k
      intro form
      simp only [worded, List.mem_cons, Prod.mk.injEq, List.not_mem_nil, or_false] at form
      rcases form with ⟨rfl, rfl⟩ | ⟨rfl, rfl⟩ | ⟨rfl, rfl⟩ | ⟨rfl, rfl⟩ | ⟨rfl, rfl⟩ |
        ⟨rfl, rfl⟩ | ⟨rfl, rfl⟩ | ⟨rfl, rfl⟩ | ⟨rfl, rfl⟩ | ⟨rfl, rfl⟩ <;> rfl
    rw [run]
    exact takes c c' passes fresh
  starts := ⟨t, w, rfl, starts_of_worded form⟩

theorem simple_piece {words others : List Token} {e : Expr} {s : Stmt} (reads : Reads .or words e)
    (takes : Takes simple Stmt.unplaced Fresh (words ++ others) s) :
    Piece (statementWith inner) Stmt.unplaced (words ++ others) s where
  takes c c' passes fresh := by
    obtain ⟨m, passed, -⟩ := passes.split
    rw [statementWith_of_opener (current_opens reads passed)]
    exact takes c c' passes fresh
  starts := by
    obtain ⟨t, u, rfl, opens⟩ := opener_of_reads reads
    have all : ∀ k ∈ openers, Starts k := by unfold Starts Fresh; decide
    exact ⟨t, u ++ others, rfl, all _ opens⟩

end Parser

end Stepwise
