import Stepwise.Proofs.Printing.Clarity
import Stepwise.Proofs.Printing.Statements

/-!
Printing a program and reading the text gives the program again, but for its positions:
`parse_program`. The tokens of the printed lines are read statement by statement, along the tree.
-/
namespace Stepwise

namespace Printing

open Token (Kind)
open Grammar
open Stepwise.Parser

variable {spell : Spelling} {w : List Token} {d : Nat}

/-- The tokens of a block, with the end of the line in front of it. -/
def blockTokens (rows : List Row) : List Token :=
  mark .newline :: if rows.isEmpty then [] else mark .indent :: Row.tokensAll rows ++ [mark .dedent]

theorem tokensAll_cons (heading : List Glyph) (block rows : List Row) :
    Row.tokensAll (.mk heading block :: rows) =
      tokens heading ++ (blockTokens block ++ Row.tokensAll rows) := by
  rw [Row.tokensAll, Row.tokens, blockTokens, List.append_assoc]

theorem tokensAll_single (heading : List Glyph) (block : List Row) :
    Row.tokensAll [.mk heading block] = tokens heading ++ blockTokens block := by
  rw [tokensAll_cons, Row.tokensAll, List.append_nil]

theorem tokensAll_append (rows others : List Row) :
    Row.tokensAll (rows ++ others) = Row.tokensAll rows ++ Row.tokensAll others := by
  induction rows with
  | nil => rfl
  | cons row rows ih => rw [List.cons_append, Row.tokensAll, ih, Row.tokensAll, List.append_assoc]

/-- Lines whose tokens, up to their places, are read as statements one by one. -/
def Grouped (d : Nat) (rows : List Row) (ss : List Stmt) : Prop :=
  ∀ w, SameWords (Row.tokensAll rows) w → w.length ≤ d → ∃ pieces : List (List Token × Stmt),
    pieces.map Prod.snd = ss ∧ (pieces.map Prod.fst).flatten = w ∧
      ∀ piece ∈ pieces, Piece (statementUpTo d) Stmt.unplaced piece.1 piece.2

theorem blocked_of_grouped {rows : List Row} {ss : List Stmt} (grouped : Grouped d rows ss)
    (filled : ss ≠ []) (same : SameWords (blockTokens rows) w) (short : w.length ≤ d + 1) :
    Blocked (statementUpTo d) w ss := by
  have some_ : rows.isEmpty = false := by
    cases rows with
    | nil =>
      obtain ⟨pieces, values, joined, good⟩ := grouped [] (.refl _) (Nat.zero_le d)
      have none := pieces_length good
      rw [joined, List.length_nil, Nat.le_zero, List.length_eq_zero_iff] at none
      rw [none] at values
      exact absurd values.symm filled
    | cons => rfl
  unfold blockTokens at same
  rw [some_, if_neg (by decide)] at same
  obtain ⟨n, u, rfl, feed, -, same⟩ := same.cons_left
  obtain ⟨i, u, rfl, opening, -, same⟩ := SameWords.cons_left same
  obtain ⟨x, y, rfl, inside, last⟩ := same.append_left
  obtain ⟨t, rfl, closing, -⟩ := last.single_left
  obtain ⟨pieces, values, joined, good⟩ := grouped x inside (by simp at short; omega)
  rw [← values, ← joined]
  refine block_takes good ?_ feed opening closing
  rintro rfl
  exact filled values.symm

/-- A word, a test and a block are a clause. -/
theorem clause_of_row {s : String} {test : Expr} {rows : List Row} {ss : List Stmt}
    (good : test.Every (ExprWritable spell)) (grouped : Grouped d rows ss) (filled : ss ≠ [])
    (same : SameWords (tokens (word s :: .gap :: expression spell .or test ++ [colon]) ++
      blockTokens rows) w) (short : w.length ≤ d + 1) :
    ∃ x : Clause, x.all = w ∧ x.Good (statementUpTo d) (Token.wordKind s) ∧
      x.test = test.unplaced ∧ x.block = ss := by
  simp only [word, colon, sign, List.cons_append, tokens_lexeme, tokens_gap, tokens_append,
    tokens_nil, List.append_assoc, List.nil_append] at same
  obtain ⟨t, u, rfl, kind, -, same⟩ := same.cons_left
  obtain ⟨x, y, rfl, words, same⟩ := SameWords.append_left same
  obtain ⟨c, y, rfl, ends, -, same⟩ := same.cons_left
  have within : y.length ≤ d + 1 := by
    simp at short
    omega
  exact ⟨⟨t, x, c, y, test.unplaced, ss⟩, rfl,
    ⟨kind, (expression_reads spell test good .or).relocate x words, ends,
      blocked_of_grouped grouped filled same within⟩, rfl, rfl⟩

theorem unplacedAll_ne_nil {ss : List Stmt} (filled : ss ≠ []) : Stmt.unplacedAll ss ≠ [] := by
  cases ss with
  | nil => exact absurd rfl filled
  | cons s ss => exact List.cons_ne_nil _ _

/-- What is read of a printed statement. -/
def Returns (spell : Spelling) (s : Stmt) : Prop :=
  ∀ w d, SameWords (Row.tokensAll (statement spell s)) w → w.length ≤ d + 1 →
    Piece (statementWith (statementUpTo d)) Stmt.unplaced w s.unplaced

theorem expr_returns {pos : Pos} {value : Expr} (good : value.Every (ExprWritable spell)) :
    Returns spell (.expr pos value) := by
  intro w d same _
  rw [statement, tokensAll_single] at same
  obtain ⟨x, y, rfl, words, last⟩ := same.append_left
  obtain ⟨feed, rfl, kind, -⟩ := last.single_left
  have reads := (expression_reads spell value good .or).relocate x words
  exact simple_piece reads (expression_takes reads kind)

/-- An assignment to what is written as an expression. -/
theorem assigned_returns (target : Expr) {value : Expr} {s : Stmt} {gs : List Glyph}
    (printed : statement spell s = [.mk (assigned spell gs value) []])
    (left : Reads .or (tokens gs) target.unplaced) (good : value.Every (ExprWritable spell))
    (judged : ∀ e e', e.unplaced = target.unplaced → e'.unplaced = value.unplaced →
      ∃ s', assignment? e e' = some s' ∧ s'.unplaced = s.unplaced) : Returns spell s := by
  intro w d same _
  rw [printed, tokensAll_single, assigned, tokens_append] at same
  obtain ⟨x, y, rfl, words, last⟩ := same.append_left
  obtain ⟨feed, rfl, kind, -⟩ := last.single_left
  obtain ⟨x, y, rfl, first, rest⟩ := words.append_left
  obtain ⟨sign, y, rfl, assigns, -, second⟩ := rest.cons_left
  have reads := left.relocate x first
  have reads' := (expression_reads spell value good .or).relocate y second
  have takes := assigned_takes reads assigns reads' kind judged
  rw [List.append_assoc] at takes ⊢
  exact simple_piece reads takes

theorem name_reads {v : Constant} (good : IsIdentifier v) :
    Reads .or (tokens [name v]) (.var {} v) := by
  have reads : Reads .atom (tokens [name v]) (.var {} (nameToken v).literal) :=
    .var (nameToken_kind good)
  rw [nameToken_literal good] at reads
  exact reads.ofAtom .or

theorem update_returns {pos : Pos} {target : Constant} {op : UpdateOp} {value : Expr}
    (named : IsIdentifier target) (known : op.IsKnown) (good : value.Every (ExprWritable spell)) :
    Returns spell (.update pos target op value) := by
  intro w d same _
  rw [statement, tokensAll_single] at same
  obtain ⟨x, y, rfl, words, last⟩ := same.append_left
  obtain ⟨feed, rfl, kind, -⟩ := last.single_left
  obtain ⟨t, u, rfl, identifier, literal, rest⟩ := words.cons_left
  have signed : ∃ x, updateSign op = .lexeme x ∧ updateOp x.kind = some op := by
    cases op with
    | unknown => exact absurd known id
    | _ => exact ⟨_, rfl, rfl⟩
  obtain ⟨x, sign, updates⟩ := signed
  change SameWords (tokens (updateSign op :: .gap :: expression spell .or value)) u at rest
  rw [sign, tokens_lexeme, tokens_gap] at rest
  obtain ⟨s, u, rfl, updateKind, -, rest⟩ := rest.cons_left
  have kindOf := nameToken_kind named
  have reads : Reads .or [t] (.var {} t.literal) :=
    (Reads.var (identifier.trans kindOf)).loosen .or (by decide)
  have takes := update_takes (identifier.trans kindOf) (by rw [updateKind]; exact updates)
    ((expression_reads spell value good .or).relocate u rest) kind
  have target_ : t.literal = target := literal.trans (nameToken_literal named)
  rw [target_] at takes
  have piece : Piece (statementWith (statementUpTo d)) Stmt.unplaced ([t] ++ (s :: u ++ [feed])) _ :=
    simple_piece reads takes
  exact piece

/-- A statement that is one word. -/
theorem keyword_returns {pos : Pos} {word_ : String} (form : Pos → Stmt)
    (printed : statement spell (form pos) = [.mk [word word_] []])
    (known : ∀ inner, (Token.wordKind word_, keyword form) ∈ worded inner)
    (bare : ∀ pos, (form pos).unplaced = form {}) : Returns spell (form pos) := by
  intro w d same _
  rw [printed, tokensAll_single] at same
  obtain ⟨t, u, rfl, kind, -, rest⟩ := same.cons_left
  obtain ⟨feed, rfl, feeds, -⟩ := SameWords.single_left rest
  have form_ : (t.kind, keyword form) ∈ worded (statementUpTo d) := kind ▸ known _
  rw [bare]
  exact piece_of_word form_ (keyword_takes form (ne_eof_of_worded form_) feeds bare)

theorem kind_return : Token.wordKind "return" = .kwReturn := by decide

theorem give_returns {pos : Pos} {value : Option Expr}
    (good : Expr.EveryBound (ExprWritable spell) value) : Returns spell (.give pos value) := by
  intro w d same _
  have printed : Row.tokensAll (statement spell (.give pos value)) =
      (Lexeme.word "return").token :: tokens (bound spell value) ++ [mark .newline] := by
    cases value <;> rw [statement, tokensAll_single] <;> rfl
  rw [printed] at same
  obtain ⟨x, y, rfl, words, last⟩ := same.append_left
  obtain ⟨feed, rfl, kind, -⟩ := last.single_left
  obtain ⟨t, u, rfl, sign, -, rest⟩ := words.cons_left
  obtain ⟨piece, joined, values, reads⟩ := bound_reads (bounds_reads spell value good)
  rw [← joined] at rest
  obtain ⟨moved, rfl, values', reads'⟩ :=
    relocate_bound rest fun p member w same => (reads p member).relocate w same
  have form : (t.kind, give) ∈ worded (statementUpTo d) := by
    rw [sign, Lexeme.token, Lexeme.kind, kind_return]
    simp [worded]
  rw [Stmt.unplaced, ← values, ← values']
  exact piece_of_word form (give_takes (ne_eof_of_worded form) kind reads')

/-- Lines that are read as the further tests of a branch. -/
def ElifsGrouped (d : Nat) (rows : List Row) (elifs : List Elif) : Prop :=
  ∀ w, SameWords (Row.tokensAll rows) w → w.length ≤ d + 1 → ∃ xs : List Clause,
    xs.flatMap Clause.all = w ∧ (∀ x ∈ xs, x.Good (statementUpTo d) .kwElif) ∧
      (xs.map fun x => .mk {} x.test x.block) = elifs

theorem kind_if : Token.wordKind "if" = .kwIf := by decide

theorem kind_elif : Token.wordKind "elif" = .kwElif := by decide

theorem kind_else : Token.wordKind "else" = .kwElse := by decide

theorem kind_while : Token.wordKind "while" = .kwWhile := by decide

theorem elifs_cons {pos : Pos} {test : Expr} {body : List Stmt} {elifs : List Elif}
    (good : test.Every (ExprWritable spell)) (filled : body ≠ [])
    (inside : Grouped d (statements spell body) (Stmt.unplacedAll body))
    (others : ElifsGrouped d (elifRows spell elifs) (Stmt.unplacedElifs elifs)) :
    ElifsGrouped d (elifRows spell (.mk pos test body :: elifs))
      (Stmt.unplacedElifs (.mk pos test body :: elifs)) := by
  intro w same short
  rw [elifRows, tokensAll_cons, ← List.append_assoc] at same
  obtain ⟨v, y, rfl, first, rest⟩ := same.append_left
  rw [List.length_append] at short
  obtain ⟨x, words, clause, tested, block⟩ :=
    clause_of_row good inside (unplacedAll_ne_nil filled) first (by omega)
  obtain ⟨xs, joined, clauses, values⟩ := others y rest (by omega)
  refine ⟨x :: xs, by rw [List.flatMap_cons, words, joined], ?_, ?_⟩
  · intro z member
    rcases List.mem_cons.mp member with rfl | member
    · exact kind_elif ▸ clause
    · exact clauses z member
  · rw [List.map_cons, values, tested, block]
    rfl

/-- The last part of a branch is read, if there is one. -/
theorem otherwise_reads {otherwise : Option (List Stmt)} (filled : otherwise ≠ some [])
    (inside : ∀ body ∈ otherwise, Grouped d (statements spell body) (Stmt.unplacedAll body))
    (same : SameWords (Row.tokensAll (otherwiseRows spell otherwise)) w) (short : w.length ≤ d + 1) :
    ∃ rest : Option Rest, (rest.map Rest.all).getD [] = w ∧
      (∀ r ∈ rest, r.Good (statementUpTo d)) ∧
      rest.map Rest.block = Stmt.unplacedOption otherwise := by
  cases otherwise with
  | none => exact ⟨none, same.nil_left.symm, by simp, rfl⟩
  | some body =>
    rw [otherwiseRows, tokensAll_single] at same
    obtain ⟨t, u, rfl, kind, -, same⟩ := same.cons_left
    obtain ⟨c, u, rfl, ends, -, same⟩ := SameWords.cons_left same
    have blocked := blocked_of_grouped (inside body rfl)
      (unplacedAll_ne_nil fun none => filled (by rw [none])) same (by simp at short; omega)
    refine ⟨some ⟨t, c, u, _⟩, rfl, ?_, rfl⟩
    rintro _ ⟨⟩
    exact ⟨kind.trans kind_else, ends, blocked⟩

theorem branch_returns {pos : Pos} {test : Expr} {body : List Stmt} {elifs : List Elif}
    {otherwise : Option (List Stmt)} (good : test.Every (ExprWritable spell)) (filled : body ≠ [])
    (inside : ∀ d, Grouped d (statements spell body) (Stmt.unplacedAll body))
    (others : ∀ d, ElifsGrouped d (elifRows spell elifs) (Stmt.unplacedElifs elifs))
    (filled' : otherwise ≠ some [])
    (last : ∀ d, ∀ body ∈ otherwise, Grouped d (statements spell body) (Stmt.unplacedAll body)) :
    Returns spell (.branch pos test body elifs otherwise) := by
  intro w d same short
  rw [statement, tokensAll_cons, ← List.append_assoc] at same
  obtain ⟨v, y, rfl, first, rest⟩ := same.append_left
  rw [List.length_append] at short
  rw [tokensAll_append] at rest
  obtain ⟨y, z, rfl, second, third⟩ := rest.append_left
  rw [List.length_append] at short
  obtain ⟨x, rfl, clause, tested, block⟩ :=
    clause_of_row good (inside d) (unplacedAll_ne_nil filled) first (by omega)
  obtain ⟨xs, rfl, clauses, values⟩ := others d y second (by omega)
  obtain ⟨rest, rfl, ends, value⟩ := otherwise_reads filled' (last d) third (by omega)
  have takes := branch_takes (kind_if ▸ clause) clauses ends
  rw [tested, block, values, value] at takes
  rw [List.append_assoc] at takes
  exact piece_of_word (by rw [clause.sign, kind_if]; simp [worded]) takes

theorem kind_repeat : Token.wordKind "repeat" = .kwRepeat := by decide

theorem kind_times : Token.wordKind "times" = .kwTimes := by decide

theorem loopTimes_returns {pos : Pos} {count : Expr} {body : List Stmt}
    (good : count.Every (ExprWritable spell)) (filled : body ≠ [])
    (inside : ∀ d, Grouped d (statements spell body) (Stmt.unplacedAll body)) :
    Returns spell (.loopTimes pos count body) := by
  intro w d same short
  rw [statement, tokensAll_single] at same
  simp only [word, colon, sign, List.cons_append, tokens_lexeme, tokens_gap, tokens_append,
    tokens_nil, List.append_assoc, List.nil_append] at same
  obtain ⟨t, u, rfl, kind, -, same⟩ := same.cons_left
  obtain ⟨x, y, rfl, words, same⟩ := SameWords.append_left same
  obtain ⟨s, y, rfl, timed, -, same⟩ := same.cons_left
  obtain ⟨c, y, rfl, ends, -, same⟩ := same.cons_left
  have blocked := blocked_of_grouped (inside d) (unplacedAll_ne_nil filled) same
    (by simp at short; omega)
  have form : (t.kind, loopTimes (statementUpTo d)) ∈ worded (statementUpTo d) := by
    rw [kind, Lexeme.token, Lexeme.kind, kind_repeat]
    simp [worded]
  exact piece_of_word form (loopTimes_takes (ne_eof_of_worded form)
    ((expression_reads spell count good .or).relocate x words) (timed.trans kind_times) ends blocked)

theorem loopWhile_returns {pos : Pos} {test : Expr} {body : List Stmt}
    (good : test.Every (ExprWritable spell)) (filled : body ≠ [])
    (inside : ∀ d, Grouped d (statements spell body) (Stmt.unplacedAll body)) :
    Returns spell (.loopWhile pos test body) := by
  intro w d same short
  rw [statement, tokensAll_single] at same
  obtain ⟨x, rfl, clause, tested, block⟩ :=
    clause_of_row good (inside d) (unplacedAll_ne_nil filled) same short
  have takes := loopWhile_takes (kind_while ▸ clause)
  rw [tested, block] at takes
  exact piece_of_word (by rw [clause.sign, kind_while]; simp [worded]) takes

theorem kind_for : Token.wordKind "for" = .kwFor := by decide

theorem kind_range : Token.wordKind "range" = .kwRange := by decide

theorem loopEach_returns {pos : Pos} {v : Constant} {items : Expr} {body : List Stmt}
    (named : IsIdentifier v) (good : items.Every (ExprWritable spell)) (filled : body ≠ [])
    (inside : ∀ d, Grouped d (statements spell body) (Stmt.unplacedAll body)) :
    Returns spell (.loopEach pos v items body) := by
  intro w d same short
  rw [statement, tokensAll_single] at same
  simp only [word, name, colon, sign, List.cons_append, tokens_lexeme, tokens_gap, tokens_append,
    tokens_nil, List.append_assoc, List.nil_append] at same
  obtain ⟨t, u, rfl, kind, -, same⟩ := same.cons_left
  obtain ⟨n, u, rfl, identifier, literal, same⟩ := SameWords.cons_left same
  obtain ⟨i, u, rfl, into, -, same⟩ := SameWords.cons_left same
  obtain ⟨x, y, rfl, words, same⟩ := SameWords.append_left same
  obtain ⟨c, y, rfl, ends, -, same⟩ := same.cons_left
  have blocked := blocked_of_grouped (inside d) (unplacedAll_ne_nil filled) same
    (by simp at short; omega)
  have form : (t.kind, loopFor (statementUpTo d)) ∈ worded (statementUpTo d) := by
    rw [kind, Lexeme.token, Lexeme.kind, kind_for]
    simp [worded]
  have takes := loopEach_takes (ne_eof_of_worded form) (identifier.trans (nameToken_kind named))
    (into.trans kind_in) ((expression_reads spell items good .or).relocate x words) ends blocked
  rw [literal.trans (nameToken_literal named)] at takes
  exact piece_of_word form takes

/-- The bounds of a loop are read behind the word `range`. -/
theorem bounds_run {start stop : Expr} {step : Option Expr}
    (first : start.Every (ExprWritable spell)) (second : stop.Every (ExprWritable spell))
    (third : Expr.EveryBound (ExprWritable spell) step)
    (same : SameWords (tokens (lparen :: expressions spell (start :: stop :: step.toList) ++ [rparen]))
      w) {c c' : Cursor} (passes : c.Passes w c') : ∃ a b s,
      rangeBounds c = .ok ((a, b, s), c') ∧ a.unplaced = start.unplaced ∧
        b.unplaced = stop.unplaced ∧ Expr.unplacedOption s = Expr.unplacedOption step := by
  simp only [lparen, rparen, comma, sign, expressions, expressionsAfter, List.cons_append,
    tokens_lexeme, tokens_gap, tokens_append, tokens_nil, List.append_assoc] at same
  obtain ⟨l, u, rfl, opening, -, same⟩ := same.cons_left
  obtain ⟨x, y, rfl, words, same⟩ := SameWords.append_left same
  obtain ⟨s, y, rfl, apart, -, same⟩ := same.cons_left
  obtain ⟨z, y, rfl, words', same⟩ := SameWords.append_left same
  obtain ⟨t, y, rfl, tail, same⟩ := same.append_left
  obtain ⟨r, rfl, closing, -⟩ := same.single_left
  have reads := (expression_reads spell start first .or).relocate x words
  have reads' := (expression_reads spell stop second .or).relocate z words'
  obtain ⟨last, rfl, values, reads''⟩ : ∃ last : Option (Token × List Token × Expr),
      (last.map fun p => p.1 :: p.2.1).getD [] = t ∧
        (last.map fun p => p.2.2) = Expr.unplacedOption step ∧
        ∀ p ∈ last, p.1.kind = .comma ∧ Reads .or p.2.1 p.2.2 := by
    cases step with
    | none => exact ⟨none, tail.nil_left.symm, rfl, by simp⟩
    | some e =>
      simp only [Option.toList_some, expressionsAfter, comma, sign, List.append_nil, tokens_lexeme,
        tokens_gap] at tail
      obtain ⟨s, v, rfl, kind, -, words⟩ := tail.cons_left
      refine ⟨some (s, v, e.unplaced), rfl, rfl, ?_⟩
      rintro _ ⟨⟩
      exact ⟨kind, (expression_reads spell e third .or).relocate v words⟩
  rw [← values]
  exact rangeBounds_run opening reads apart reads' reads'' closing (by simpa using passes)

theorem loopRange_returns {pos : Pos} {v : Constant} {start stop : Expr} {step : Option Expr}
    {body : List Stmt} (named : IsIdentifier v) (first : start.Every (ExprWritable spell))
    (second : stop.Every (ExprWritable spell)) (third : Expr.EveryBound (ExprWritable spell) step)
    (filled : body ≠ [])
    (inside : ∀ d, Grouped d (statements spell body) (Stmt.unplacedAll body)) :
    Returns spell (.loopRange pos v start stop step body) := by
  intro w d same short
  rw [statement, tokensAll_single] at same
  have heading : tokens (rangeHeading spell v start stop step) =
      (Lexeme.word "for").token :: nameToken v :: (Lexeme.word "in").token ::
        (Lexeme.word "range").token ::
        (tokens (lparen :: expressions spell (start :: stop :: step.toList) ++ [rparen]) ++
          [(Lexeme.sign ":" .colon).token]) := by
    simp [rangeHeading, word, name, colon, rparen, lparen, sign, nameToken]
  rw [heading] at same
  simp only [List.cons_append, List.append_assoc, List.nil_append] at same
  obtain ⟨t, u, rfl, kind, -, same⟩ := same.cons_left
  obtain ⟨n, u, rfl, identifier, literal, same⟩ := SameWords.cons_left same
  obtain ⟨i, u, rfl, into, -, same⟩ := SameWords.cons_left same
  obtain ⟨r, u, rfl, ranged, -, same⟩ := SameWords.cons_left same
  obtain ⟨x, y, rfl, words, same⟩ := SameWords.append_left same
  obtain ⟨c, y, rfl, ends, -, same⟩ := same.cons_left
  have blocked := blocked_of_grouped (inside d) (unplacedAll_ne_nil filled) same
    (by simp at short; omega)
  have form : (t.kind, loopFor (statementUpTo d)) ∈ worded (statementUpTo d) := by
    rw [kind, Lexeme.token, Lexeme.kind, kind_for]
    simp [worded]
  have takes := loopRange_takes (ne_eof_of_worded form) (identifier.trans (nameToken_kind named))
    (into.trans kind_in) (ranged.trans kind_range)
    (fun c c' passes => bounds_run first second third words passes) ends blocked
  rw [literal.trans (nameToken_literal named)] at takes
  exact piece_of_word form takes

theorem eq_of_same {a b : Constant} (first : IsIdentifier a) (second : IsIdentifier b)
    (same : a.same b = true) : a = b := by
  obtain ⟨s, _, _, rfl, -⟩ := first
  obtain ⟨t, _, _, rfl, -⟩ := second
  have texts : (s == t) = true := same
  rw [eq_of_beq texts]

theorem name_run {v : Constant} (named : IsIdentifier v) {t : Token} {u : List Token}
    (kind : t.kind = (nameToken v).kind) (literal : t.literal = (nameToken v).literal)
    (suggestion : Option String) {c c' : Cursor} (passes : c.Passes (t :: u) c') :
    expectName suggestion c = .ok (v, c.next) ∧ c.next.Passes u c' := by
  have identifier : t.kind = .identifier := kind.trans (nameToken_kind named)
  rw [expectName_run _ (by rw [passes.current, identifier]), passes.current, literal,
    nameToken_literal named]
  exact ⟨rfl, passes.next (by simp [identifier])⟩

/-- Names are read one by one, when none is like an earlier one. -/
theorem parameterNames_run {params : List Constant} (good : ∀ v ∈ params, IsIdentifier v)
    (filled : params ≠ []) (earlier : List Constant) (before : ∀ v ∈ earlier, IsIdentifier v)
    (distinct : (earlier ++ params).Nodup) (fuel : Nat) (enough : params.length ≤ fuel)
    (same : SameWords (tokens (names params)) w) {c c' : Cursor} (passes : c.Passes w c')
    (ended : c'.current.kind ≠ .comma) :
    parameterNames earlier fuel c = .ok (earlier ++ params, c') := by
  induction params generalizing earlier fuel c w with
  | nil => exact absurd rfl filled
  | cons v rest ih =>
    obtain ⟨fuel, rfl⟩ : ∃ k, fuel = k + 1 := ⟨fuel - 1, by simp at enough; omega⟩
    have named := good v (by simp)
    have unlike : earlier.any v.same = false := by
      rw [List.any_eq_false]
      intro u member like
      rw [eq_of_same named (before u member) like] at distinct
      exact (List.nodup_append.mp distinct).2.2 u member u (by simp) rfl
    unfold parameterNames
    cases rest with
    | nil =>
      obtain ⟨t, u, rfl, kind, literal, same⟩ := same.cons_left
      cases SameWords.nil_left same
      obtain ⟨read, behind⟩ := name_run named kind literal none passes
      rw [bind_of_ok read, if_neg (by simp [unlike]), behind.eq, bind_of_ok (accept_of_ne ended)]
      rfl
    | cons next rest =>
      obtain ⟨t, u, rfl, kind, literal, same⟩ := same.cons_left
      obtain ⟨s, u, rfl, apart, -, same⟩ := SameWords.cons_left same
      obtain ⟨read, behind⟩ := name_run named kind literal none passes
      have there := behind.current
      have readRest := ih (fun v member => good v (by simp [member])) (by simp)
        (earlier ++ [v]) ?_ ?_ fuel (by simpa using enough) same
        (behind.next (by rw [apart]; exact nofun))
      · rw [bind_of_ok read, if_neg (by simp [unlike]), bind_of_ok (accept_of_eq (by rw [there, apart]; rfl)),
          if_pos rfl, readRest, List.append_assoc]
        rfl
      · intro u member
        rcases List.mem_append.mp member with member | member
        · exact before u member
        · rw [List.mem_singleton.mp member]
          exact named
      · simpa using distinct

/-- Names are printed with the first of them in front, and take a token each. -/
theorem names_tokens (v : Constant) (rest : List Constant) :
    ∃ u, tokens (names (v :: rest)) = nameToken v :: u ∧ rest.length ≤ u.length := by
  induction rest generalizing v with
  | nil => exact ⟨[], rfl, Nat.le_refl 0⟩
  | cons next rest ih =>
    obtain ⟨u, same, enough⟩ := ih next
    refine ⟨tokens (comma :: .gap :: names (next :: rest)), rfl, ?_⟩
    rw [comma, sign, tokens_lexeme, tokens_gap, same]
    simp
    omega

theorem parameters_run {params : List Constant} (good : ∀ v ∈ params, IsIdentifier v)
    (distinct : params.Nodup) (same : SameWords (tokens (lparen :: names params ++ [rparen])) w)
    {c c' : Cursor} (passes : c.Passes w c') : parameters c = .ok (params, c') := by
  simp only [lparen, rparen, sign, List.cons_append, tokens_lexeme, tokens_append, tokens_nil] at same
  obtain ⟨l, u, rfl, opening, -, same⟩ := same.cons_left
  obtain ⟨x, y, rfl, words, last⟩ := SameWords.append_left same
  obtain ⟨r, rfl, closing, -⟩ := last.single_left
  have inside := passes.next (by rw [opening]; rintro ⟨⟩)
  obtain ⟨m, passed, last⟩ := inside.split
  have ended : m.current.kind = .rparen := by
    rw [last.current, closing]
    rfl
  have behind : m.next = c' := (last.next (by rw [closing]; rintro ⟨⟩)).eq
  have closes : expect .rparen none m = .ok (m.current, c') := by rw [expect_of_eq ended, behind]
  unfold parameters
  rw [bind_of_ok (expect_of_eq (by rw [passes.current, opening]; rfl)), bind_of_ok (at_run _)]
  cases params with
  | nil =>
    cases SameWords.nil_left words
    cases passed.eq
    rw [if_pos (by simp [ended]), bind_of_ok (pure_run _)]
    dsimp only
    rw [bind_of_ok closes]
    rfl
  | cons v rest =>
    obtain ⟨tail, split, enough⟩ := names_tokens v rest
    have length := words.length
    rw [split] at length
    obtain ⟨t, u, rfl, kind, -⟩ := SameWords.cons_left (split ▸ words)
    have elsewhere : ¬ (c.next.current.kind == .rparen) = true := by
      rw [passed.current, kind, nameToken_kind (good v (by simp))]
      decide
    have counted := passed.length
    have read := parameterNames_run good (by simp) [] (by simp) (by simpa using distinct)
      c.next.tokens.length (by simp at length ⊢; simp at counted; omega) words passed
      (by rw [ended]; decide)
    rw [if_neg elsewhere, bind_of_ok remaining_run, bind_of_ok read]
    dsimp only
    rw [bind_of_ok closes]
    rfl

theorem kind_def : Token.wordKind "def" = .kwDef := by decide

theorem kind_class : Token.wordKind "class" = .kwClass := by decide

theorem kind_break : Token.wordKind "break" = .kwBreak := by decide

theorem kind_continue : Token.wordKind "continue" = .kwContinue := by decide

theorem kind_pass : Token.wordKind "pass" = .kwPass := by decide

/-- A function is read from its line and its block. -/
theorem function_reads {pos : Pos} {f : Constant} {params : List Constant} {body : List Stmt}
    (good : FuncWritable (.mk pos f params body))
    (inside : Grouped d (statements spell body) (Stmt.unplacedAll body))
    (same : SameWords (function spell (.mk pos f params body)).tokens w) (short : w.length ≤ d + 1) :
    ∃ t u, w = t :: u ∧ t.kind = .kwDef ∧ ∀ c c' : Cursor, c.Passes w c' →
      ∃ g, Parser.function (statementUpTo d) c = .ok (g, c') ∧
        Stmt.unplacedFunc g = Stmt.unplacedFunc (.mk pos f params body) := by
  rw [function, Row.tokens] at same
  have heading : tokens (word "def" :: .gap :: name f :: lparen :: names params ++ [rparen, colon]) =
      (Lexeme.word "def").token :: nameToken f ::
        (tokens (lparen :: names params ++ [rparen]) ++ [(Lexeme.sign ":" .colon).token]) := by
    simp [word, name, colon, rparen, lparen, sign, nameToken]
  rw [heading] at same
  simp only [List.cons_append, List.append_assoc, List.nil_append] at same
  obtain ⟨t, u, rfl, kind, -, same⟩ := same.cons_left
  obtain ⟨n, u, rfl, identifier, literal, same⟩ := SameWords.cons_left same
  obtain ⟨x, y, rfl, words, same⟩ := SameWords.append_left same
  obtain ⟨c, y, rfl, ends, -, same⟩ := same.cons_left
  have blocked := blocked_of_grouped inside (unplacedAll_ne_nil good.body) same
    (by simp at short; omega)
  have sign : t.kind = .kwDef := kind.trans kind_def
  refine ⟨t, _, rfl, sign, fun c c' passes => ?_⟩
  obtain ⟨g, read, result⟩ := function_run (by simp [sign]) (identifier.trans (nameToken_kind good.name))
    (fun c c' passes => parameters_run good.params good.distinct words passes) ends blocked passes
  exact ⟨g, read, by rw [result, literal.trans (nameToken_literal good.name)]; rfl⟩

theorem define_returns {f : Func} (good : FuncWritable f)
    (inside : ∀ d, Grouped d (statements spell f.body) (Stmt.unplacedAll f.body)) :
    Returns spell (.define f) := by
  intro w d same short
  obtain ⟨pos, name_, params, body⟩ := f
  rw [statement, Row.tokensAll, Row.tokensAll, List.append_nil] at same
  obtain ⟨t, u, rfl, kind, reads⟩ := function_reads good (inside d) same short
  refine piece_of_word (p := do return .define (← Parser.function (statementUpTo d)))
    (by rw [kind]; simp [worded]) fun c c' passes _ => ?_
  obtain ⟨g, read, result⟩ := reads c c' passes
  exact ⟨.define g, by rw [bind_of_ok read]; rfl, congrArg Stmt.define result⟩

/-- The methods of a class are read one by one. -/
theorem methods_pieces {fs : List Func} (good : ∀ f ∈ fs, FuncWritable f)
    (inside : ∀ f ∈ fs, ∀ d, Grouped d (statements spell f.body) (Stmt.unplacedAll f.body))
    (same : SameWords (Row.tokensAll (functions spell fs)) w) (short : w.length ≤ d + 1) :
    ∃ pieces : List (List Token × Option Func),
      pieces.map Prod.snd = (Stmt.unplacedFuncs fs).map some ∧ (pieces.map Prod.fst).flatten = w ∧
        ∀ piece ∈ pieces,
          Piece (classMember (statementUpTo d)) (Option.map Stmt.unplacedFunc) piece.1 piece.2 := by
  induction fs generalizing w with
  | nil => exact ⟨[], rfl, same.nil_left.symm, by simp⟩
  | cons f fs ih =>
    rw [functions, Row.tokensAll] at same
    obtain ⟨x, y, rfl, first, rest⟩ := same.append_left
    rw [List.length_append] at short
    obtain ⟨pieces, values, joined, others⟩ := ih (fun f member => good f (by simp [member]))
      (fun f member => inside f (by simp [member])) rest (by omega)
    obtain ⟨pos, name_, params, body⟩ := f
    obtain ⟨t, u, rfl, kind, reads⟩ :=
      function_reads (good (.mk pos name_ params body) (by simp))
        (inside (.mk pos name_ params body) (by simp) d) first (by omega)
    refine ⟨(t :: u, some (Stmt.unplacedFunc (.mk pos name_ params body))) :: pieces, ?_, ?_, ?_⟩
    · rw [List.map_cons, values]
      rfl
    · rw [List.map_cons, List.flatten_cons, joined]
    · intro piece member
      rcases List.mem_cons.mp member with rfl | member
      · refine ⟨fun c c' passes _ => ?_, t, u, rfl, ?_⟩
        · obtain ⟨g, read, result⟩ := reads c c' passes
          refine ⟨some g, ?_, congrArg some result⟩
          unfold classMember
          rw [bind_of_ok (at_run _), if_pos (by rw [passes.current, kind]; rfl), bind_of_ok read]
          rfl
        · rw [kind]
          unfold Starts Fresh
          decide
      · exact others piece member

theorem class_returns {pos : Pos} {c : Constant} {methods : List Func} (named : IsIdentifier c)
    (good : ∀ f ∈ methods, FuncWritable f)
    (inside : ∀ f ∈ methods, ∀ d, Grouped d (statements spell f.body) (Stmt.unplacedAll f.body)) :
    Returns spell (.defineClass pos c methods) := by
  intro w d same short
  have block : ∃ u, Row.tokensAll (statement spell (.defineClass pos c methods)) =
      (Lexeme.word "class").token :: nameToken c :: (Lexeme.sign ":" .colon).token ::
        mark .newline :: mark .indent :: u ++ [mark .dedent] ∧
      ∀ v, SameWords u v → v.length ≤ d + 1 → ∃ pieces : List (List Token × Option Func),
        (pieces.map Prod.snd).filterMap id = Stmt.unplacedFuncs methods ∧
          (pieces.map Prod.fst).flatten = v ∧ ∀ piece ∈ pieces,
            Piece (classMember (statementUpTo d)) (Option.map Stmt.unplacedFunc) piece.1 piece.2 := by
    rw [statement, tokensAll_single]
    cases methods with
    | nil =>
      refine ⟨[(Lexeme.word "pass").token, mark .newline], rfl, fun v same _ => ?_⟩
      obtain ⟨t, u, rfl, kind, -, rest⟩ := same.cons_left
      obtain ⟨feed, rfl, feeds, -⟩ := rest.single_left
      have passed : t.kind = .kwPass := kind.trans kind_pass
      refine ⟨[([t, feed], none)], rfl, rfl, ?_⟩
      intro piece member
      rw [List.mem_singleton.mp member]
      refine ⟨fun c c' passes _ => ⟨none, ?_, rfl⟩, t, [feed], rfl, ?_⟩
      · have here : c.current.kind = .kwPass := by rw [passes.current, passed]
        unfold classMember
        rw [bind_of_ok (at_run _), if_neg (by simp [here]), bind_of_ok (accept_of_eq here),
          if_pos rfl, bind_of_ok (endOfStatement_run feeds (passes.next (by simp [passed])))]
        rfl
      · rw [passed]
        unfold Starts Fresh
        decide
    | cons f fs =>
      refine ⟨Row.tokensAll (functions spell (f :: fs)), rfl, fun v same short => ?_⟩
      obtain ⟨pieces, values, joined, each⟩ := methods_pieces good inside same short
      exact ⟨pieces, by rw [values]; simp [List.filterMap_map], joined, each⟩
  obtain ⟨u, printed, reads⟩ := block
  rw [printed] at same
  obtain ⟨x, y, rfl, words, last⟩ := same.append_left
  obtain ⟨e, rfl, closing, -⟩ := last.single_left
  obtain ⟨t, x, rfl, kind, -, words⟩ := words.cons_left
  obtain ⟨n, x, rfl, identifier, literal, words⟩ := SameWords.cons_left words
  obtain ⟨s, x, rfl, ends, -, words⟩ := SameWords.cons_left words
  obtain ⟨f, x, rfl, feed, -, words⟩ := SameWords.cons_left words
  obtain ⟨i, x, rfl, opening, -, words⟩ := SameWords.cons_left words
  obtain ⟨pieces, values, rfl, each⟩ := reads x words (by simp at short; omega)
  have form : (t.kind, classDefinition (statementUpTo d)) ∈ worded (statementUpTo d) := by
    rw [kind, Lexeme.token, Lexeme.kind, kind_class]
    simp [worded]
  have takes := classDefinition_takes (ne_eof_of_worded form)
    (identifier.trans (nameToken_kind named)) ends feed opening closing each
  rw [literal.trans (nameToken_literal named), values] at takes
  exact piece_of_word form takes

/-- A printed statement has tokens. -/
theorem statement_filled : ∀ s : Stmt, s.Every (ExprWritable spell) StmtWritable →
    0 < (Row.tokensAll (statement spell s)).length := by
  have headed (heading : List Glyph) (block rows : List Row) :
      0 < (Row.tokensAll (.mk heading block :: rows)).length := by
    rw [tokensAll_cons, blockTokens, List.length_append, List.length_append, List.length_cons]
    omega
  intro s good
  cases s with
  | give pos value => cases value <;> exact headed ..
  | define f =>
    obtain ⟨pos, f, params, body⟩ := f
    exact headed ..
  | alien node => exact absurd good id
  | _ => exact headed ..

theorem statements_cons {s : Stmt} {ss : List Stmt}
    (good : s.Every (ExprWritable spell) StmtWritable) (returns : Returns spell s)
    (others : ∀ d, Grouped d (statements spell ss) (Stmt.unplacedAll ss)) (d : Nat) :
    Grouped d (statements spell (s :: ss)) (Stmt.unplacedAll (s :: ss)) := by
  intro w same short
  rw [statements, tokensAll_append] at same
  obtain ⟨x, y, rfl, first, rest⟩ := same.append_left
  rw [List.length_append] at short
  have filled := statement_filled s good
  rw [first.length] at filled
  obtain ⟨d, rfl⟩ : ∃ k, d = k + 1 := ⟨d - 1, by omega⟩
  obtain ⟨pieces, values, joined, each⟩ := others (d + 1) y rest (by omega)
  refine ⟨(x, s.unplaced) :: pieces, ?_, ?_, ?_⟩
  · rw [List.map_cons, values]
    rfl
  · rw [List.map_cons, List.flatten_cons, joined]
  · intro piece member
    rcases List.mem_cons.mp member with rfl | member
    · exact returns x d first (by omega)
    · exact each piece member

mutual

/-- A printed statement is read as itself, but for its positions. -/
theorem statement_returns (spell : Spelling) : ∀ s : Stmt,
    s.Every (ExprWritable spell) StmtWritable → Returns spell s
  | .expr _ _, ⟨_, value⟩ => expr_returns value
  | .assign _ target _, ⟨named, value⟩ =>
    assigned_returns (.var {} target) rfl (name_reads named) value
      fun e e' same same' => by
        cases e <;> cases same
        exact ⟨_, rfl, by rw [Stmt.unplaced, same']; rfl⟩
  | .update _ _ _ _, ⟨⟨named, known⟩, value⟩ => update_returns named known value
  | .setIndex _ object position _, ⟨_, inside, within, value⟩ =>
    assigned_returns (.index {} object position) rfl
      (expression_reads spell (.index {} object position) ⟨trivial, inside, within⟩ .or) value
      fun e e' same same' => by
        cases e with
        | index pos object position =>
          obtain ⟨-, inside, within⟩ := Expr.index.inj same
          exact ⟨_, rfl, by rw [Stmt.unplaced, inside, within, same']; rfl⟩
        | _ => cases same
  | .setMember _ object property _, ⟨named, inside, value⟩ =>
    assigned_returns (.member {} object property) rfl
      (expression_reads spell (.member {} object property) ⟨named, inside⟩ .or) value
      fun e e' same same' => by
        cases e with
        | member pos object property =>
          obtain ⟨-, inside, rfl⟩ := Expr.member.inj same
          exact ⟨_, rfl, by rw [Stmt.unplaced, inside, same']; rfl⟩
        | _ => cases same
  | .branch _ _ body elifs otherwise, ⟨⟨filled, eachFilled, lastFilled⟩, test, inside, others, last⟩ =>
    branch_returns test filled (statements_grouped spell body inside)
      (elifs_grouped spell elifs eachFilled others) lastFilled
      (otherwise_grouped spell otherwise last)
  | .loopTimes _ _ body, ⟨filled, count, inside⟩ =>
    loopTimes_returns count filled (statements_grouped spell body inside)
  | .loopWhile _ _ body, ⟨filled, test, inside⟩ =>
    loopWhile_returns test filled (statements_grouped spell body inside)
  | .loopRange _ _ _ _ _ body, ⟨⟨named, filled⟩, start, stop, step, inside⟩ =>
    loopRange_returns named start stop step filled (statements_grouped spell body inside)
  | .loopEach _ _ _ body, ⟨⟨named, filled⟩, items, inside⟩ =>
    loopEach_returns named items filled (statements_grouped spell body inside)
  | .leave _, _ => keyword_returns .leave rfl
    (fun _ => by rw [kind_break]; simp [worded]) fun _ => rfl
  | .again _, _ => keyword_returns .again rfl
    (fun _ => by rw [kind_continue]; simp [worded]) fun _ => rfl
  | .pass _, _ => keyword_returns .pass rfl
    (fun _ => by rw [kind_pass]; simp [worded]) fun _ => rfl
  | .define f, ⟨good, inside⟩ => define_returns good (function_grouped spell f inside)
  | .defineClass _ _ methods, ⟨⟨named, good⟩, inside⟩ =>
    class_returns named good (functions_grouped spell methods inside)
  | .give _ _, ⟨_, value⟩ => give_returns value
  | .alien _, good => absurd good id

theorem statements_grouped (spell : Spelling) : ∀ ss : List Stmt,
    Stmt.EveryIn (ExprWritable spell) StmtWritable ss →
      ∀ d, Grouped d (statements spell ss) (Stmt.unplacedAll ss)
  | [], _, _ => fun _ same _ => ⟨[], rfl, same.nil_left.symm, by simp⟩
  | s :: ss, ⟨first, others⟩, d =>
    statements_cons first (statement_returns spell s first) (statements_grouped spell ss others) d

theorem elifs_grouped (spell : Spelling) : ∀ elifs : List Elif, (∀ e ∈ elifs, e.body ≠ []) →
    Stmt.EveryElif (ExprWritable spell) StmtWritable elifs →
      ∀ d, ElifsGrouped d (elifRows spell elifs) (Stmt.unplacedElifs elifs)
  | [], _, _, _ => fun _ same _ => ⟨[], same.nil_left.symm, by simp, rfl⟩
  | .mk pos test body :: elifs, filled, ⟨⟨good, inside⟩, others⟩, d =>
    elifs_cons good (filled (.mk pos test body) (by simp)) (statements_grouped spell body inside d)
      (elifs_grouped spell elifs (fun e member => filled e (by simp [member])) others d)

theorem otherwise_grouped (spell : Spelling) : ∀ otherwise : Option (List Stmt),
    Stmt.EveryOtherwise (ExprWritable spell) StmtWritable otherwise →
      ∀ d, ∀ body ∈ otherwise, Grouped d (statements spell body) (Stmt.unplacedAll body)
  | none, _, _ => fun _ member => absurd member (by simp)
  | some body, inside, d => fun _ member => by
    cases member
    exact statements_grouped spell body inside d

theorem function_grouped (spell : Spelling) : ∀ f : Func,
    Func.Every (ExprWritable spell) StmtWritable f →
      ∀ d, Grouped d (statements spell f.body) (Stmt.unplacedAll f.body)
  | .mk _ _ _ body, inside, d => statements_grouped spell body inside d

theorem functions_grouped (spell : Spelling) : ∀ fs : List Func,
    Func.EveryIn (ExprWritable spell) StmtWritable fs →
      ∀ f ∈ fs, ∀ d, Grouped d (statements spell f.body) (Stmt.unplacedAll f.body)
  | [], _, _, member => absurd member (by simp)
  | f :: fs, ⟨first, others⟩, g, member => by
    rcases List.mem_cons.mp member with same | member
    · rw [same]
      exact function_grouped spell f first
    · exact functions_grouped spell fs others g member

end

/-- At the top level, statements are read up to the end of the text. -/
theorem statementsUpTo_run : ∀ ss : List Stmt, Stmt.EveryIn (ExprWritable spell) StmtWritable ss →
    ∀ {w : List Token}, SameWords (Row.tokensAll (statements spell ss)) w → ∀ fuel, ss.length ≤ fuel →
      ∀ {c c' : Cursor}, c.Passes w c' → c'.current.kind = .eof →
        ∃ read, statementsUpTo fuel c = .ok (read, c') ∧
          Stmt.unplacedAll read = Stmt.unplacedAll ss := by
  intro ss
  induction ss with
  | nil =>
    intro _ w same fuel _ c c' passes ended
    cases same.nil_left
    cases passes.eq
    refine ⟨[], ?_, rfl⟩
    cases fuel with
    | zero => rfl
    | succ fuel =>
      unfold statementsUpTo
      rw [bind_of_ok (at_run _), ended]
      rfl
  | cons s ss ih =>
    rintro ⟨first, others⟩ w same fuel enough c c' passes ended
    obtain ⟨fuel, rfl⟩ : ∃ k, fuel = k + 1 := ⟨fuel - 1, by simp at enough; omega⟩
    rw [statements, tokensAll_append] at same
    obtain ⟨x, y, rfl, words, rest⟩ := same.append_left
    obtain ⟨m, passed, behind⟩ := passes.split
    have length := passed.length
    have good := statement_returns spell s first x (c.tokens.length - 1) words (by
      have := Cursor.length_pos m
      omega)
    obtain ⟨pieces, -, joined, each⟩ :=
      statements_grouped spell ss others y.length y rest (Nat.le_refl _)
    have fresh : Fresh m.current.kind := by
      rcases current_of_pieces each (joined ▸ behind) with starts | rfl
      · exact starts.1
      · simp [Fresh, ended]
    obtain ⟨t, u, rfl, starts⟩ := good.starts
    obtain ⟨s', read, same⟩ := good.takes c m passed fresh
    obtain ⟨read', ran, same'⟩ := ih others rest fuel (by simpa using enough) behind ended
    have whole : Parser.statement c = .ok (s', m) := by
      unfold Parser.statement
      rw [bind_of_ok remaining_run]
      obtain ⟨k, more⟩ := Nat.exists_eq_add_of_lt (Cursor.length_pos c)
      rw [Nat.zero_add] at more
      rw [more, Nat.add_sub_cancel] at read
      rw [more]
      exact read
    refine ⟨s' :: read', ?_, ?_⟩
    · have here := passed.current
      unfold statementsUpTo
      rw [bind_of_ok (at_run _), here, if_neg, bind_of_ok (at_run _), here, if_neg, bind_of_ok whole,
        bind_of_ok (skipNewlines_run fun feed => fresh (by simp [feed])), bind_of_ok ran]
      · rfl
      · rw [beq_iff_eq]
        exact fun mark => starts.2 (by simp [mark])
      · rw [beq_iff_eq]
        exact fun mark => starts.2 (by simp [mark])
    · rw [Stmt.unplacedAll, same, same']
      rfl

/-- Reading the text of a program succeeds and gives the program, but for its positions. -/
theorem parse_program {p : Program} (good : Writable spell p) (filename : String) :
    ∃ q, Program.parse (program spell p) filename = .ok q ∧ q.unplaced = p.unplaced := by
  obtain ⟨ts, scanned, same⟩ := tokenize_rows (statements_readable spell p.body good) filename
  obtain ⟨w, y, rfl, words, last⟩ := same.symm.append_left
  obtain ⟨e, rfl, ended, -⟩ := last.single_left
  have passes := Cursor.start_passes w filename (List.cons_ne_nil e [])
  have closes : (Cursor.start [e] filename).current.kind = .eof := by
    rw [Cursor.start_current, ended]
    rfl
  obtain ⟨pieces, values, joined, each⟩ :=
    statements_grouped spell p.body good w.length w words (Nat.le_refl _)
  have quiet : (Cursor.start (w ++ [e]) filename).current.kind ≠ .newline := by
    rcases current_of_pieces each (by rw [joined]; exact passes) with starts | same
    · exact fun feed => starts.1 (by simp [feed])
    · rw [same, closes]
      decide
  have count : p.body.length ≤ (Cursor.start (w ++ [e]) filename).tokens.length := by
    have filled := pieces_length each
    have length := passes.length
    have lengths := congrArg List.length values
    rw [joined] at filled
    rw [List.length_map, Stmt.unplacedAll_eq_map, List.length_map] at lengths
    omega
  obtain ⟨read, ran, result⟩ := statementsUpTo_run p.body good words _ count passes closes
  refine ⟨{ body := read }, ?_, ?_⟩
  · have whole : Parser.program (Cursor.start (w ++ [e]) filename) =
        .ok ({ body := read }, Cursor.start [e] filename) := by
      unfold Parser.program
      rw [bind_of_ok (skipNewlines_run quiet), bind_of_ok remaining_run, bind_of_ok ran]
      rfl
    unfold Program.parse Program.ofTokens
    rw [program, scanned]
    change Except.map Prod.fst (Parser.program (Cursor.start (w ++ [e]) filename)) = _
    rw [whole]
    rfl
  · rw [Program.unplaced, Program.unplaced, result]

/-- A class with a method that branches, and a loop over a text. -/
def signpost : Program where
  body :=
    let x : Expr := .var {} (.scalar (.text "x"))
    let two : Expr := .literal {} .number (.scalar (.number (.int 2)))
    let turn : Stmt := .branch {} (.unary {} .not (.binary {} .lt x two))
      [.give {} (some (.binary {} .pow (.unary {} .neg x) (.unary {} .neg two)))]
      [.mk {} x [.leave {}]] (some [.pass {}])
    [.defineClass {} (.scalar (.text "Sign")) [.mk {} (.scalar (.text "turn")) [.scalar (.text "x")] [turn]],
     .loopEach {} (.scalar (.text "c")) (.literal {} .string (.scalar (.text "a\t\"b\"")))
       [.expr {} (.call {} (.scalar (.text "print")) [.var {} (.scalar (.text "c"))])]]

/-- The names of the program. -/
theorem signpost_names : ∀ s ∈ ["Sign", "turn", "x", "c", "print"],
    IsIdentifier (.scalar (.text s)) := by
  have all : ∀ s ∈ ["Sign", "turn", "x", "c", "print"],
      (s.toList.head?.any Token.isNameStart && s.toList.tail.all Token.isNamePart) = true ∧
        Token.wordKind s = .identifier := by decide
  intro s member
  obtain ⟨letters, kind⟩ := all s member
  cases chars : s.toList with
  | nil => simp [chars] at letters
  | cons c cs =>
    simp only [chars, List.head?_cons, Option.any_some, List.tail_cons, Bool.and_eq_true,
      List.all_eq_true] at letters
    exact ⟨s, c, cs, rfl, chars, letters.1, letters.2, kind⟩

theorem parse_program_signpost :
    Writable (fun _ => ([], [])) signpost ∧
      ∃ q, Program.parse (program (fun _ => ([], [])) signpost) unnamedSource = .ok q ∧
        q.unplaced = signpost.unplaced := by
  have named := signpost_names
  simp only [List.mem_cons, List.not_mem_nil, or_false, forall_eq_or_imp, forall_eq] at named
  obtain ⟨sign, turn, x, c, print⟩ := named
  have two : LiteralWritable (fun _ => ([], [])) .number (.scalar (.number (.int 2))) :=
    ⟨by decide, by decide⟩
  have text : IsText (.scalar (.text "a\t\"b\"")) := ⟨_, rfl, by decide⟩
  have method (s : Stmt) :
      FuncWritable (.mk {} (.scalar (.text "turn")) [.scalar (.text "x")] [s]) :=
    ⟨turn, by simpa [Func.params] using x, by simp [Func.params], by simp [Func.body]⟩
  have writable : Writable (fun _ => ([], [])) signpost := by
    simp [Writable, Program.Every, signpost, Stmt.EveryIn, Stmt.Every, Stmt.EveryElif, Elif.Every,
      Stmt.EveryOtherwise, Func.EveryIn, Func.Every, Expr.Every, Expr.EveryIn, Expr.EveryBound,
      ExprWritable, StmtWritable, BinaryOp.IsKnown, UnaryOp.IsKnown, Elif.body, sign, x, c, print,
      two, method]
    exact text
  exact ⟨writable, parse_program writable unnamedSource⟩

example : program (fun _ => ([], [])) signpost =
    "class Sign:\n    def turn(x):\n        if not x < 2:\n            return (-x) ** -2\n" ++
    "        elif x:\n            break\n        else:\n            pass\n" ++
    "for c in \"a\\t\\\"b\\\"\":\n    print(c)\n" := by
  decide +kernel

end Printing

end Stepwise
