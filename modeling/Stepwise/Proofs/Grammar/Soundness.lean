import Mathlib.Tactic.Choose
import Stepwise.Tree.Expression
import Stepwise.Proofs.Grammar.Cursors
import Stepwise.Proofs.Grammar.Expressions

/-!
What is read as an expression is one: the tokens that `expression` passes are related by the grammar
to the tree that it gives.
-/
namespace Stepwise.Parser

open Token (Kind)
open Grammar

variable {α : Type}

/-- From a closed cursor, a parser gives what is related to the tokens it passes. -/
def Follows (p : Parser α) (related : List Token → α → Prop) : Prop :=
  ∀ c, c.Closed → ∀ a c', p c = .ok (a, c') → ∃ w, c.Passes w c' ∧ related w a

/-- A tree with positions that the grammar relates to the tokens without them. -/
abbrev Reading (l : Level) (w : List Token) (e : Expr) : Prop := Reads l w e.unplaced

theorem Follows.weaken {p : Parser α} {related other : List Token → α → Prop}
    (follows : Follows p related) (implied : ∀ w a, related w a → other w a) : Follows p other := by
  intro c closed a c' read
  obtain ⟨w, passes, holds⟩ := follows c closed a c' read
  exact ⟨w, passes, implied w a holds⟩

/-- Items between commas are related to the tokens between the commas. The fuel never ends before
the tokens do, as every item passes one. -/
theorem follows_commaSeparated {item : Parser α} {related : List Token → α → Prop}
    (follows : Follows item related) (filled : ∀ w a, related w a → 0 < w.length) (fuel : Nat) :
    ∀ c : Cursor, c.Closed → c.tokens.length ≤ fuel → ∀ as c',
      commaSeparated item fuel c = .ok (as, c') → ∃ first rest w, as = (first :: rest).map Prod.snd ∧
        (∀ piece ∈ first :: rest, related piece.1 piece.2) ∧
        Separated ((first :: rest).map Prod.fst) w ∧ c.Passes w c' := by
  induction fuel with
  | zero =>
    intro c _ short
    exact absurd c.length_pos (by omega)
  | succ fuel ih =>
    intro c closed short as c' read
    obtain ⟨a, m, readItem, readTail⟩ := bind_eq_ok.mp read
    obtain ⟨v, passed, holds⟩ := follows c closed a m readItem
    have shorter := passed.length
    have some_ := filled v a holds
    obtain ⟨more, m', readComma, readRest⟩ := bind_eq_ok.mp readTail
    rcases accept_eq_ok readComma with ⟨rfl, comma, rfl⟩ | ⟨rfl, -, rfl⟩
    · have closed' := closed.of_passes passed
      have stepped := closed'.passes_next (by rw [comma]; decide)
      have less := stepped.length
      rw [if_pos rfl] at readRest
      obtain ⟨others, m'', readOthers, last⟩ := bind_eq_ok.mp readRest
      cases last
      obtain ⟨first, rest, w, rfl, each, joined, passedRest⟩ :=
        ih _ (closed'.of_passes stepped) (by simp at less; omega) _ _ readOthers
      refine ⟨(v, a), first :: rest, v ++ m.current :: w, rfl, ?_, .more comma joined,
        passed.trans (stepped.trans passedRest)⟩
      intro piece member
      rcases List.mem_cons.mp member with rfl | member
      · exact holds
      · exact each piece member
    · cases readRest
      exact ⟨(v, a), [], v, rfl, by simpa using holds, .one v, passed⟩

/-- The items of a list and the tokens between its brackets. -/
def Listed (related : List Token → α → Prop) (close : Kind) (w : List Token) (as : List α) :
    Prop :=
  ∃ (pieces : List (List Token × α)) (v : List Token) (r : Token), w = v ++ [r] ∧ r.kind = close ∧
    as = pieces.map Prod.snd ∧ (∀ piece ∈ pieces, related piece.1 piece.2) ∧
    Separated (pieces.map Prod.fst) v

theorem follows_listUntil {item : Parser α} {related : List Token → α → Prop} {close : Kind}
    {suggestion : Option String} (follows : Follows item related)
    (filled : ∀ w a, related w a → 0 < w.length) (inside : close ≠ .eof) :
    Follows (listUntil close suggestion item) (Listed related close) := by
  intro c closed as c' read
  have finish {v : List Token} {pieces : List (List Token × α)} {m : Cursor}
      (passed : c.Passes v m) (each : ∀ piece ∈ pieces, related piece.1 piece.2)
      (joined : Separated (pieces.map Prod.fst) v)
      (last : (do let _ ← expect close suggestion; return pieces.map Prod.snd : Parser (List α)) m
        = .ok (as, c')) : ∃ w, c.Passes w c' ∧ Listed related close w as := by
    obtain ⟨t, m', readClose, same⟩ := bind_eq_ok.mp last
    obtain ⟨kind, rfl, rfl⟩ := expect_eq_ok.mp readClose
    cases same
    exact ⟨_, passed.trans ((closed.of_passes passed).passes_next (by rwa [kind])),
      ⟨pieces, v, m.current, rfl, kind, rfl, each, joined⟩⟩
  obtain ⟨empty, m, readAt, readTail⟩ := bind_eq_ok.mp read
  cases readAt
  dsimp only at readTail
  cases ends : c.current.kind == close with
  | true =>
    rw [ends, if_pos rfl] at readTail
    obtain ⟨items, m', readNone, last⟩ := bind_eq_ok.mp readTail
    cases readNone
    exact @finish [] [] c (.refl c) (by simp) .none last
  | false =>
    rw [ends, if_neg (by decide)] at readTail
    obtain ⟨n, m', readLength, readItems⟩ := bind_eq_ok.mp readTail
    cases readLength
    obtain ⟨items, m'', readSome, last⟩ := bind_eq_ok.mp readItems
    obtain ⟨first, rest, w, rfl, each, joined, passed⟩ :=
      follows_commaSeparated follows filled _ c closed (Nat.le_refl _) _ _ readSome
    exact finish passed each joined last

/-- The operators that a level groups to the left, as the readers look them up. -/
def operatorOf : Level → Kind → Option BinaryOp
  | .or => orOp
  | .and => andOp
  | .comparison => comparisonOp
  | .sum => sumOp
  | .term => termOp
  | .not | .unary | .power | .suffixed | .atom => fun _ => none

theorem mem_of_operatorOf (l : Level) (k : Kind) (op : BinaryOp) (found : operatorOf l k = some op) :
    (k, op) ∈ l.operators := by
  cases l with
  | not | unary | power | suffixed | atom => cases found
  | or | and | comparison | sum | term => cases k <;> cases found <;> simp [Level.operators]

theorem operatorOf_of_mem {l : Level} {k : Kind} {op : BinaryOp} (known : (k, op) ∈ l.operators) :
    operatorOf l k = some op := by
  have all : ∀ entry ∈ l.operators, operatorOf l entry.1 = some entry.2 := by
    cases l <;> simp [Level.operators, operatorOf, orOp, andOp, comparisonOp, sumOp, termOp]
  exact all _ known

section Left

variable {op? : Kind → Option BinaryOp} {operand : Parser Expr} {l m : Level}
  (next : l.next? = some m) (known : ∀ k op, op? k = some op → (k, op) ∈ l.operators)
  (follows : Follows operand (Reading m))
include next known follows

theorem follows_leftTail (fuel : Nat) : ∀ left v, Reading l v left →
    Follows (leftTail op? operand fuel left) fun w e => Reading l (v ++ w) e := by
  induction fuel with
  | zero =>
    intro left v reads c _ a c' read
    cases read
    exact ⟨[], .refl _, by simpa using reads⟩
  | succ fuel ih =>
    intro left v reads c closed a c' read
    obtain ⟨k, m, readKind, readTail⟩ := bind_eq_ok.mp read
    cases readKind
    cases found : op? c.current.kind with
    | none =>
      rw [found] at readTail
      cases readTail
      exact ⟨[], .refl _, by simpa using reads⟩
    | some op =>
      rw [found] at readTail
      obtain ⟨sign, m, readSign, readRest⟩ := bind_eq_ok.mp readTail
      cases readSign
      obtain ⟨right, m', readRight, last⟩ := bind_eq_ok.mp readRest
      have stepped := closed.passes_next (Level.operator_ne_eof (known _ _ found))
      have closed' := closed.of_passes stepped
      obtain ⟨w, passed, other⟩ := follows _ closed' _ _ readRight
      have whole : Reading l (v ++ c.current :: w) (.binary left.pos op left right) :=
        .binary next (known _ _ found) reads other
      obtain ⟨u, passedTail, holds⟩ :=
        ih _ _ whole _ (closed'.of_passes passed) _ _ last
      exact ⟨_, stepped.trans (passed.trans passedTail), by simpa using holds⟩

theorem follows_leftLevel : Follows (leftLevel op? operand) (Reading l) := by
  intro c closed a c' read
  obtain ⟨left, m, readLeft, readTail⟩ := bind_eq_ok.mp read
  obtain ⟨v, passed, reads⟩ := follows c closed _ _ readLeft
  obtain ⟨n, m', readLength, last⟩ := bind_eq_ok.mp readTail
  cases readLength
  obtain ⟨w, passedTail, holds⟩ := follows_leftTail next known follows _ left v (.lift next reads)
    m (closed.of_passes passed) _ _ last
  exact ⟨_, passed.trans passedTail, holds⟩

end Left

/-- A reader that starts by asking how many tokens remain. -/
theorem follows_remaining {p : Nat → Parser α} {related : List Token → α → Prop}
    (follows : ∀ n, Follows (p n) related) : Follows (do p (← remaining)) related := by
  intro c closed a c' read
  obtain ⟨n, m, readLength, last⟩ := bind_eq_ok.mp read
  cases readLength
  exact follows _ c closed a c' last

section Expressions

variable {whole : Parser Expr} (follows : Follows whole (Reading .or))
include follows

omit follows in
theorem Listed.reads {w : List Token} {es : List Expr} {close : Kind}
    (listed : Listed (Reading .or) close w es) : ∃ (pieces : List (List Token × Expr))
      (v : List Token) (r : Token), w = v ++ [r] ∧ r.kind = close ∧
      Expr.unplacedAll es = pieces.map Prod.snd ∧ (∀ piece ∈ pieces, Reads .or piece.1 piece.2) ∧
      Separated (pieces.map Prod.fst) v := by
  obtain ⟨pieces, v, r, rfl, kind, rfl, each, joined⟩ := listed
  refine ⟨pieces.map fun piece => (piece.1, piece.2.unplaced), v, r, rfl, kind, ?_, ?_, ?_⟩
  · simp [Expr.unplacedAll_eq_map]
  · intro piece member
    obtain ⟨placed, inside, rfl⟩ := List.mem_map.mp member
    exact each placed inside
  · simpa [Function.comp_def] using joined

theorem follows_wholes {close : Kind} {suggestion : Option String} (inside : close ≠ .eof) :
    Follows (listUntil close suggestion whole) (Listed (Reading .or) close) :=
  follows_listUntil follows (fun _ _ reads => reads.length_pos) inside

/-- What an entry of a record is read from. -/
def Entered (w : List Token) (entry : Constant × Expr) : Prop :=
  ∃ labelled : Labelled, w = labelled.all ∧ labelled.Signed ∧ entry.1 = labelled.key.literal ∧
    labelled.value = entry.2.unplaced ∧ Reads .or labelled.words labelled.value

omit follows in
theorem entered_length (w : List Token) (entry : Constant × Expr) (entered : Entered w entry) :
    0 < w.length := by
  obtain ⟨labelled, rfl, -⟩ := entered
  simp [Labelled.all]

omit follows in
theorem Listed.entries {w : List Token} {entries : List (Constant × Expr)} {close : Kind}
    (listed : Listed Entered close w entries) : ∃ (pieces : List Labelled) (v : List Token)
      (r : Token), w = v ++ [r] ∧ r.kind = close ∧
      Expr.unplacedEntries entries = (pieces.map fun piece => (piece.key.literal, piece.value)) ∧
      (∀ piece ∈ pieces, piece.Signed) ∧ (∀ piece ∈ pieces, Reads .or piece.words piece.value) ∧
      Separated (pieces.map Labelled.all) v := by
  obtain ⟨pieces, v, r, rfl, kind, rfl, each, joined⟩ := listed
  choose! labelled same using each
  refine ⟨pieces.map labelled, v, r, rfl, kind, ?_, ?_, ?_, ?_⟩
  · rw [Expr.unplacedEntries_eq_map, List.map_map, List.map_map]
    refine List.map_congr_left fun piece member => ?_
    obtain ⟨-, -, key, value, -⟩ := same piece member
    exact Prod.ext key value.symm
  · intro piece member
    obtain ⟨entry, inside, rfl⟩ := List.mem_map.mp member
    exact (same entry inside).2.1
  · intro piece member
    obtain ⟨entry, inside, rfl⟩ := List.mem_map.mp member
    exact (same entry inside).2.2.2.2
  · have words : (pieces.map labelled).map Labelled.all = pieces.map Prod.fst := by
      rw [List.map_map]
      exact List.map_congr_left fun piece member => (same piece member).1.symm
    rwa [words]

theorem follows_recordEntry : Follows (recordEntry whole) Entered := by
  intro c closed entry c' read
  obtain ⟨key, m, readKey, readTail⟩ := bind_eq_ok.mp read
  cases readKey
  split at readTail
  · next keyed =>
    have keyed : c.current.kind = .identifier ∨ c.current.kind = .string := by simpa using keyed
    obtain ⟨_, m, passedKey, readColon⟩ := bind_eq_ok.mp readTail
    cases passedKey
    obtain ⟨colon, m', passedColon, readValue⟩ := bind_eq_ok.mp readColon
    obtain ⟨sign, rfl, rfl⟩ := expect_eq_ok.mp passedColon
    obtain ⟨value, m'', readWhole, last⟩ := bind_eq_ok.mp readValue
    cases last
    have first := closed.passes_next (by rcases keyed with kind | kind <;> simp [kind])
    have second := (closed.of_passes first).passes_next (by simp [sign])
    obtain ⟨w, passed, reads⟩ := follows _ ((closed.of_passes first).of_passes second) _ _ readWhole
    exact ⟨_, first.trans (second.trans passed), ⟨c.current, c.next.current, w, value.unplaced⟩, rfl,
      ⟨keyed, sign⟩, rfl, rfl, reads⟩
  · exact absurd readTail (fail_run _ _ _ _)

theorem follows_atom : Follows (atom whole) (Reading .atom) := by
  intro c closed e c' read
  obtain ⟨token, m, readToken, readForm⟩ := bind_eq_ok.mp read
  cases readToken
  have stepped {k : Kind} (kind : c.current.kind = k) (inside : k ≠ .eof) :
      c.Passes [c.current] c.next := closed.passes_next (by rwa [kind])
  generalize kind : c.current.kind = k at readForm
  split at readForm
  · cases readForm
    exact ⟨_, stepped kind (by decide), .number kind⟩
  · cases readForm
    exact ⟨_, stepped kind (by decide), .string kind⟩
  · cases readForm
    exact ⟨_, stepped kind (by decide), .yes kind⟩
  · cases readForm
    exact ⟨_, stepped kind (by decide), .no kind⟩
  · have opened := stepped kind (by decide)
    obtain ⟨_, m, passedLeft, readInner⟩ := bind_eq_ok.mp readForm
    cases passedLeft
    obtain ⟨inner, m', readWhole, readRight⟩ := bind_eq_ok.mp readInner
    obtain ⟨_, m'', passedRight, last⟩ := bind_eq_ok.mp readRight
    obtain ⟨sign, rfl, rfl⟩ := expect_eq_ok.mp passedRight
    cases last
    obtain ⟨w, passed, reads⟩ := follows _ (closed.of_passes opened) _ _ readWhole
    have ended := ((closed.of_passes opened).of_passes passed).passes_next (by simp [sign])
    exact ⟨_, opened.trans (passed.trans ended), .group ⟨kind, sign⟩ reads⟩
  · have opened := stepped kind (by decide)
    obtain ⟨_, m, passedLeft, readItems⟩ := bind_eq_ok.mp readForm
    cases passedLeft
    obtain ⟨elements, m', readList, last⟩ := bind_eq_ok.mp readItems
    cases last
    obtain ⟨_, passed, listed⟩ :=
      follows_wholes follows (by decide) _ (closed.of_passes opened) _ _ readList
    obtain ⟨pieces, v, r, rfl, sign, same, each, joined⟩ := listed.reads
    refine ⟨_, opened.trans passed, ?_⟩
    unfold Reading
    rw [Expr.unplaced, same]
    exact .list ⟨kind, sign⟩ each joined
  · have opened := stepped kind (by decide)
    obtain ⟨_, m, passedLeft, readItems⟩ := bind_eq_ok.mp readForm
    cases passedLeft
    obtain ⟨entries, m', readList, last⟩ := bind_eq_ok.mp readItems
    cases last
    obtain ⟨_, passed, listed⟩ := follows_listUntil (follows_recordEntry follows)
      entered_length (by decide) _ (closed.of_passes opened) _ _ readList
    obtain ⟨pieces, v, r, rfl, sign, same, signed, each, joined⟩ := listed.entries
    refine ⟨_, opened.trans passed, ?_⟩
    unfold Reading
    rw [Expr.unplaced, same]
    exact .record ⟨kind, sign⟩ signed each joined
  · have named := stepped kind (by decide)
    obtain ⟨_, m, passedName, readCall⟩ := bind_eq_ok.mp readForm
    cases passedName
    obtain ⟨called, m', readLeft, last⟩ := bind_eq_ok.mp readCall
    rcases accept_eq_ok readLeft with ⟨rfl, left, rfl⟩ | ⟨rfl, -, rfl⟩
    · obtain ⟨args, m, readArgs, last⟩ := bind_eq_ok.mp last
      cases last
      have closed' := closed.of_passes named
      have opened := closed'.passes_next (by simp [left])
      obtain ⟨_, passed, listed⟩ :=
        follows_wholes follows (by decide) _ (closed'.of_passes opened) _ _ readArgs
      obtain ⟨pieces, v, r, rfl, sign, same, each, joined⟩ := listed.reads
      refine ⟨_, named.trans (opened.trans passed), ?_⟩
      unfold Reading
      rw [Expr.unplaced, same]
      exact .call kind ⟨left, sign⟩ each joined
    · cases last
      exact ⟨_, named, .var kind⟩
  · exact absurd readForm (fail_run _ _ _ _)
  · obtain ⟨_, _, -, last⟩ := bind_eq_ok.mp readForm
    exact absurd last (fail_run _ _ _ _)

/-- A bound that may be left out, with its tokens. -/
def BoundRead (w : List Token) (e : Option Expr) : Prop :=
  ∃ bound : Option (List Token × Expr), w = boundWords bound ∧ Expr.unplacedOption e = bound.map Prod.snd ∧
    ∀ b ∈ bound, Reads .or b.1 b.2

omit follows in
theorem boundRead_none : BoundRead [] none := ⟨none, rfl, rfl, by simp⟩

omit follows in
theorem boundRead_some {w : List Token} {e : Expr} (reads : Reading .or w e) :
    BoundRead w (some e) := ⟨some (w, e.unplaced), rfl, rfl, by simpa using reads⟩

theorem follows_subscript {object : Expr} {v : List Token} {l : Token}
    (reads : Reading .suffixed v object) (left : l.kind = .lbracket) :
    Follows (subscript whole object) fun w e => Reading .suffixed (v ++ l :: w) e := by
  intro c closed e c' read
  have finish {m : Cursor} {start stop : Option Expr} {w u : List Token} {colon : Token}
      (passed : c.Passes (w ++ colon :: u) m) (lower : BoundRead w start)
      (sign : colon.kind = .colon) (upper : BoundRead u stop) (last : (do
        let _ ← expect .rbracket (some "Close the index with ']'.")
        return .slice object.pos object start stop : Parser Expr) m = .ok (e, c')) :
      ∃ w, c.Passes w c' ∧ Reading .suffixed (v ++ l :: w) e := by
    obtain ⟨_, _, readRight, same⟩ := bind_eq_ok.mp last
    obtain ⟨right, rfl, rfl⟩ := expect_eq_ok.mp readRight
    cases same
    obtain ⟨lower, rfl, starts, eachLower⟩ := lower
    obtain ⟨upper, rfl, stops, eachUpper⟩ := upper
    have ended := (closed.of_passes passed).passes_next (by simp [right])
    refine ⟨_, passed.trans ended, ?_⟩
    unfold Reading
    rw [Expr.unplaced, starts, stops]
    simpa using Reads.slice reads ⟨left, right⟩ eachLower sign eachUpper
  have slice {m : Cursor} {w : List Token} {start : Option Expr} (passed : c.Passes w m)
      (lower : BoundRead w start) (readSlice : (do
        let _ ← expect .colon
        let stop ← if ← at? .rbracket then pure none else some <$> whole
        let _ ← expect .rbracket (some "Close the index with ']'.")
        return .slice object.pos object start stop : Parser Expr) m = .ok (e, c')) :
      ∃ w, c.Passes w c' ∧ Reading .suffixed (v ++ l :: w) e := by
    obtain ⟨_, _, readColon, readStop⟩ := bind_eq_ok.mp readSlice
    obtain ⟨sign, rfl, rfl⟩ := expect_eq_ok.mp readColon
    have ready := closed.of_passes passed
    have second := ready.passes_next (by simp [sign])
    obtain ⟨_, _, readAt, readTail⟩ := bind_eq_ok.mp readStop
    cases readAt
    dsimp only at readTail
    split at readTail
    · exact finish (passed.trans second) lower sign boundRead_none readTail
    · rw [map_eq_pure_bind, bind_assoc] at readTail
      obtain ⟨_, _, readWhole, last⟩ := bind_eq_ok.mp readTail
      obtain ⟨u, upTo, bound⟩ := follows _ (ready.of_passes second) _ _ readWhole
      exact finish (by simpa using (passed.trans second).trans upTo) lower sign
        (boundRead_some bound) last
  obtain ⟨_, _, readAt, readTail⟩ := bind_eq_ok.mp read
  cases readAt
  split at readTail
  · exact slice (.refl c) boundRead_none readTail
  · obtain ⟨position, m, readWhole, readRight⟩ := bind_eq_ok.mp readTail
    obtain ⟨w, passed, bound⟩ := follows _ closed _ _ readWhole
    obtain ⟨_, m', readClose, last⟩ := bind_eq_ok.mp readRight
    rcases accept_eq_ok readClose with ⟨rfl, right, rfl⟩ | ⟨rfl, -, rfl⟩
    · cases last
      have ended := (closed.of_passes passed).passes_next (by simp [right])
      have reads' : Reading .suffixed (v ++ l :: w ++ [m.current])
          (.index object.pos object position) := .index reads ⟨left, right⟩ bound
      exact ⟨_, passed.trans ended, by simpa using reads'⟩
    · exact slice passed (boundRead_some bound) last

theorem follows_suffixes (fuel : Nat) : ∀ e v, Reading .suffixed v e →
    Follows (suffixes whole fuel e) fun w e => Reading .suffixed (v ++ w) e := by
  induction fuel with
  | zero =>
    intro e v reads c _ a c' read
    cases read
    exact ⟨[], .refl _, by simpa using reads⟩
  | succ fuel ih =>
    intro e v reads c closed a c' read
    obtain ⟨bracket, d, readLeft, readTail⟩ := bind_eq_ok.mp read
    rcases accept_eq_ok readLeft with ⟨rfl, left, rfl⟩ | ⟨rfl, -, rfl⟩
    · have opened := closed.passes_next (by simp [left])
      have closed' := closed.of_passes opened
      obtain ⟨e', m, readSub, last⟩ := bind_eq_ok.mp readTail
      obtain ⟨w, passed, reads'⟩ := follows_subscript follows reads left _ closed' _ _ readSub
      obtain ⟨u, passedTail, holds⟩ := ih _ _ reads' _ (closed'.of_passes passed) _ _ last
      exact ⟨_, opened.trans (passed.trans passedTail), by simpa using holds⟩
    · obtain ⟨dotted, m', readDot, readName⟩ := bind_eq_ok.mp readTail
      rcases accept_eq_ok readDot with ⟨rfl, dot, rfl⟩ | ⟨rfl, -, rfl⟩
      · have pointed := closed.passes_next (by simp [dot])
        have closed' := closed.of_passes pointed
        obtain ⟨name, m, readWord, readCall⟩ := bind_eq_ok.mp readName
        obtain ⟨word, m', readIdentifier, same⟩ := bind_eq_ok.mp readWord
        obtain ⟨kind, rfl, rfl⟩ := expect_eq_ok.mp readIdentifier
        cases same
        have named := closed'.passes_next (by simp [kind])
        have closed'' := closed'.of_passes named
        obtain ⟨called, m, readParen, last⟩ := bind_eq_ok.mp readCall
        rcases accept_eq_ok readParen with ⟨rfl, left, rfl⟩ | ⟨rfl, -, rfl⟩
        · obtain ⟨args, m, readArgs, last⟩ := bind_eq_ok.mp last
          have opened := closed''.passes_next (by simp [left])
          have ready := closed''.of_passes opened
          obtain ⟨_, passed, listed⟩ := follows_wholes follows (by decide) _ ready _ _ readArgs
          obtain ⟨pieces, w, r, rfl, right, same, each, joined⟩ := listed.reads
          have reads' : Reading .suffixed
              (v ++ d.current :: d.next.current :: d.next.next.current :: w ++ [r])
              (.invoke e.pos e d.next.current.literal args) := by
            unfold Reading
            rw [Expr.unplaced, same]
            exact .invoke reads dot kind ⟨left, right⟩ each joined
          obtain ⟨u, passedTail, holds⟩ := ih _ _ reads' _ (ready.of_passes passed) _ _ last
          exact ⟨_, pointed.trans (named.trans (opened.trans (passed.trans passedTail))),
            by simpa using holds⟩
        · have reads' : Reading .suffixed (v ++ [d.current, d.next.current])
              (.member e.pos e d.next.current.literal) := .member reads dot kind
          obtain ⟨u, passedTail, holds⟩ := ih _ _ reads' _ closed'' _ _ last
          exact ⟨_, pointed.trans (named.trans passedTail), by simpa using holds⟩
      · cases readName
        exact ⟨[], .refl _, by simpa using reads⟩

theorem follows_suffixed : Follows (suffixed whole) (Reading .suffixed) := by
  intro c closed e c' read
  obtain ⟨first, m, readAtom, readTail⟩ := bind_eq_ok.mp read
  obtain ⟨v, passed, reads⟩ := follows_atom follows c closed _ _ readAtom
  obtain ⟨_, _, readLength, last⟩ := bind_eq_ok.mp readTail
  cases readLength
  obtain ⟨w, passedTail, holds⟩ := follows_suffixes follows _ first v (.lift rfl reads) m
    (closed.of_passes passed) _ _ last
  exact ⟨_, passed.trans passedTail, holds⟩

theorem follows_signed (fuel : Nat) : Follows (signed whole fuel) (Reading .unary) := by
  induction fuel with
  | zero =>
    exact (follows_suffixed follows).weaken fun w e reads => .lift rfl (.lift rfl reads)
  | succ fuel ih =>
    intro c closed e c' read
    obtain ⟨_, _, readAt, readTail⟩ := bind_eq_ok.mp read
    cases readAt
    split at readTail
    · next minus =>
      have minus : c.current.kind = .minus := by simpa using minus
      have signed := closed.passes_next (by simp [minus])
      obtain ⟨_, _, readSign, readOperand⟩ := bind_eq_ok.mp readTail
      cases readSign
      obtain ⟨operand, _, readRest, last⟩ := bind_eq_ok.mp readOperand
      cases last
      obtain ⟨w, passed, reads⟩ := ih _ (closed.of_passes signed) _ _ readRest
      exact ⟨_, signed.trans passed, .negative minus reads⟩
    · obtain ⟨base, m, readBase, readPower⟩ := bind_eq_ok.mp readTail
      obtain ⟨v, passed, reads⟩ := follows_suffixed follows c closed _ _ readBase
      obtain ⟨raised, m', readSign, last⟩ := bind_eq_ok.mp readPower
      rcases accept_eq_ok readSign with ⟨rfl, sign, rfl⟩ | ⟨rfl, -, rfl⟩
      · obtain ⟨exponent, _, readExponent, last⟩ := bind_eq_ok.mp last
        cases last
        have closed' := closed.of_passes passed
        have signed := closed'.passes_next (by simp [sign])
        obtain ⟨w, passedExponent, other⟩ := ih _ (closed'.of_passes signed) _ _ readExponent
        exact ⟨_, passed.trans (signed.trans passedExponent),
          .lift rfl (.power reads sign other)⟩
      · cases last
        exact ⟨v, passed, .lift rfl (.lift rfl reads)⟩

theorem follows_comparison : Follows (comparison whole) (Reading .comparison) :=
  follows_leftLevel (m := .sum) rfl (mem_of_operatorOf .comparison) <|
    follows_leftLevel (m := .term) rfl (mem_of_operatorOf .sum) <|
      follows_leftLevel (m := .unary) rfl (mem_of_operatorOf .term) <|
        follows_remaining (follows_signed follows)

theorem follows_negation (fuel : Nat) : Follows (negation whole fuel) (Reading .not) := by
  have plain : Follows (comparison whole) (Reading .not) :=
    (follows_comparison follows).weaken fun w e reads => .lift rfl reads
  induction fuel with
  | zero => exact plain
  | succ fuel ih =>
    intro c closed e c' read
    obtain ⟨_, _, readAt, readTail⟩ := bind_eq_ok.mp read
    cases readAt
    split at readTail
    · next negated =>
      have negated : c.current.kind = .kwNot := by simpa using negated
      have signed := closed.passes_next (by simp [negated])
      obtain ⟨_, _, readSign, readOperand⟩ := bind_eq_ok.mp readTail
      cases readSign
      obtain ⟨operand, _, readRest, last⟩ := bind_eq_ok.mp readOperand
      cases last
      obtain ⟨w, passed, reads⟩ := ih _ (closed.of_passes signed) _ _ readRest
      exact ⟨_, signed.trans passed, .negation negated reads⟩
    · exact plain c closed e c' readTail

theorem follows_disjunction : Follows (disjunction whole) (Reading .or) :=
  follows_leftLevel (m := .and) rfl (mem_of_operatorOf .or) <|
    follows_leftLevel (m := .not) rfl (mem_of_operatorOf .and) <|
      follows_remaining (follows_negation follows)

end Expressions

/-- What is read as an expression is one. -/
theorem follows_expression : Follows expression (Reading .or) := by
  refine follows_remaining fun depth => ?_
  induction depth with
  | zero => exact follows_disjunction fun c _ a c' read => absurd read (fail_run _ _ _ _)
  | succ depth ih => exact follows_disjunction ih

end Stepwise.Parser
