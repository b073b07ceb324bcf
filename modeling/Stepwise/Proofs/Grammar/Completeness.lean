import Stepwise.Proofs.Grammar.Soundness

/-!
Every expression of the grammar is read, wherever something follows it that cannot go on with it.
The levels that group to the left are read in two parts, an operand and a tail of operators with
operands; `Reaches` says that the reader comes to stand behind an expression with its tree in hand
and the tail still to read, so that the induction can go along the left operands.
-/
namespace Stepwise

namespace Grammar

open Token (Kind)

/-- How tightly a kind that goes on with an expression holds on to what stands before it. Other
kinds do not hold on to it at all. -/
def grip : Kind → Nat
  | .kwOr => 1
  | .kwAnd => 2
  | .eq | .neq | .lt | .gt | .lte | .gte | .kwIn => 4
  | .plus | .minus => 5
  | .multiply | .divide | .modulo | .floorDiv => 6
  | .power => 9
  | .lbracket | .dot => 10
  | .lparen => 12
  | _ => 0

/-- The strongest grip that leaves an expression of a level whole: its own operators do, what goes
on with the levels inside it does not. -/
def Level.reach : Level → Nat
  | or => 1
  | and => 2
  | not => 3
  | comparison => 4
  | sum => 5
  | term => 6
  | unary => 7
  | power => 8
  | suffixed => 10
  | atom => 11

theorem Level.reach_lt {l m : Level} (next : l.next? = some m) : l.reach < m.reach := by
  cases l <;> cases next <;> decide

theorem Level.grip_of_operator {l : Level} {k : Kind} {op : BinaryOp}
    (known : (k, op) ∈ l.operators) : grip k = l.reach := by
  have all : ∀ entry ∈ l.operators, grip entry.1 = l.reach := by
    cases l <;> decide
  exact all _ known

/-- Nothing grips as tightly as a sign without gripping as tightly as a power. -/
theorem grip_gap (k : Kind) : grip k ≤ 6 ∨ 9 ≤ grip k := by
  unfold grip
  split <;> simp

end Grammar

namespace Parser

open Token (Kind)
open Grammar

variable {α β : Type}

/-- What a level that groups to the left has on both sides of its operators. -/
def operandOf (whole : Parser Expr) : Level → Parser Expr
  | .or => conjunction whole
  | .and => do negation whole (← remaining)
  | .comparison => sum whole
  | .sum => term whole
  | _ => do signed whole (← remaining)

/-- The reader of a level. -/
def readerOf (whole : Parser Expr) (fuel : Nat) : Level → Parser Expr
  | .or => disjunction whole
  | .and => conjunction whole
  | .not => negation whole fuel
  | .comparison => comparison whole
  | .sum => sum whole
  | .term => term whole
  | .unary | .power => signed whole fuel
  | .suffixed => suffixed whole
  | .atom => atom whole

/-- What the reader of a level still does with a tree in hand. -/
def tailOf (whole : Parser Expr) (fuel : Nat) (l : Level) (e : Expr) : Parser Expr :=
  match l with
  | .or | .and | .comparison | .sum | .term => leftTail (operatorOf l) (operandOf whole l) fuel e
  | .suffixed => suffixes whole fuel e
  | .not | .unary | .power | .atom => return e

/-- A tail ends in front of a kind that does not go on with its level. -/
theorem tailOf_ends {whole : Parser Expr} {fuel : Nat} {l : Level} {e : Expr} {c : Cursor}
    (loose : grip c.current.kind < l.reach) : tailOf whole fuel l e c = .ok (e, c) := by
  have left : leftTail (operatorOf l) (operandOf whole l) fuel e c = .ok (e, c) := by
    cases fuel with
    | zero => rfl
    | succ fuel =>
      unfold leftTail
      rw [bind_of_ok kind_run]
      cases found : operatorOf l c.current.kind with
      | none => rfl
      | some op =>
        have same := Level.grip_of_operator (mem_of_operatorOf l _ _ found)
        omega
  cases l with
  | or | and | comparison | sum | term => exact left
  | not | unary | power | atom => rfl
  | suffixed =>
    cases fuel with
    | zero => rfl
    | succ fuel =>
      have bracket : c.current.kind ≠ .lbracket := by
        intro same
        rw [same] at loose
        exact absurd loose (by decide)
      have dot : c.current.kind ≠ .dot := by
        intro same
        rw [same] at loose
        exact absurd loose (by decide)
      change suffixes whole (fuel + 1) e c = _
      unfold suffixes
      rw [bind_of_ok (accept_of_ne bracket), if_neg (by decide), bind_of_ok (accept_of_ne dot)]
      rfl

/-- In front of an expression, no reader finds a token that closes or separates. -/
theorem current_ne {l : Level} {w : List Token} {e : Expr} (reads : Reads l w e) {c m : Cursor}
    (passes : c.Passes w m) {k : Kind}
    (closes : k ∈ [.rparen, .rbracket, .rbrace, .colon, .comma, .eof]) : c.current.kind ≠ k := by
  obtain ⟨t, u, rfl, -⟩ := reads.opening
  rintro rfl
  rw [passes.current] at closes
  exact reads.head_ne rfl closes

/-- The reader gives the tree and stands behind the tokens, wherever nothing goes on with them. -/
def Meets (p : Parser α) (unplaced : α → β) (w : List Token) (b : β) : Prop :=
  ∀ c c' : Cursor, c.Passes w c' → grip c'.current.kind = 0 →
    ∃ a, p c = .ok (a, c') ∧ unplaced a = b

/-- The reader of a level comes to stand behind the tokens with their tree in hand. -/
def Reaches (whole : Parser Expr) (l : Level) (w : List Token) (e : Expr) : Prop :=
  ∀ fuel c c', w.length ≤ fuel → c.Passes w c' → grip c'.current.kind ≤ l.reach →
    ∃ e' n, e'.unplaced = e ∧ c'.tokens.length ≤ n ∧
      readerOf whole fuel l c = tailOf whole n l e' c'

theorem Reaches.ends {whole : Parser Expr} {l : Level} {w : List Token} {e : Expr}
    (reaches : Reaches whole l w e) (fuel : Nat) {c c' : Cursor} (enough : w.length ≤ fuel)
    (passes : c.Passes w c') (loose : grip c'.current.kind < l.reach) :
    ∃ e', readerOf whole fuel l c = .ok (e', c') ∧ e'.unplaced = e := by
  obtain ⟨e', n, same, -, read⟩ := reaches fuel c c' enough passes (Nat.le_of_lt loose)
  exact ⟨e', read.trans (tailOf_ends loose), same⟩

theorem separated_length {ws : List (List Token)} {w : List Token} (joined : Separated ws w)
    (filled : ∀ v ∈ ws, 0 < v.length) :
    ws.length ≤ w.length ∧ ∀ v ∈ ws, v.length ≤ w.length := by
  induction joined with
  | none => simp
  | one v => simpa [Nat.one_le_iff_ne_zero, Nat.pos_iff_ne_zero] using filled v
  | @more v u rest ws comma sign others ih =>
    obtain ⟨count, each⟩ := ih fun v member => filled v (by simp [member])
    have first := filled v (by simp)
    constructor
    · simp at count ⊢
      omega
    · intro x member
      rcases List.mem_cons.mp member with rfl | member
      · simp
      · have := each x member
        simp
        omega

theorem separated_head {ws : List (List Token)} {u w : List Token} {t : Token}
    (joined : Separated ((t :: u) :: ws) w) : ∃ v, w = t :: v := by
  cases joined with
  | one _ => exact ⟨u, rfl⟩
  | more _ _ => exact ⟨_, rfl⟩

/-- Items with commas between them are read one by one. -/
theorem commaSeparated_meets {item : Parser α} {unplaced : α → β}
    {pieces : List (List Token × β)} (meets : ∀ piece ∈ pieces, Meets item unplaced piece.1 piece.2)
    {w : List Token} (joined : Separated (pieces.map Prod.fst) w) (some_ : pieces ≠ []) (fuel : Nat)
    (enough : pieces.length ≤ fuel) {c c' : Cursor} (passes : c.Passes w c')
    (loose : grip c'.current.kind = 0) (ended : c'.current.kind ≠ .comma) :
    ∃ as, commaSeparated item fuel c = .ok (as, c') ∧ as.map unplaced = pieces.map Prod.snd := by
  induction pieces generalizing w fuel c with
  | nil => exact absurd rfl some_
  | cons piece rest ih =>
    obtain _ | fuel := fuel
    · simp at enough
    have first := meets piece (by simp)
    unfold commaSeparated
    cases rest with
    | nil =>
      cases joined
      obtain ⟨a, read, same⟩ := first c c' passes loose
      refine ⟨[a], ?_, by simp [same]⟩
      rw [bind_of_ok read, bind_of_ok (accept_of_ne ended)]
      rfl
    | cons next rest =>
      obtain _ | _ | @⟨_, _, others, _, comma, sign, joined⟩ := joined
      obtain ⟨m, passed, passes⟩ := passes.split
      have here := passes.current
      obtain ⟨a, read, same⟩ := first c m passed (by rw [here, sign]; rfl)
      obtain ⟨as, readRest, sames⟩ := ih (fun piece member => meets piece (by simp [member])) joined
        (by simp) fuel (by simpa using enough) (passes.next (by simp [sign]))
      refine ⟨a :: as, ?_, by simp [same, sames]⟩
      rw [bind_of_ok read, bind_of_ok (accept_of_eq (by rw [here, sign])), if_pos rfl,
        bind_of_ok readRest]
      rfl

theorem listUntil_meets {item : Parser α} {unplaced : α → β} {close : Kind}
    (suggestion : Option String) {pieces : List (List Token × β)}
    (meets : ∀ piece ∈ pieces, Meets item unplaced piece.1 piece.2)
    (opens : ∀ piece ∈ pieces, ∃ t u, piece.1 = t :: u ∧ t.kind ≠ close) {w : List Token}
    (joined : Separated (pieces.map Prod.fst) w) {r : Token} (right : r.kind = close)
    (loose : grip close = 0) (bracket : close ≠ .comma ∧ close ≠ .eof) {c c' : Cursor}
    (passes : c.Passes (w ++ [r]) c') : ∃ as, listUntil close suggestion item c = .ok (as, c') ∧
      as.map unplaced = pieces.map Prod.snd := by
  obtain ⟨m, passed, last⟩ := passes.split
  have here := last.current
  have behind : m.next = c' := (last.next (by rw [right]; exact bracket.2)).eq
  have closes : expect close suggestion m = .ok (r, c') := by
    rw [expect_of_eq (by rw [here, right]), here, behind]
  have finish (as : List α) :
      (do let _ ← expect close suggestion; return as : Parser (List α)) m = .ok (as, c') := by
    rw [bind_of_ok closes]
    rfl
  unfold listUntil
  rw [bind_of_ok (at_run close)]
  cases pieces with
  | nil =>
    cases joined
    cases passed.eq
    refine ⟨[], ?_, rfl⟩
    rw [here, right, beq_self_eq_true, if_pos rfl, bind_of_ok (pure_run [])]
    exact finish []
  | cons piece rest =>
    have filled : ∀ v ∈ (piece :: rest).map Prod.fst, 0 < v.length := by
      intro v member
      obtain ⟨p, inside, rfl⟩ := List.mem_map.mp member
      obtain ⟨t, u, same, -⟩ := opens p inside
      simp [same]
    obtain ⟨count, -⟩ := separated_length joined filled
    have elsewhere : c.current.kind ≠ close := by
      obtain ⟨t, u, same, other⟩ := opens piece (by simp)
      rw [List.map_cons, same] at joined
      obtain ⟨v, rfl⟩ := separated_head joined
      rwa [passed.current]
    have length := passed.length
    obtain ⟨as, read, same⟩ := commaSeparated_meets meets joined (by simp) c.tokens.length
      (by simp at count ⊢; omega) passed (by rwa [here, right]) (by rw [here, right]; exact bracket.1)
    refine ⟨as, ?_, same⟩
    rw [if_neg (by simpa using elsewhere), bind_of_ok remaining_run, bind_of_ok read]
    exact finish as

section Expressions

variable {whole : Parser Expr} {bound : Nat}
  (complete : ∀ w e, w.length < bound → Reads .or w e → Meets whole Expr.unplaced w e)
include complete

/-- The kinds that close a list. -/
def closing : List Kind := [.rparen, .rbracket, .rbrace]

omit complete in
theorem closing_loose {k : Kind} (closes : k ∈ closing) :
    grip k = 0 ∧ k ≠ .comma ∧ k ≠ .eof ∧ k ∈ [.rparen, .rbracket, .rbrace, .colon, .comma, .eof] := by
  simp only [closing, List.mem_cons, List.not_mem_nil, or_false] at closes
  rcases closes with rfl | rfl | rfl <;> simp [grip]

theorem wholes_meets {close : Kind} (suggestion : Option String)
    {pieces : List (List Token × Expr)} (each : ∀ piece ∈ pieces, Reads .or piece.1 piece.2)
    {w : List Token} (joined : Separated (pieces.map Prod.fst) w) (short : w.length < bound)
    {r : Token} (right : r.kind = close) (closes : close ∈ closing) {c c' : Cursor}
    (passes : c.Passes (w ++ [r]) c') : ∃ as, listUntil close suggestion whole c = .ok (as, c') ∧
      Expr.unplacedAll as = pieces.map Prod.snd := by
  have filled : ∀ v ∈ pieces.map Prod.fst, 0 < v.length := by
    intro v member
    obtain ⟨piece, inside, rfl⟩ := List.mem_map.mp member
    exact (each piece inside).length_pos
  have meets : ∀ piece ∈ pieces, Meets whole Expr.unplaced piece.1 piece.2 := by
    intro piece member
    have fits := (separated_length joined filled).2 _ (List.mem_map_of_mem member)
    exact complete _ _ (Nat.lt_of_le_of_lt fits short) (each piece member)
  have opens : ∀ piece ∈ pieces, ∃ t u, piece.1 = t :: u ∧ t.kind ≠ close := by
    intro piece member
    obtain ⟨t, u, opening, -⟩ := (each piece member).opening
    refine ⟨t, u, opening, fun same => (each piece member).head_ne opening ?_⟩
    rw [same]
    exact (closing_loose closes).2.2.2
  have quiet := closing_loose closes
  obtain ⟨as, read, same⟩ := listUntil_meets suggestion meets opens joined right quiet.1
    ⟨quiet.2.1, quiet.2.2.1⟩ passes
  exact ⟨as, read, by rw [Expr.unplacedAll_eq_map, same]⟩

theorem recordEntry_meets {entry : Labelled} (signed : entry.Signed)
    (reads : Reads .or entry.words entry.value) (short : entry.words.length < bound) :
    Meets (recordEntry whole) (fun read => (read.1, read.2.unplaced)) entry.all
      (entry.key.literal, entry.value) := by
  intro c c' passes loose
  have key := passes.current
  have named := passes.next (by rcases signed.key with kind | kind <;> simp [kind])
  have colon := named.current
  have after := named.next (by simp [signed.colon])
  obtain ⟨e, read, same⟩ := complete _ _ short reads _ _ after loose
  refine ⟨(entry.key.literal, e), ?_, by simp [same]⟩
  unfold recordEntry
  rw [bind_of_ok current_run, if_pos (by simpa [key] using signed.key), bind_of_ok advance_run,
    bind_of_ok (expect_of_eq (by rw [colon, signed.colon])), bind_of_ok read, key]
  rfl

theorem entries_meets (suggestion : Option String) {entries : List Labelled}
    (signed : ∀ entry ∈ entries, entry.Signed)
    (each : ∀ entry ∈ entries, Reads .or entry.words entry.value) {w : List Token}
    (joined : Separated (entries.map Labelled.all) w) (short : w.length < bound) {r : Token}
    (right : r.kind = .rbrace) {c c' : Cursor} (passes : c.Passes (w ++ [r]) c') :
    ∃ as, listUntil .rbrace suggestion (recordEntry whole) c = .ok (as, c') ∧
      Expr.unplacedEntries as = entries.map fun entry => (entry.key.literal, entry.value) := by
  let pieces := entries.map fun entry => (entry.all, (entry.key.literal, entry.value))
  have words : pieces.map Prod.fst = entries.map Labelled.all := by
    simp [pieces, Function.comp_def]
  have values : pieces.map Prod.snd = entries.map fun entry => (entry.key.literal, entry.value) := by
    simp [pieces, Function.comp_def]
  have filled : ∀ v ∈ entries.map Labelled.all, 0 < v.length := by
    intro v member
    obtain ⟨entry, inside, rfl⟩ := List.mem_map.mp member
    simp [Labelled.all]
  have meets : ∀ piece ∈ pieces, Meets (recordEntry whole)
      (fun read => (read.1, read.2.unplaced)) piece.1 piece.2 := by
    intro piece member
    obtain ⟨entry, inside, rfl⟩ := List.mem_map.mp member
    have fits := (separated_length joined filled).2 _ (List.mem_map_of_mem inside)
    simp only [Labelled.all, List.length_cons] at fits
    exact recordEntry_meets complete (signed entry inside) (each entry inside) (by omega)
  have opens : ∀ piece ∈ pieces, ∃ t u, piece.1 = t :: u ∧ t.kind ≠ .rbrace := by
    intro piece member
    obtain ⟨entry, inside, rfl⟩ := List.mem_map.mp member
    refine ⟨_, _, rfl, ?_⟩
    rcases (signed entry inside).key with kind | kind <;> simp [kind]
  obtain ⟨as, read, same⟩ := listUntil_meets suggestion meets opens (by rwa [words]) right rfl
    (by decide) passes
  exact ⟨as, read, by rw [Expr.unplacedEntries_eq_map, same, values]⟩

theorem subscript_index (object : Expr) {w : List Token} {e : Expr} (reads : Reads .or w e)
    (short : w.length < bound) {r : Token} (right : r.kind = .rbracket) {c c' : Cursor}
    (passes : c.Passes (w ++ [r]) c') :
    ∃ position, subscript whole object c = .ok (.index object.pos object position, c') ∧
      position.unplaced = e := by
  obtain ⟨m, passed, last⟩ := passes.split
  have here := last.current
  have behind := (last.next (by simp [right])).eq
  have colon : (c.current.kind == .colon) = false := by
    simpa using current_ne reads passed (by decide)
  obtain ⟨position, read, same⟩ := complete _ _ short reads c m passed (by simp [here, right, grip])
  refine ⟨position, ?_, same⟩
  unfold subscript
  rw [bind_of_ok (at_run _), colon, if_neg (by decide), bind_of_ok read,
    bind_of_ok (accept_of_eq (by rw [here, right])), if_pos rfl, behind]
  rfl

theorem subscript_slice (object : Expr) {start stop : Option (List Token × Expr)}
    (lower : ∀ b ∈ start, Reads .or b.1 b.2) (upper : ∀ b ∈ stop, Reads .or b.1 b.2)
    (shortLower : (boundWords start).length < bound) (shortUpper : (boundWords stop).length < bound)
    {colon r : Token} (sign : colon.kind = .colon) (right : r.kind = .rbracket) {c c' : Cursor}
    (passes : c.Passes (boundWords start ++ colon :: (boundWords stop ++ [r])) c') :
    ∃ from_ to_, subscript whole object c = .ok (.slice object.pos object from_ to_, c') ∧
      Expr.unplacedOption from_ = start.map Prod.snd ∧
      Expr.unplacedOption to_ = stop.map Prod.snd := by
  obtain ⟨m, passed, tail⟩ := passes.split
  have atColon := tail.current
  have behind := tail.next (by simp [sign])
  obtain ⟨m', passedUpper, last⟩ := behind.split
  have atRight := last.current
  have ended := (last.next (by simp [right])).eq
  -- from the colon on, the reader goes on in the same way with and without a lower bound
  have slice (from_ : Option Expr) : ∃ to_, (do
      let _ ← expect .colon
      let stop ← if ← at? .rbracket then pure none else some <$> whole
      let _ ← expect .rbracket (some "Close the index with ']'.")
      return .slice object.pos object from_ stop : Parser Expr) m =
        .ok (.slice object.pos object from_ to_, c') ∧
      Expr.unplacedOption to_ = stop.map Prod.snd := by
    have finish (to_ : Option Expr) : (do
        let _ ← expect .rbracket (some "Close the index with ']'.")
        return .slice object.pos object from_ to_ : Parser Expr) m' =
          .ok (.slice object.pos object from_ to_, c') := by
      rw [bind_of_ok (expect_of_eq (by rw [atRight, right])), ended]
      rfl
    rw [bind_of_ok (expect_of_eq (by rw [atColon, sign])), bind_of_ok (at_run _)]
    cases stop with
    | none =>
      cases passedUpper.eq
      refine ⟨none, ?_, rfl⟩
      rw [atRight, right]
      exact finish none
    | some piece =>
      have reads := upper piece rfl
      have bracket : (m.next.current.kind == .rbracket) = false := by
        simpa using current_ne reads passedUpper (by decide)
      obtain ⟨e, read, same⟩ := complete _ _ shortUpper reads _ _ passedUpper
        (by simp [atRight, right, grip])
      refine ⟨some e, ?_, by simp [Expr.unplacedOption, same]⟩
      rw [bracket, if_neg (by decide), map_eq_pure_bind, bind_assoc, bind_of_ok read]
      exact finish (some e)
  cases start with
  | none =>
    cases passed.eq
    obtain ⟨to_, read, same⟩ := slice none
    refine ⟨none, to_, ?_, rfl, same⟩
    unfold subscript
    rw [bind_of_ok (at_run _), atColon, sign, beq_self_eq_true, if_pos rfl]
    exact read
  | some piece =>
    have reads := lower piece rfl
    have other : (c.current.kind == .colon) = false := by
      simpa using current_ne reads passed (by decide)
    obtain ⟨e, readLower, sameLower⟩ := complete _ _ shortLower reads _ _ passed
      (by simp [atColon, sign, grip])
    obtain ⟨to_, read, same⟩ := slice (some e)
    refine ⟨some e, to_, ?_, by simp [Expr.unplacedOption, sameLower], same⟩
    unfold subscript
    rw [bind_of_ok (at_run _), other, if_neg (by decide), bind_of_ok readLower,
      bind_of_ok (accept_of_ne (by simp [atColon, sign])), if_neg (by decide)]
    exact read

omit complete in
/-- A reader whose level has no tail reaches what it gives. -/
theorem reaches_of_ok {l : Level} {w : List Token} {e : Expr}
    (plain : l = .not ∨ l = .unary ∨ l = .power ∨ l = .atom)
    (reads : ∀ fuel c c', w.length ≤ fuel → c.Passes w c' → grip c'.current.kind ≤ l.reach →
      ∃ e', readerOf whole fuel l c = .ok (e', c') ∧ e'.unplaced = e) : Reaches whole l w e := by
  intro fuel c c' enough passes loose
  obtain ⟨e', read, same⟩ := reads fuel c c' enough passes loose
  refine ⟨e', c'.tokens.length, same, Nat.le_refl _, ?_⟩
  rw [read]
  rcases plain with rfl | rfl | rfl | rfl <;> rfl

omit complete in
/-- Literals are single tokens. -/
theorem literal_reaches {t : Token} {form : LiteralForm} {value : Constant} (inside : t.kind ≠ .eof)
    (run : ∀ c : Cursor, c.current = t →
      atom whole c = .ok (.literal (tokenPos t) form value, c.next)) :
    Reaches whole .atom [t] (.literal {} form value) := by
  apply reaches_of_ok (by simp)
  intro fuel c c' _ passes _
  refine ⟨.literal (tokenPos t) form value, ?_, rfl⟩
  rw [← (passes.next inside).eq]
  exact run c passes.current

omit complete in
theorem var_reaches {t : Token} (kind : t.kind = .identifier) :
    Reaches whole .atom [t] (.var {} t.literal) := by
  apply reaches_of_ok (by simp)
  intro fuel c c' _ passes loose
  have here := passes.current
  have behind := (passes.next (by simp [kind])).eq
  have open_ : c.next.current.kind ≠ .lparen := by
    intro same
    rw [← behind, same] at loose
    exact absurd loose (by decide)
  refine ⟨.var (tokenPos t) t.literal, ?_, rfl⟩
  change atom whole c = _
  unfold atom
  rw [bind_of_ok current_run, here]
  simp only [kind]
  rw [bind_of_ok advance_run, bind_of_ok (accept_of_ne open_), ← behind]
  rfl

theorem group_reaches {l r : Token} {w : List Token} {e : Expr}
    (pair : Bracketed .lparen .rparen l r) (reads : Reads .or w e) (short : w.length < bound) :
    Reaches whole .atom (l :: w ++ [r]) e := by
  apply reaches_of_ok (by simp)
  intro fuel c c' _ passes _
  have here := passes.current
  obtain ⟨m, passed, last⟩ := (passes.next (by simp [pair.left])).split
  have atRight := last.current
  have behind := (last.next (by simp [pair.right])).eq
  obtain ⟨e', read, same⟩ := complete _ _ short reads _ _ passed (by simp [atRight, pair.right, grip])
  refine ⟨e', ?_, same⟩
  change atom whole c = _
  unfold atom
  rw [bind_of_ok current_run, here]
  simp only [pair.left]
  rw [bind_of_ok advance_run, bind_of_ok read, bind_of_ok (expect_of_eq (by rw [atRight, pair.right])),
    behind]
  rfl

theorem call_reaches {t l r : Token} {w : List Token} {args : List (List Token × Expr)}
    (kind : t.kind = .identifier) (pair : Bracketed .lparen .rparen l r)
    (each : ∀ arg ∈ args, Reads .or arg.1 arg.2) (joined : Separated (args.map Prod.fst) w)
    (short : w.length < bound) :
    Reaches whole .atom (t :: l :: w ++ [r]) (.call {} t.literal (args.map Prod.snd)) := by
  apply reaches_of_ok (by simp)
  intro fuel c c' _ passes _
  have here := passes.current
  have named := passes.next (by simp [kind])
  have atLeft := named.current
  obtain ⟨as, read, same⟩ := wholes_meets complete (some "Close the argument list with ')'.") each
    joined short pair.right (by decide) (named.next (by simp [pair.left]))
  refine ⟨.call (tokenPos t) t.literal as, ?_, by rw [Expr.unplaced, same]⟩
  change atom whole c = _
  unfold atom
  rw [bind_of_ok current_run, here]
  simp only [kind]
  rw [bind_of_ok advance_run, bind_of_ok (accept_of_eq (by rw [atLeft, pair.left])), if_pos rfl]
  unfold arguments
  rw [bind_of_ok read]
  rfl

theorem list_reaches {l r : Token} {w : List Token} {elements : List (List Token × Expr)}
    (pair : Bracketed .lbracket .rbracket l r)
    (each : ∀ element ∈ elements, Reads .or element.1 element.2)
    (joined : Separated (elements.map Prod.fst) w) (short : w.length < bound) :
    Reaches whole .atom (l :: w ++ [r]) (.list {} (elements.map Prod.snd)) := by
  apply reaches_of_ok (by simp)
  intro fuel c c' _ passes _
  have here := passes.current
  obtain ⟨as, read, same⟩ := wholes_meets complete (some "Close the list with ']'.") each joined
    short pair.right (by decide) (passes.next (by simp [pair.left]))
  refine ⟨.list (tokenPos l) as, ?_, by rw [Expr.unplaced, same]⟩
  change atom whole c = _
  unfold atom
  rw [bind_of_ok current_run, here]
  simp only [pair.left]
  rw [bind_of_ok advance_run, bind_of_ok read]
  rfl

theorem record_reaches {l r : Token} {w : List Token} {entries : List Labelled}
    (pair : Bracketed .lbrace .rbrace l r) (signed : ∀ entry ∈ entries, entry.Signed)
    (each : ∀ entry ∈ entries, Reads .or entry.words entry.value)
    (joined : Separated (entries.map Labelled.all) w) (short : w.length < bound) :
    Reaches whole .atom (l :: w ++ [r])
      (.record {} (entries.map fun entry => (entry.key.literal, entry.value))) := by
  apply reaches_of_ok (by simp)
  intro fuel c c' _ passes _
  have here := passes.current
  obtain ⟨as, read, same⟩ := entries_meets complete (some "Close the object with '\x7d'.") signed
    each joined short pair.right (passes.next (by simp [pair.left]))
  refine ⟨.record (tokenPos l) as, ?_, by rw [Expr.unplaced, same]⟩
  change atom whole c = _
  unfold atom
  rw [bind_of_ok current_run, here]
  simp only [pair.left]
  rw [bind_of_ok advance_run, bind_of_ok read]
  rfl

omit complete in
/-- A suffix that is read behind an object leaves the tail of suffixes to read. -/
theorem suffix_reaches {v u : List Token} {a e : Expr} (object : Reaches whole .suffixed v a)
    (filled : 0 < u.length) (starts : ∀ m c' : Cursor, m.Passes u c' →
      grip m.current.kind ≤ Level.suffixed.reach)
    (step : ∀ (m c' : Cursor) (a' : Expr) (n : Nat), a'.unplaced = a → m.Passes u c' →
      grip c'.current.kind ≤ Level.suffixed.reach →
      ∃ e', e'.unplaced = e ∧ suffixes whole (n + 1) a' m = suffixes whole n e' c') :
    Reaches whole .suffixed (v ++ u) e := by
  intro fuel c c' enough passes loose
  obtain ⟨m, passed, rest⟩ := passes.split
  obtain ⟨a', n, same, remains, read⟩ :=
    object fuel c m (by simp at enough; omega) passed (starts m c' rest)
  have length := rest.length
  have some_ := c'.length_pos
  obtain ⟨n, rfl⟩ : ∃ k, n = k + 1 := ⟨n - 1, by omega⟩
  obtain ⟨e', sameWhole, readTail⟩ := step m c' a' n same rest loose
  exact ⟨e', n, sameWhole, by omega, read.trans readTail⟩

omit complete in
theorem member_reaches {dot t : Token} {v : List Token} {a : Expr}
    (object : Reaches whole .suffixed v a) (sign : dot.kind = .dot) (kind : t.kind = .identifier) :
    Reaches whole .suffixed (v ++ [dot, t]) (.member {} a t.literal) := by
  apply suffix_reaches object (by simp)
  · intro m c' passes
    rw [passes.current, sign]
    decide
  · intro m c' a' n same passes loose
    have atDot := passes.current
    have named := passes.next (by simp [sign])
    have atName := named.current
    have behind := (named.next (by simp [kind])).eq
    have open_ : c'.current.kind ≠ .lparen := by
      intro same
      rw [same] at loose
      exact absurd loose (by decide)
    refine ⟨.member a'.pos a' t.literal, by rw [Expr.unplaced, same], ?_⟩
    rw [suffixes, bind_of_ok (accept_of_ne (by simp [atDot, sign])), if_neg (by decide),
      bind_of_ok (accept_of_eq (by rw [atDot, sign])), if_pos rfl]
    unfold expectName
    rw [bind_assoc, bind_of_ok (expect_of_eq (by rw [atName, kind])), behind, atName]
    rw [bind_of_ok (pure_run _), bind_of_ok (accept_of_ne open_), if_neg (by decide)]

theorem invoke_reaches {dot t l r : Token} {v w : List Token} {a : Expr}
    {args : List (List Token × Expr)} (object : Reaches whole .suffixed v a)
    (sign : dot.kind = .dot) (kind : t.kind = .identifier)
    (pair : Bracketed .lparen .rparen l r) (each : ∀ arg ∈ args, Reads .or arg.1 arg.2)
    (joined : Separated (args.map Prod.fst) w) (short : w.length < bound) :
    Reaches whole .suffixed (v ++ dot :: t :: l :: w ++ [r])
      (.invoke {} a t.literal (args.map Prod.snd)) := by
  rw [List.append_assoc]
  apply suffix_reaches object (by simp)
  · intro m c' passes
    rw [passes.current, sign]
    decide
  · intro m c' a' n same passes loose
    have atDot := passes.current
    have named := passes.next (by simp [sign])
    have atName := named.current
    have opened := named.next (by simp [kind])
    have atLeft := opened.current
    obtain ⟨as, read, sameArgs⟩ := wholes_meets complete (some "Close the argument list with ')'.")
      each joined short pair.right (by decide) (opened.next (by simp [pair.left]))
    refine ⟨.invoke a'.pos a' t.literal as, by rw [Expr.unplaced, same, sameArgs], ?_⟩
    rw [suffixes, bind_of_ok (accept_of_ne (by simp [atDot, sign])), if_neg (by decide),
      bind_of_ok (accept_of_eq (by rw [atDot, sign])), if_pos rfl]
    unfold expectName
    rw [bind_assoc, bind_of_ok (expect_of_eq (by rw [atName, kind])), atName]
    rw [bind_of_ok (pure_run _), bind_of_ok (accept_of_eq (by rw [atLeft, pair.left])), if_pos rfl]
    unfold arguments
    rw [bind_of_ok read]

omit complete in
/-- A bracket behind an object is an index or a slice. -/
theorem bracket_reaches {l : Token} {v u : List Token} {a e : Expr}
    (object : Reaches whole .suffixed v a) (left : l.kind = .lbracket)
    (sub : ∀ (m c' : Cursor) (a' : Expr), a'.unplaced = a → m.Passes u c' →
      ∃ e', subscript whole a' m = .ok (e', c') ∧ e'.unplaced = e) :
    Reaches whole .suffixed (v ++ l :: u) e := by
  apply suffix_reaches object (by simp)
  · intro m c' passes
    rw [passes.current, left]
    decide
  · intro m c' a' n same passes _
    have atLeft := passes.current
    obtain ⟨e', read, sameWhole⟩ := sub _ c' a' same (passes.next (by simp [left]))
    refine ⟨e', sameWhole, ?_⟩
    rw [suffixes, bind_of_ok (accept_of_eq (by rw [atLeft, left])), if_pos rfl, bind_of_ok read]

theorem index_reaches {l r : Token} {v w : List Token} {a b : Expr}
    (object : Reaches whole .suffixed v a) (pair : Bracketed .lbracket .rbracket l r)
    (reads : Reads .or w b) (short : w.length < bound) :
    Reaches whole .suffixed (v ++ l :: w ++ [r]) (.index {} a b) := by
  rw [List.append_assoc]
  apply bracket_reaches object pair.left
  intro m c' a' same passes
  obtain ⟨position, read, samePosition⟩ := subscript_index complete a' reads short pair.right passes
  exact ⟨_, read, by rw [Expr.unplaced, same, samePosition]⟩

theorem slice_reaches {l r colon : Token} {v : List Token} {a : Expr}
    {start stop : Option (List Token × Expr)} (object : Reaches whole .suffixed v a)
    (pair : Bracketed .lbracket .rbracket l r) (lower : ∀ b ∈ start, Reads .or b.1 b.2)
    (sign : colon.kind = .colon) (upper : ∀ b ∈ stop, Reads .or b.1 b.2)
    (shortLower : (boundWords start).length < bound) (shortUpper : (boundWords stop).length < bound) :
    Reaches whole .suffixed (v ++ l :: boundWords start ++ colon :: boundWords stop ++ [r])
      (.slice {} a (start.map Prod.snd) (stop.map Prod.snd)) := by
  simp only [List.append_assoc, List.cons_append]
  apply bracket_reaches object pair.left
  intro m c' a' same passes
  obtain ⟨from_, to_, read, sameLower, sameUpper⟩ := subscript_slice complete a' lower upper
    shortLower shortUpper sign pair.right passes
  exact ⟨_, read, by rw [Expr.unplaced, same, sameLower, sameUpper]⟩

omit complete in
theorem unsigned_head {w : List Token} {e : Expr} (reads : Reads .suffixed w e) {c m : Cursor}
    (passes : c.Passes w m) : (c.current.kind == .minus) = false := by
  obtain ⟨t, u, rfl, opens⟩ := reads.opening
  rw [passes.current]
  rcases opens with atom | ⟨-, above⟩ | ⟨-, above⟩
  · revert atom
    simp +contextual [or_imp]
  · exact absurd (by simp) above
  · exact absurd above (by simp)

omit complete in
/-- Without a sign in front and a power behind, a signed expression is a suffixed one. -/
theorem unsigned_reaches {w : List Token} {e : Expr} (reads : Reads .suffixed w e)
    (reaches : Reaches whole .suffixed w e) : Reaches whole .power w e := by
  apply reaches_of_ok (by simp)
  intro fuel c c' enough passes loose
  obtain ⟨e', read, same⟩ := reaches.ends fuel enough passes (Nat.lt_of_le_of_lt loose (by decide))
  refine ⟨e', ?_, same⟩
  obtain _ | fuel := fuel
  · exact read
  have unsigned := unsigned_head reads passes
  have plain : c'.current.kind ≠ .power := by
    intro raised
    rw [raised] at loose
    exact absurd loose (by decide)
  change signed whole (fuel + 1) c = _
  rw [signed, bind_of_ok (at_run _), unsigned, if_neg (by decide)]
  change suffixed whole c = _ at read
  rw [bind_of_ok read, bind_of_ok (accept_of_ne plain)]
  rfl

omit complete in
theorem power_reaches {sign : Token} {v w : List Token} {a b : Expr} (base : Reads .suffixed v a)
    (reachesBase : Reaches whole .suffixed v a) (kind : sign.kind = .power)
    (exponent : Reaches whole .unary w b) :
    Reaches whole .power (v ++ sign :: w) (.binary {} .pow a b) := by
  apply reaches_of_ok (by simp)
  intro fuel c c' enough passes loose
  obtain ⟨m, passed, rest⟩ := passes.split
  have atSign := rest.current
  simp only [List.length_append, List.length_cons] at enough
  obtain ⟨fuel, rfl⟩ : ∃ k, fuel = k + 1 := ⟨fuel - 1, by omega⟩
  obtain ⟨a', readBase, sameBase⟩ := reachesBase.ends fuel (by omega) passed (by
    rw [atSign, kind]
    decide)
  have unraised : grip c'.current.kind < Level.unary.reach := by
    have gap := grip_gap c'.current.kind
    simp only [Level.reach] at loose ⊢
    omega
  obtain ⟨b', readExponent, sameExponent⟩ :=
    exponent.ends fuel (by omega) (rest.next (by simp [kind])) unraised
  have unsigned := unsigned_head base passed
  refine ⟨.binary a'.pos .pow a' b', ?_, by rw [Expr.unplaced, sameBase, sameExponent]⟩
  change signed whole (fuel + 1) c = _
  change suffixed whole c = _ at readBase
  change signed whole fuel m.next = _ at readExponent
  rw [signed, bind_of_ok (at_run _), unsigned, if_neg (by decide), bind_of_ok readBase,
    bind_of_ok (accept_of_eq (by rw [atSign, kind])), if_pos rfl, bind_of_ok readExponent]
  rfl

omit complete in
theorem negative_reaches {sign : Token} {w : List Token} {e : Expr} (kind : sign.kind = .minus)
    (operand : Reaches whole .unary w e) : Reaches whole .unary (sign :: w) (.unary {} .neg e) := by
  apply reaches_of_ok (by simp)
  intro fuel c c' enough passes loose
  have here := passes.current
  simp only [List.length_cons] at enough
  obtain ⟨fuel, rfl⟩ : ∃ k, fuel = k + 1 := ⟨fuel - 1, by omega⟩
  have ungrouped : grip c'.current.kind < Level.unary.reach := by
    have gap := grip_gap c'.current.kind
    simp only [Level.reach] at loose ⊢
    omega
  obtain ⟨e', read, same⟩ :=
    operand.ends fuel (by omega) (passes.next (by simp [kind])) ungrouped
  refine ⟨.unary (tokenPos sign) .neg e', ?_, by rw [Expr.unplaced, same]⟩
  change signed whole (fuel + 1) c = _
  change signed whole fuel c.next = _ at read
  rw [signed, bind_of_ok (at_run _), here, kind, beq_self_eq_true, if_pos rfl,
    bind_of_ok advance_run, bind_of_ok read, here]
  rfl

omit complete in
theorem negation_reaches {sign : Token} {w : List Token} {e : Expr} (kind : sign.kind = .kwNot)
    (operand : Reaches whole .not w e) : Reaches whole .not (sign :: w) (.unary {} .not e) := by
  apply reaches_of_ok (by simp)
  intro fuel c c' enough passes loose
  have here := passes.current
  simp only [List.length_cons] at enough
  obtain ⟨fuel, rfl⟩ : ∃ k, fuel = k + 1 := ⟨fuel - 1, by omega⟩
  obtain ⟨e', n, same, -, read⟩ :=
    operand fuel c.next c' (by omega) (passes.next (by simp [kind])) loose
  refine ⟨.unary (tokenPos sign) .not e', ?_, by rw [Expr.unplaced, same]⟩
  change negation whole (fuel + 1) c = _
  change negation whole fuel c.next = .ok (e', c') at read
  rw [negation, bind_of_ok (at_run _), here, kind, beq_self_eq_true, if_pos rfl,
    bind_of_ok advance_run, bind_of_ok read, here]
  rfl

omit complete in
theorem comparison_reaches {w : List Token} {e : Expr} (reads : Reads .comparison w e)
    (reaches : Reaches whole .comparison w e) : Reaches whole .not w e := by
  apply reaches_of_ok (by simp)
  intro fuel c c' enough passes loose
  obtain ⟨e', read, same⟩ := reaches.ends fuel enough passes (Nat.lt_of_le_of_lt loose (by decide))
  refine ⟨e', ?_, same⟩
  obtain _ | fuel := fuel
  · exact read
  have plain : (c.current.kind == .kwNot) = false := by
    obtain ⟨t, u, rfl, opens⟩ := reads.opening
    rw [passes.current]
    rcases opens with atom | ⟨minus, -⟩ | ⟨-, above⟩
    · revert atom
      simp +contextual [or_imp]
    · simp [minus]
    · exact absurd above (by simp)
  change negation whole (fuel + 1) c = _
  rw [negation, bind_of_ok (at_run _), plain, if_neg (by decide)]
  exact read

omit complete in
theorem atom_reaches {w : List Token} {e : Expr} (reaches : Reaches whole .atom w e) :
    Reaches whole .suffixed w e := by
  intro fuel c c' enough passes loose
  obtain ⟨e', read, same⟩ := reaches.ends fuel enough passes (Nat.lt_of_le_of_lt loose (by decide))
  refine ⟨e', c'.tokens.length, same, Nat.le_refl _, ?_⟩
  change atom whole c = _ at read
  change suffixed whole c = suffixes whole c'.tokens.length e' c'
  unfold suffixed
  rw [bind_of_ok read, bind_of_ok remaining_run]

/-- The levels that group to the left. -/
def grouping : List Level := [.or, .and, .comparison, .sum, .term]

omit complete in
theorem grouping_of_operator {l : Level} {k : Kind} {op : BinaryOp}
    (known : (k, op) ∈ l.operators) : l ∈ grouping := by
  cases l <;> simp [grouping] <;> simp [Level.operators] at known

omit complete in
/-- A level that groups to the left reads one operand with the reader of the next level. -/
theorem operandOf_run {l m : Level} (groups : l ∈ grouping) (next : l.next? = some m) (c : Cursor) :
    operandOf whole l c = readerOf whole c.tokens.length m c := by
  cases l <;> cases next <;> first | rfl | simp [grouping] at groups

omit complete in
theorem grouped_reaches {l m : Level} {w : List Token} {e : Expr} (groups : l ∈ grouping)
    (next : l.next? = some m) (reaches : Reaches whole m w e) : Reaches whole l w e := by
  intro fuel c c' enough passes loose
  have length := passes.length
  obtain ⟨e', read, same⟩ := reaches.ends c.tokens.length (by omega) passes
    (Nat.lt_of_le_of_lt loose (Level.reach_lt next))
  refine ⟨e', c'.tokens.length, same, Nat.le_refl _, ?_⟩
  have level : leftLevel (operatorOf l) (operandOf whole l) c =
      leftTail (operatorOf l) (operandOf whole l) c'.tokens.length e' c' := by
    unfold leftLevel
    rw [bind_of_ok ((operandOf_run groups next c).trans read), bind_of_ok remaining_run]
  cases l <;> first | exact level | simp [grouping] at groups

omit complete in
theorem binary_reaches {l m : Level} {sign : Token} {op : BinaryOp} {v w : List Token} {a b : Expr}
    (next : l.next? = some m) (known : (sign.kind, op) ∈ l.operators)
    (left : Reaches whole l v a) (right : Reaches whole m w b) :
    Reaches whole l (v ++ sign :: w) (.binary {} op a b) := by
  intro fuel c c' enough passes loose
  have groups := grouping_of_operator known
  obtain ⟨p, passed, rest⟩ := passes.split
  have atSign := rest.current
  have length := rest.length
  simp only [List.length_append, List.length_cons] at enough length
  obtain ⟨a', n, sameLeft, remains, read⟩ := left fuel c p (by omega) passed
    (by rw [atSign]; exact Nat.le_of_eq (Level.grip_of_operator known))
  obtain ⟨n, rfl⟩ : ∃ k, n = k + 1 := ⟨n - 1, by omega⟩
  have behind := rest.next (Level.operator_ne_eof known)
  have length' := behind.length
  obtain ⟨b', readRight, sameRight⟩ := right.ends p.next.tokens.length (by omega) behind
    (Nat.lt_of_le_of_lt loose (Level.reach_lt next))
  refine ⟨.binary a'.pos op a' b', n, by rw [Expr.unplaced, sameLeft, sameRight], by omega, ?_⟩
  have tail : leftTail (operatorOf l) (operandOf whole l) (n + 1) a' p =
      leftTail (operatorOf l) (operandOf whole l) n (.binary a'.pos op a' b') c' := by
    rw [leftTail, bind_of_ok kind_run, atSign, operatorOf_of_mem known]
    dsimp only
    rw [bind_of_ok advance_run, bind_of_ok ((operandOf_run groups next _).trans readRight)]
  rw [read]
  cases l <;> first | exact tail | simp [grouping] at groups

/-- Every expression is read by the reader of its level. -/
theorem reaches {l : Level} {w : List Token} {e : Expr} (reads : Reads l w e)
    (fits : w.length ≤ bound) : Reaches whole l w e := by
  induction reads with
  | number kind | string kind | yes kind | no kind =>
    apply literal_reaches (by simp [kind])
    intro c here
    unfold atom
    rw [bind_of_ok current_run, here]
    simp only [kind]
    rfl
  | var kind => exact var_reaches kind
  | group pair inner _ => exact group_reaches complete pair inner (by simp at fits; omega)
  | call kind pair each joined _ =>
    exact call_reaches complete kind pair each joined (by simp at fits; omega)
  | list pair each joined _ => exact list_reaches complete pair each joined (by simp at fits; omega)
  | record pair signed each joined _ =>
    exact record_reaches complete pair signed each joined (by simp at fits; omega)
  | index object pair position ih _ =>
    exact index_reaches complete (ih (by simp at fits; omega)) pair position
      (by simp at fits; omega)
  | slice object pair lower sign upper ih _ _ =>
    exact slice_reaches complete (ih (by simp at fits; omega)) pair lower sign upper
      (by simp at fits; omega) (by simp at fits; omega)
  | member object sign kind ih => exact member_reaches (ih (by simp at fits; omega)) sign kind
  | invoke object sign kind pair each joined ih _ =>
    exact invoke_reaches complete (ih (by simp at fits; omega)) sign kind pair each joined
      (by simp at fits; omega)
  | power base kind exponent ih ih' =>
    exact power_reaches base (ih (by simp at fits; omega)) kind (ih' (by simp at fits; omega))
  | negative kind operand ih => exact negative_reaches kind (ih (by simp at fits; omega))
  | negation kind operand ih => exact negation_reaches kind (ih (by simp at fits; omega))
  | binary next known left right ih ih' =>
    exact binary_reaches next known (ih (by simp at fits; omega)) (ih' (by simp at fits; omega))
  | @lift l m w e next inner ih =>
    have inside := ih fits
    cases l with
    | or | and | comparison | sum | term => exact grouped_reaches (by decide) next inside
    | not =>
      cases next
      exact comparison_reaches inner inside
    | unary =>
      cases next
      intro fuel c c' enough passes loose
      exact inside fuel c c' enough passes (Nat.le_succ_of_le loose)
    | power =>
      cases next
      exact unsigned_reaches inner inside
    | suffixed =>
      cases next
      exact atom_reaches inside
    | atom => cases next

theorem disjunction_meets {w : List Token} {e : Expr} (reads : Reads .or w e)
    (fits : w.length ≤ bound) : Meets (disjunction whole) Expr.unplaced w e := by
  intro c c' passes loose
  exact (reaches complete reads fits).ends w.length (Nat.le_refl _) passes (by rw [loose]; decide)

end Expressions

/-- As many levels of brackets as there are tokens suffice. -/
theorem nested_meets (depth : Nat) : ∀ w e, w.length ≤ depth + 1 → Reads .or w e →
    Meets (nested depth) Expr.unplaced w e := by
  induction depth with
  | zero =>
    intro w e short reads
    have vacuous : ∀ v e', v.length < 1 → Reads .or v e' →
        Meets (fail "Unexpected nesting") Expr.unplaced v e' := by
      intro v e' empty inside
      exact absurd inside.length_pos (by omega)
    exact disjunction_meets vacuous reads (by omega)
  | succ depth ih =>
    intro w e short reads
    exact disjunction_meets (fun v e' shorter => ih v e' (by omega)) reads short

theorem expression_meets {w : List Token} {e : Expr} (reads : Reads .or w e) :
    Meets expression Expr.unplaced w e := by
  intro c c' passes loose
  have length := passes.length
  obtain ⟨e', read, same⟩ := nested_meets c.tokens.length w e (by omega) reads c c' passes loose
  refine ⟨e', ?_, same⟩
  unfold expression
  rw [bind_of_ok remaining_run]
  exact read

theorem grip_of_follower {k : Kind} (follows : k ∈ followers) : grip k = 0 := by
  have all : ∀ k ∈ followers, grip k = 0 := by decide
  exact all k follows

/-- Reading an expression is the grammar: what is read is an expression with its tree, every
expression with something behind it that may follow one is read whole and nothing but it, and no
sequence of tokens is an expression in two ways. -/
theorem expression_exact :
    (∀ (tokens : List Token) (filename : String) (e : Expr) (c : Cursor),
      expression (Cursor.start tokens filename) = .ok (e, c) →
        ∃ w, Cursor.marked tokens = w ++ c.tokens ∧ c.filename = filename ∧
          Reads .or w e.unplaced) ∧
    (∀ (w : List Token) (e : Expr) (t : Token) (r : List Token) (filename : String),
      Reads .or w e → t.kind ∈ followers →
        ∃ e', expression (Cursor.start (w ++ t :: r) filename) =
            .ok (e', Cursor.start (t :: r) filename) ∧ e'.unplaced = e) ∧
    (∀ (w : List Token) (e e' : Expr), Reads .or w e → Reads .or w e' → e = e') := by
  have whole (w : List Token) (e : Expr) (t : Token) (r : List Token) (filename : String)
      (reads : Reads .or w e) (follows : t.kind ∈ followers) :
      ∃ e', expression (Cursor.start (w ++ t :: r) filename) =
          .ok (e', Cursor.start (t :: r) filename) ∧ e'.unplaced = e := by
    have passes := Cursor.start_passes w filename (List.cons_ne_nil t r)
    have loose := grip_of_follower follows
    rw [← Cursor.start_current t r filename] at loose
    exact expression_meets reads _ _ passes loose
  refine ⟨?_, whole, ?_⟩
  · intro tokens filename e c read
    obtain ⟨w, passes, reads⟩ := follows_expression _ (Cursor.start_closed _ _) _ _ read
    obtain ⟨same, name⟩ := Cursor.start_tokens tokens filename
    exact ⟨w, same ▸ passes.tokens, (passes.filename.symm.trans name), reads⟩
  · intro w e e' first second
    let mark : Token := ⟨.eof, .scalar .null, none, none⟩
    obtain ⟨read, result, same⟩ := whole w e mark [] "" first (by decide)
    obtain ⟨read', result', same'⟩ := whole w e' mark [] "" second (by decide)
    rw [result] at result'
    cases result'
    exact same.symm.trans same'

/-- The signs on both sides of a power: `-a ** -2` is the negated power with a negative exponent. -/
theorem expression_exact_signs :
    let sign (kind : Kind) : Token := ⟨kind, .scalar .null, some 1, none⟩
    let name : Token := ⟨.identifier, .scalar (.text "a"), some 1, none⟩
    let two : Token := ⟨.number, .scalar (.number (.int 2)), some 1, none⟩
    let words := [sign .minus, name, sign .power, sign .minus, two]
    ∃ e, expression (Cursor.start (words ++ [sign .comma]) "") =
        .ok (e, Cursor.start [sign .comma] "") ∧
      e.unplaced = .unary {} .neg (.binary {} .pow (.var {} name.literal)
        (.unary {} .neg (.literal {} .number two.literal))) := by
  intro sign name two words
  have exponent : Reads .unary [sign .minus, two] (.unary {} .neg (.literal {} .number two.literal)) :=
    .negative rfl (.lift rfl (.lift rfl (.lift rfl (.number rfl))))
  have signed : Reads .unary words (.unary {} .neg (.binary {} .pow (.var {} name.literal)
      (.unary {} .neg (.literal {} .number two.literal)))) :=
    .negative rfl (.lift rfl (.power (.lift rfl (.var rfl)) rfl exponent))
  have reads := Reads.lift (l := .or) rfl (.lift rfl (.lift rfl (.lift rfl (.lift rfl
    (.lift rfl signed)))))
  exact expression_exact.2.1 words _ (sign .comma) [] "" reads (by decide)

end Parser

end Stepwise
