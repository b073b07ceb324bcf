import Stepwise.Proofs.Printing.Printer

/-!
The tokens of a printed expression are that expression in the grammar, at the level it was printed
for: `expression_reads`.
-/
namespace Stepwise

open Token (Kind)

namespace Grammar

/-- Above a level stands every looser one. -/
theorem Level.next_of_lt {l m : Level} (below : l.reach < m.reach) :
    ∃ n, l.next? = some n ∧ n.reach ≤ m.reach := by
  cases l <;> cases m <;> first
    | exact ⟨_, rfl, by decide⟩
    | exact absurd below (by decide)

theorem Level.eq_of_reach {l m : Level} (same : l.reach = m.reach) : l = m := by
  cases l <;> cases m <;> first
    | rfl
    | exact absurd same (by decide)

/-- An expression stands wherever one of a looser level is wanted. -/
theorem Reads.loosen {m : Level} {w : List Token} {e : Expr} (reads : Reads m w e) (l : Level)
    (below : l.reach ≤ m.reach) : Reads l w e := by
  by_cases same : l.reach = m.reach
  · rw [Level.eq_of_reach same]
    exact reads
  · obtain ⟨n, next, within⟩ := Level.next_of_lt (Nat.lt_of_le_of_ne below same)
    have closer := Level.reach_lt next
    exact .lift next (Reads.loosen reads n within)
termination_by m.reach - l.reach

theorem Reads.ofAtom {w : List Token} {e : Expr} (reads : Reads .atom w e) (l : Level) :
    Reads l w e := reads.loosen l (by cases l <;> decide)

end Grammar

namespace Printing

open Grammar

variable {spell : Spelling}

/-- Parentheses make an expression of any level one of every level. -/
theorem bracketed_reads {l m : Level} {gs : List Glyph} {e : Expr} (reads : Reads m (tokens gs) e) :
    Reads l (tokens (bracketed l m gs)) e := by
  unfold bracketed
  split
  · next within => exact reads.loosen l within
  · have inner : Reads .or (tokens gs) e := reads.loosen .or (by cases m <;> decide)
    have group : Reads .atom (tokens (lparen :: gs ++ [rparen])) e := by
      simpa [lparen, rparen, sign] using Reads.group ⟨rfl, rfl⟩ inner
    exact group.ofAtom l

theorem kind_or : Token.wordKind "or" = .kwOr := by decide

theorem kind_and : Token.wordKind "and" = .kwAnd := by decide

theorem kind_in : Token.wordKind "in" = .kwIn := by decide

theorem kind_not : Token.wordKind "not" = .kwNot := by decide

theorem kind_true : Token.wordKind "True" = .kwTrue := by decide

theorem kind_false : Token.wordKind "False" = .kwFalse := by decide

/-- Operands at the sides of an operation's level, with its operator between them. -/
theorem operation_reads {op : BinaryOp} (known : op.IsKnown) {v : List Token} {gs : List Glyph}
    {a b : Expr} (left : Reads (sides (levelOf op)).1 v a)
    (right : Reads (sides (levelOf op)).2 (tokens gs) b) :
    Reads (levelOf op) (v ++ tokens (operator op :: gs)) (.binary {} op a b) := by
  cases op with
  | pow => exact .power left rfl right
  | unknown _ => exact absurd known id
  | or =>
    exact .binary rfl (by simp [Lexeme.token, Lexeme.kind, kind_or, Level.operators, levelOf]) left right
  | and =>
    exact .binary rfl (by simp [Lexeme.token, Lexeme.kind, kind_and, Level.operators, levelOf]) left right
  | isIn =>
    exact .binary rfl (by simp [Lexeme.token, Lexeme.kind, kind_in, Level.operators, levelOf]) left right
  | eq | ne | lt | gt | le | ge | add | sub | mul | div | mod | floorDiv =>
    exact .binary rfl (by simp [Lexeme.token, Lexeme.kind, Level.operators, levelOf]) left right

theorem literal_reads {form : LiteralForm} {value : Constant} (fits : LiteralWritable spell form value) :
    Reads .atom (tokens (literal spell value)) (.literal {} form value) := by
  unfold LiteralWritable at fits
  split at fits
  · next n =>
    have same : ((n.toNat : Nat) : Int) = n := Int.toNat_of_nonneg fits.1
    have reads : Reads .atom [(Lexeme.whole n.toNat).token]
        (.literal {} .number (.scalar (.number (.int (n.toNat : Nat))))) := .number rfl
    rwa [same] at reads
  · exact .number rfl
  · obtain ⟨s, rfl, -⟩ := fits
    exact .string rfl
  · obtain ⟨b, rfl⟩ := fits
    cases b with
    | true => exact .yes kind_true
    | false => exact .no kind_false
  · exact absurd fits id

/-- The token of a name. -/
def nameToken (v : Constant) : Token := (Lexeme.word (nameText v)).token

theorem nameToken_kind {v : Constant} (good : IsIdentifier v) :
    (nameToken v).kind = .identifier := by
  obtain ⟨s, _, _, rfl, -, -, -, kind⟩ := good
  exact kind

theorem nameToken_literal {v : Constant} (good : IsIdentifier v) : (nameToken v).literal = v := by
  obtain ⟨s, _, _, rfl, -⟩ := good
  rfl

/-- Expressions with commas between them, behind another one. -/
theorem separated_after (spell : Spelling) (es : List Expr) (w : List Token) :
    Separated (w :: es.map fun e => tokens (expression spell .or e))
      (w ++ tokens (expressionsAfter spell es)) := by
  induction es generalizing w with
  | nil => simpa [expressionsAfter] using Separated.one w
  | cons e es ih =>
    simp only [expressionsAfter, comma, sign, List.cons_append, tokens_lexeme, tokens_gap,
      tokens_append, List.map_cons]
    exact .more rfl (ih _)

theorem separated_expressions (spell : Spelling) (es : List Expr) :
    Separated (es.map fun e => tokens (expression spell .or e)) (tokens (expressions spell es)) := by
  cases es with
  | nil => exact .none
  | cons e es => simpa [expressions] using separated_after spell es _

/-- What an entry of a record is written with. -/
def labelled (spell : Spelling) (entry : Constant × Expr) : Labelled where
  key := (Lexeme.quoted (nameText entry.1)).token
  colon := (Lexeme.sign ":" .colon).token
  words := tokens (expression spell .or entry.2)
  value := entry.2.unplaced

theorem separated_entriesAfter (spell : Spelling) (fields : List (Constant × Expr)) (w : List Token) :
    Separated (w :: fields.map fun field => (labelled spell field).all)
      (w ++ tokens (entriesAfter spell fields)) := by
  induction fields generalizing w with
  | nil => simpa [entriesAfter] using Separated.one w
  | cons field fields ih =>
    simp only [entriesAfter, comma, colon, sign, key, List.cons_append, tokens_lexeme, tokens_gap,
      tokens_append, List.map_cons]
    exact .more rfl (ih (labelled spell field).all)

theorem separated_entries (spell : Spelling) (fields : List (Constant × Expr)) :
    Separated (fields.map fun field => (labelled spell field).all) (tokens (entries spell fields)) := by
  cases fields with
  | nil => exact .none
  | cons field fields =>
    simpa [entries, key, colon, sign, labelled, Labelled.all] using
      separated_entriesAfter spell fields (labelled spell field).all

theorem labelled_signed (spell : Spelling) (entry : Constant × Expr) :
    (labelled spell entry).Signed := ⟨.inr rfl, rfl⟩

/-- A list of expressions in brackets, given that each of them reads. -/
theorem pieces_reads {es : List Expr}
    (each : ∀ e ∈ es, Reads .or (tokens (expression spell .or e)) e.unplaced) :
    ∃ pieces : List (List Token × Expr), pieces.map Prod.snd = Expr.unplacedAll es ∧
      Separated (pieces.map Prod.fst) (tokens (expressions spell es)) ∧
      ∀ p ∈ pieces, Reads .or p.1 p.2 := by
  refine ⟨es.map fun e => (tokens (expression spell .or e), e.unplaced), ?_, ?_, ?_⟩
  · simp [Expr.unplacedAll_eq_map, Function.comp_def]
  · simpa [Function.comp_def] using separated_expressions spell es
  · intro p member
    obtain ⟨e, inside, rfl⟩ := List.mem_map.mp member
    exact each e inside

theorem bound_reads {e : Option Expr}
    (each : ∀ e' ∈ e, Reads .or (tokens (expression spell .or e')) e'.unplaced) :
    ∃ piece : Option (List Token × Expr), boundWords piece = tokens (bound spell e) ∧
      piece.map Prod.snd = Expr.unplacedOption e ∧ ∀ p ∈ piece, Reads .or p.1 p.2 := by
  cases e with
  | none => exact ⟨none, rfl, rfl, by simp⟩
  | some e => exact ⟨some (tokens (expression spell .or e), e.unplaced), rfl, rfl, by simpa using each e rfl⟩

mutual

/-- A printed expression reads as itself, at the level it was printed for. -/
theorem expression_reads (spell : Spelling) : ∀ e : Expr, e.Every (ExprWritable spell) → ∀ l,
    Reads l (tokens (expression spell l e)) e.unplaced
  | .literal _ form value, good, l => (literal_reads good).ofAtom l
  | .var _ v, good, l => by
    have reads : Reads .atom (tokens [name v]) (.var {} (nameToken v).literal) :=
      .var (nameToken_kind good)
    rw [nameToken_literal good] at reads
    exact reads.ofAtom l
  | .binary _ op a b, ⟨known, left, right⟩, l => by
    rw [expression]
    apply bracketed_reads
    rw [tokens_append]
    exact operation_reads known (expression_reads spell a left _)
      (expression_reads spell b right (sides (levelOf op)).2)
  | .unary _ .not e, ⟨_, operand⟩, l => by
    rw [expression]
    apply bracketed_reads
    exact .negation kind_not (expression_reads spell e operand .not)
  | .unary _ .neg e, ⟨_, operand⟩, l => by
    rw [expression]
    apply bracketed_reads
    exact .negative rfl (expression_reads spell e operand .unary)
  | .unary _ (.unknown _) e, ⟨known, _⟩, l => absurd known id
  | .call _ callee args, ⟨good, each⟩, l => by
    obtain ⟨pieces, values, joined, reads⟩ := pieces_reads (expressions_reads spell args each)
    have call : Reads .atom (tokens (name callee :: lparen :: expressions spell args) ++
        tokens [rparen]) (.call {} (nameToken callee).literal (pieces.map Prod.snd)) :=
      .call (nameToken_kind good) ⟨rfl, rfl⟩ reads joined
    rw [nameToken_literal good, values, ← tokens_append] at call
    exact call.ofAtom l
  | .new _ _ _, ⟨good, _⟩, l => absurd good id
  | .invoke _ object method args, ⟨good, inside, each⟩, l => by
    obtain ⟨pieces, values, joined, reads⟩ := pieces_reads (expressions_reads spell args each)
    have invoke : Reads .suffixed (tokens (expression spell .suffixed object) ++
        tokens (dot :: name method :: lparen :: expressions spell args) ++ tokens [rparen])
        (.invoke {} object.unplaced (nameToken method).literal (pieces.map Prod.snd)) :=
      .invoke (expression_reads spell object inside .suffixed) rfl (nameToken_kind good) ⟨rfl, rfl⟩
        reads joined
    rw [nameToken_literal good, values, ← tokens_append, ← tokens_append] at invoke
    exact bracketed_reads invoke
  | .list _ elements, ⟨_, each⟩, l => by
    obtain ⟨pieces, values, joined, reads⟩ := pieces_reads (expressions_reads spell elements each)
    have list : Reads .atom (tokens (lbracket :: expressions spell elements) ++ tokens [rbracket])
        (.list {} (pieces.map Prod.snd)) := .list ⟨rfl, rfl⟩ reads joined
    rw [values, ← tokens_append] at list
    exact list.ofAtom l
  | .record _ fields, ⟨keys, each⟩, l => by
    have inside := entries_reads spell fields each
    have apart : Separated ((fields.map (labelled spell)).map Labelled.all)
        (tokens (entries spell fields)) := by
      simpa [Function.comp_def] using separated_entries spell fields
    have record : Reads .atom (tokens (lbrace :: entries spell fields) ++ tokens [rbrace])
        (.record {} ((fields.map (labelled spell)).map fun entry =>
          (entry.key.literal, entry.value))) := by
      refine .record ⟨rfl, rfl⟩ ?_ ?_ apart
      · intro entry member
        obtain ⟨field, -, rfl⟩ := List.mem_map.mp member
        exact labelled_signed spell field
      · intro entry member
        obtain ⟨field, found, rfl⟩ := List.mem_map.mp member
        exact inside field found
    have values : ((fields.map (labelled spell)).map fun entry => (entry.key.literal, entry.value)) =
        Expr.unplacedEntries fields := by
      rw [Expr.unplacedEntries_eq_map, List.map_map]
      refine List.map_congr_left fun field member => ?_
      obtain ⟨s, same, -⟩ := keys field member
      simp [labelled, same, nameText, Lexeme.token, Lexeme.literal]
    rw [values, ← tokens_append] at record
    exact record.ofAtom l
  | .index _ object position, ⟨_, inside, within⟩, l => by
    have index : Reads .suffixed (tokens (expression spell .suffixed object) ++
        tokens (lbracket :: expression spell .or position) ++ tokens [rbracket])
        (.index {} object.unplaced position.unplaced) :=
      .index (expression_reads spell object inside .suffixed) ⟨rfl, rfl⟩
        (expression_reads spell position within .or)
    rw [← tokens_append, ← tokens_append] at index
    exact bracketed_reads index
  | .slice _ object start stop, ⟨_, inside, lower, upper⟩, l => by
    obtain ⟨from_, sameFrom, starts, readsFrom⟩ := bound_reads (bounds_reads spell start lower)
    obtain ⟨to_, sameTo, stops, readsTo⟩ := bound_reads (bounds_reads spell stop upper)
    have slice : Reads .suffixed (tokens (expression spell .suffixed object) ++
        (Lexeme.sign "[" .lbracket).token :: boundWords from_ ++
          (Lexeme.sign ":" .colon).token :: boundWords to_ ++ tokens [rbracket])
        (.slice {} object.unplaced (from_.map Prod.snd) (to_.map Prod.snd)) :=
      .slice (expression_reads spell object inside .suffixed) ⟨rfl, rfl⟩ readsFrom rfl readsTo
    rw [sameFrom, sameTo, starts, stops] at slice
    refine bracketed_reads ?_
    simpa [lbracket, colon, sign, Expr.unplaced] using slice
  | .member _ object property, ⟨good, inside⟩, l => by
    have member : Reads .suffixed (tokens (expression spell .suffixed object) ++
        tokens [dot, name property]) (.member {} object.unplaced (nameToken property).literal) :=
      .member (expression_reads spell object inside .suffixed) rfl (nameToken_kind good)
    rw [nameToken_literal good, ← tokens_append] at member
    exact bracketed_reads member
  | .alien _, good, l => absurd good id

theorem expressions_reads (spell : Spelling) : ∀ es : List Expr,
    Expr.EveryIn (ExprWritable spell) es → ∀ e ∈ es,
      Reads .or (tokens (expression spell .or e)) e.unplaced
  | [], _, e, member => absurd member (by simp)
  | e :: es, ⟨first, rest⟩, e', member => by
    rcases List.mem_cons.mp member with same | member
    · rw [same]
      exact expression_reads spell e first .or
    · exact expressions_reads spell es rest e' member

theorem bounds_reads (spell : Spelling) : ∀ b : Option Expr,
    Expr.EveryBound (ExprWritable spell) b → ∀ e ∈ b,
      Reads .or (tokens (expression spell .or e)) e.unplaced
  | none, _, e, member => absurd member (by simp)
  | some e, good, e', member => by
    rw [← Option.mem_some_iff.mp member]
    exact expression_reads spell e good .or

theorem entries_reads (spell : Spelling) : ∀ fields : List (Constant × Expr),
    Expr.EveryEntry (ExprWritable spell) fields → ∀ field ∈ fields,
      Reads .or (tokens (expression spell .or field.2)) field.2.unplaced
  | [], _, field, member => absurd member (by simp)
  | (k, e) :: fields, ⟨first, rest⟩, field, member => by
    rcases List.mem_cons.mp member with same | member
    · rw [same]
      exact expression_reads spell e first .or
    · exact entries_reads spell fields rest field member

end

end Printing

end Stepwise
