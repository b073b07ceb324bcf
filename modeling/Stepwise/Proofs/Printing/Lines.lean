import Stepwise.Proofs.Grammar.Places
import Stepwise.Proofs.Printing.Words
import Stepwise.Proofs.Scanning.Moves

/-!
Scanning the lines of a text. The tokens are those of the lines, with an end mark behind each line
and marks around each block: `tokenize_rows`. The marks that close blocks come late, in front of the
next line that stands further left, so the scanner owes them for a while.
-/
namespace Stepwise

namespace Printing

open Token (Kind)

/-- Words and gaps that are scanned as they were meant, in front of the text `rest`. -/
def Scannable : List Glyph → List Char → Prop
  | [], _ => True
  | .gap :: gs, rest => Scannable gs rest
  | .lexeme x :: gs, rest => x.Valid ∧ x.Ends (text gs ++ rest) ∧ Scannable gs rest

/-- The last token was neither none nor a line break. -/
def Inked (s : Scanner) : Prop := ∃ k, s.last = some k ∧ k ≠ .newline

/-- The scanner behind a part of a line. -/
structure Passed (s : Scanner) (rest : List Char) (s' : Scanner) : Prop where
  rest : s'.rest = rest
  blocks : s'.blocks = s.blocks
  inLine : s'.atLineStart = false

theorem kind_ne_newline {x : Lexeme} (valid : x.Valid) : x.kind ≠ .newline := by
  have signs : (∀ entry ∈ Token.oneCharSigns, entry.2 ≠ .newline) ∧
      ∀ entry ∈ Token.twoCharOperators, entry.2 ≠ .newline := by decide
  have keywords : ∀ entry ∈ Token.keywords, entry.2 ≠ .newline := by decide
  cases x with
  | word name =>
    change (Token.keywords.lookup name).getD .identifier ≠ .newline
    cases found : Token.keywords.lookup name with
    | none => decide
    | some kind => exact keywords _ (Scanner.mem_of_lookup found)
  | sign sign kind =>
    rcases valid with ⟨c, -, found⟩ | ⟨c, d, -, found⟩
    · exact signs.1 _ (Scanner.mem_of_lookup found)
    · exact signs.2 _ (Scanner.mem_of_lookup found)
  | whole n | decimal written x | quoted t => exact nofun

theorem advance_gap {s : Scanner} {rest : List Char} (inLine : s.atLineStart = false)
    (here : s.rest = ' ' :: rest) :
    s.advance = .ok ([], some { s with rest, place := s.place.afterAll [' '] }) := by
  unfold Scanner.advance
  rw [if_neg (by simp [inLine]), here]
  dsimp only
  unfold Scanner.word Scanner.skip
  rw [here]
  rfl

/-- The words and gaps of a line are scanned as the tokens of the words. -/
theorem glyphs_go (gs : List Glyph) {rest : List Char} : ∀ s : Scanner, s.atLineStart = false →
    s.rest = text gs ++ rest → Scannable gs rest → ∃ ts s', s.Goes ts s' ∧
      SameWords ts (tokens gs) ∧ Passed s rest s' ∧ ((tokens gs ≠ [] ∨ Inked s) → Inked s') := by
  induction gs with
  | nil =>
    intro s inLine here _
    exact ⟨[], s, .refl s, .refl _, ⟨here, rfl, inLine⟩, fun inked => inked.resolve_left (by simp)⟩
  | cons g gs ih =>
    intro s inLine here good
    cases g with
    | gap =>
      rw [text_cons, List.append_assoc] at here
      have move := advance_gap inLine here
      obtain ⟨ts, s', goes, same, passed, inked⟩ := ih
        { s with rest := text gs ++ rest, place := s.place.afterAll [' '] } inLine rfl good
      refine ⟨ts, s', ?_, same, ⟨passed.rest, passed.blocks, passed.inLine⟩, inked⟩
      refine Scanner.Goes.step move ?_ goes
      simp [Scanner.weight, here, Glyph.chars]
    | lexeme x =>
      obtain ⟨valid, ends, good⟩ := good
      have split : s.rest = x.chars ++ (text gs ++ rest) := by simpa [Glyph.chars] using here
      have move := advance_lexeme valid ends inLine split
      obtain ⟨ts, s', goes, same, passed, inked⟩ := ih
        { s with rest := text gs ++ rest, place := s.place.afterAll x.chars, last := some x.kind }
        inLine rfl good
      obtain ⟨c, cs, letters⟩ := chars_of_valid valid
      refine ⟨_ :: ts, s', .step move ?_ goes, ?_, ⟨passed.rest, passed.blocks, passed.inLine⟩,
        fun _ => inked (.inr ⟨x.kind, rfl, kind_ne_newline valid⟩)⟩
      · simp only [Scanner.weight, split, letters, List.length_append, List.length_cons]
        omega
      · exact congrArg (_ :: ·) same

/-- A text that goes on with no name, no number and no sign. -/
structure Quiet (rest : List Char) : Prop where
  apart : ∀ c ∈ rest.head?, Token.isNamePart c = false
  point : ∀ c cs, rest = '.' :: c :: cs → c.isDigit = false

/-- Words and gaps that are scanned as they were meant wherever they are left alone. -/
def Clear (gs : List Glyph) : Prop := ∀ rest, Quiet rest → Scannable gs rest

theorem quiet_feed (rest : List Char) : Quiet ('\n' :: rest) := ⟨by simp; decide, by simp⟩

/-- A token of the layout, without its place. -/
def mark (kind : Kind) : Token := ⟨kind, .scalar .null, none, none⟩

mutual

/-- The tokens of a line and its block. -/
def Row.tokens : Row → List Token
  | .mk heading block =>
    Printing.tokens heading ++ mark .newline ::
      if block.isEmpty then [] else mark .indent :: Row.tokensAll block ++ [mark .dedent]

def Row.tokensAll : List Row → List Token
  | [] => []
  | row :: rows => row.tokens ++ Row.tokensAll rows

end

mutual

/-- A line and its block can be scanned. -/
def Row.Readable : Row → Prop
  | .mk heading block =>
    (∃ x gs, heading = .lexeme x :: gs) ∧ Clear heading ∧ Row.ReadableAll block

def Row.ReadableAll : List Row → Prop
  | [] => True
  | row :: rows => row.Readable ∧ Row.ReadableAll rows

end

/-- The widths of `n` open blocks. -/
def widths : Nat → List Nat
  | 0 => []
  | n + 1 => 4 * (n + 1) :: widths n

@[simp] theorem widths_length (n : Nat) : (widths n).length = n := by
  induction n with
  | zero => rfl
  | succ n ih => simp [widths, ih]

@[simp] theorem widths_headD (n : Nat) : (widths n).headD 0 = 4 * n := by
  cases n <;> rfl

/-- The blocks that are not left by a line at depth `d`. -/
theorem dropWhile_widths {d p : Nat} (within : d ≤ p) :
    (widths p).dropWhile (4 * d < ·) = widths d := by
  induction p with
  | zero =>
    cases Nat.le_zero.mp within
    rfl
  | succ p ih =>
    by_cases same : d = p + 1
    · subst same
      simp [widths]
    · rw [widths, List.dropWhile_cons_of_pos (by simp; omega)]
      exact ih (by omega)

/-- The scanner stands at the start of a line, with `p` blocks open. -/
structure AtLine (s : Scanner) (p : Nat) (rest : List Char) : Prop where
  atLineStart : s.atLineStart = true
  blocks : s.blocks = widths p
  rest : s.rest = rest

theorem skipLayout_blanks (k width : Nat) (place : Place) {c : Char} {cs : List Char}
    (visible : c ≠ ' ' ∧ c ≠ '\t' ∧ c ≠ '#' ∧ c ≠ '\n') :
    Scanner.skipLayout false width place (List.replicate k ' ' ++ c :: cs) =
      (width + k, place.afterAll (List.replicate k ' '), c :: cs) := by
  induction k generalizing width place with
  | zero => simp [Scanner.skipLayout, visible, Place.afterAll]
  | succ k ih =>
    rw [List.replicate_succ, List.cons_append, Scanner.skipLayout, if_neg (by decide),
      if_neg (by decide), if_pos rfl, ih, Nat.add_right_comm]
    rfl

/-- The marks in front of a line at depth `d`, when `p` blocks are open. -/
def opening (p d : Nat) : List Token :=
  if p < d then [mark .indent] else List.replicate (p - d) (mark .dedent)

/-- At the start of a line, blocks are opened or closed up to its depth. -/
theorem advance_layout {s : Scanner} {p d : Nat} {c : Char} {cs : List Char} (near : d ≤ p + 1)
    (visible : c ≠ ' ' ∧ c ≠ '\t' ∧ c ≠ '#' ∧ c ≠ '\n')
    (start : AtLine s p (List.replicate (4 * d) ' ' ++ c :: cs)) : ∃ ts s',
      s.Goes ts s' ∧ SameWords ts (opening p d) ∧ s'.rest = c :: cs ∧ s'.blocks = widths d ∧
      s'.atLineStart = false := by
  let behind := s.place.afterAll (List.replicate (4 * d) ' ')
  have skipped : Scanner.skipLayout false 0 s.place s.rest = (4 * d, behind, c :: cs) := by
    rw [start.rest, skipLayout_blanks _ _ _ visible, Nat.zero_add]
  have move (ts : List Token) (s' : Scanner) (laid : s.layout = .ok (ts, s'))
      (rest : s'.rest = c :: cs) (inLine : s'.atLineStart = false) : s.Goes ts s' := by
    apply Scanner.Goes.one
    · unfold Scanner.advance
      rw [if_pos start.atLineStart, laid]
      rfl
    · simp only [Scanner.weight, start.atLineStart, start.rest, rest, inLine, List.length_append,
        if_true, Bool.false_eq_true, if_false]
      omega
  rcases Nat.lt_trichotomy p d with deeper | same | left
  · obtain rfl : d = p + 1 := by omega
    have apart : 4 * (p + 1) ≠ 4 * p := by omega
    refine ⟨_, { s with
        rest := c :: cs, place := behind, atLineStart := false, blocks := 4 * (p + 1) :: widths p,
        last := some .indent }, move [Scanner.tokenAt behind .indent .null] _ ?_ rfl rfl, ?_, rfl, rfl, rfl⟩
    · unfold Scanner.layout
      rw [skipped]
      dsimp only
      rw [start.blocks, widths_headD, if_neg (by simp [apart]), if_pos (by omega)]
    · unfold opening
      rw [if_pos deeper]
      rfl
  · subst same
    refine ⟨_, { s with rest := c :: cs, place := behind, atLineStart := false },
      move [] _ ?_ rfl rfl, ?_, rfl, start.blocks, rfl⟩
    · unfold Scanner.layout
      rw [skipped]
      dsimp only
      rw [start.blocks, widths_headD, if_pos (by simp)]
    · unfold opening
      simp [SameWords]
  · have apart : 4 * d ≠ 4 * p := by omega
    refine ⟨_, { s with
        rest := c :: cs, place := behind, atLineStart := false, blocks := widths d,
        last := some .dedent }, move (List.replicate (p - d) (Scanner.tokenAt behind .dedent .null)) _ ?_ rfl rfl,
      ?_, rfl, rfl, rfl⟩
    · unfold Scanner.layout
      rw [skipped]
      dsimp only
      rw [start.blocks, widths_headD, if_neg (by simp [apart]), if_neg (by omega),
        dropWhile_widths (Nat.le_of_lt left), widths_headD, if_pos rfl, widths_length,
        widths_length]
    · unfold opening
      rw [if_neg (by omega)]
      simp [SameWords, Token.bare, mark, Scanner.tokenAt]

/-- Behind a line stands its end mark. -/
theorem advance_feed {s : Scanner} {rest : List Char} (inLine : s.atLineStart = false)
    (here : s.rest = '\n' :: rest) (inked : Inked s) :
    s.Goes [Scanner.tokenAt s.place .newline .null]
      { s with rest, place := s.place.after '\n', atLineStart := true, last := some .newline } := by
  obtain ⟨k, last, other⟩ := inked
  apply Scanner.Goes.one
  · unfold Scanner.advance
    rw [if_neg (by simp [inLine]), here]
    dsimp only
    unfold Scanner.word
    simp [last, other]
    rfl
  · simp only [Scanner.weight, here, inLine, List.length_cons, if_true, Bool.false_eq_true, if_false]
    omega

/-- A line is scanned as its words and an end mark, behind the marks that its depth asks for. -/
theorem heading_go {heading : List Glyph} {d p : Nat} {s : Scanner} {rest : List Char}
    (near : d ≤ p + 1) (filled : ∃ x gs, heading = .lexeme x :: gs) (clear : Clear heading)
    (start : AtLine s p (List.replicate (4 * d) ' ' ++ text heading ++ '\n' :: rest)) :
    ∃ ts s', s.Goes ts s' ∧ AtLine s' d rest ∧
      SameWords ts (opening p d ++ (tokens heading ++ [mark .newline])) := by
  have good := clear _ (quiet_feed rest)
  obtain ⟨x, gs, rfl⟩ := filled
  obtain ⟨c, cs, letters⟩ := chars_of_valid good.1
  have split : text (.lexeme x :: gs) ++ '\n' :: rest = c :: (cs ++ text gs ++ '\n' :: rest) := by
    simp [Glyph.chars, letters]
  rw [List.append_assoc, split] at start
  obtain ⟨marks, m, first, marked, here, blocks, inLine⟩ :=
    advance_layout near (visible_of_valid good.1 letters) start
  obtain ⟨words, m', second, same, passed, inked⟩ :=
    glyphs_go (.lexeme x :: gs) m inLine (here.trans split.symm) good
  have last := advance_feed passed.inLine passed.rest (inked (.inl (by simp)))
  exact ⟨_, _, first.trans (second.trans last), ⟨rfl, passed.blocks.trans blocks, rfl⟩,
    marked.append (same.append rfl)⟩

mutual

/-- A line and its block are scanned as their tokens, but for the closing marks that are owed. -/
theorem row_go : ∀ (row : Row) {d p : Nat} {s : Scanner} {rest : List Char}, d ≤ p + 1 →
    row.Readable → AtLine s p (row.chars d ++ rest) →
      ∃ ts s' q, s.Goes ts s' ∧ d ≤ q ∧ AtLine s' q rest ∧
        SameWords (ts ++ List.replicate (q - d) (mark .dedent)) (opening p d ++ row.tokens)
  | .mk heading block, d, p, s, rest, near, ⟨filled, clear, inside⟩, start => by
    rw [Row.chars, List.append_assoc, List.cons_append] at start
    obtain ⟨ts, m, first, atLine, same⟩ := heading_go near filled clear start
    cases block with
    | nil =>
      exact ⟨ts, m, d, first, Nat.le_refl d, atLine, by simpa [Row.tokens] using same⟩
    | cons row rows =>
      obtain ⟨us, s', q, second, deep, behind, same'⟩ :=
        rows_go (row :: rows) (.inr ⟨rfl, by simp⟩) inside atLine
      refine ⟨ts ++ us, s', q, first.trans second, by omega, behind, ?_⟩
      have owed : q - d = q - (d + 1) + 1 := by omega
      have opened : opening d (d + 1) = [mark .indent] := if_pos (Nat.lt_succ_self d)
      rw [opened] at same'
      have closed := (same.append same').append (.refl [mark .dedent])
      simpa [Row.tokens, owed, List.replicate_succ'] using closed

theorem rows_go : ∀ (rows : List Row) {d p : Nat} {s : Scanner} {rest : List Char},
    (d ≤ p ∨ d = p + 1 ∧ rows ≠ []) → Row.ReadableAll rows → AtLine s p (Row.charsAll d rows ++ rest) →
      ∃ ts s' q, s.Goes ts s' ∧ d ≤ q ∧ AtLine s' q rest ∧
        SameWords (ts ++ List.replicate (q - d) (mark .dedent)) (opening p d ++ Row.tokensAll rows)
  | [], d, p, s, rest, near, _, start => by
    have within : d ≤ p := by simpa using near
    refine ⟨[], s, p, .refl s, within, start, ?_⟩
    unfold opening
    rw [if_neg (by omega)]
    simp [Row.tokensAll, SameWords]
  | row :: rows, d, p, s, rest, near, ⟨good, others⟩, start => by
    rw [Row.charsAll, List.append_assoc] at start
    obtain ⟨ts, m, q, first, deep, behind, same⟩ := row_go row (by omega) good start
    obtain ⟨us, s', q', second, deep', behind', same'⟩ := rows_go rows (.inl deep) others behind
    refine ⟨ts ++ us, s', q', first.trans second, deep', behind', ?_⟩
    unfold opening at same'
    rw [if_neg (by omega)] at same'
    have joined := (SameWords.refl ts).append same'
    rw [← List.append_assoc, ← List.append_assoc] at joined
    have both := joined.trans (same.append (.refl (Row.tokensAll rows)))
    simpa [Row.tokensAll] using both

end

theorem return_text {gs : List Glyph} {rest : List Char} (good : Scannable gs rest) :
    '\r' ∉ text gs := by
  induction gs with
  | nil => simp
  | cons g gs ih =>
    cases g with
    | gap => simpa [Glyph.chars] using ih good
    | lexeme x => simpa [Glyph.chars] using And.intro (return_free good.1) (ih good.2.2)

mutual

theorem return_row : ∀ (row : Row) (d : Nat), row.Readable → '\r' ∉ row.chars d
  | .mk heading block, d, ⟨_, clear, inside⟩ => by
    have line := return_text (clear _ (quiet_feed []))
    have under := return_rows block (d + 1) inside
    simp [Row.chars, line, under]

theorem return_rows : ∀ (rows : List Row) (d : Nat), Row.ReadableAll rows → '\r' ∉ Row.charsAll d rows
  | [], _, _ => by simp [Row.charsAll]
  | row :: rows, d, ⟨good, others⟩ => by
    simpa [Row.charsAll] using And.intro (return_row row d good) (return_rows rows d others)

end

/-- The text of lines is their characters, with at most one more line feed. -/
theorem normalized_rows {rows : List Row} (readable : Row.ReadableAll rows) :
    ∃ tail, Text.normalized (String.ofList (Row.charsAll 0 rows)) = Row.charsAll 0 rows ++ tail ∧
      (tail = [] ∨ tail = ['\n']) := by
  have free : '\r' ∉ (String.ofList (Row.charsAll 0 rows)).toList := by
    rw [String.toList_ofList]
    exact return_rows rows 0 readable
  rw [Text.normalized_of_free free, String.toList_ofList]
  split
  · exact ⟨[], by simp, .inl rfl⟩
  · exact ⟨['\n'], rfl, .inr rfl⟩

/-- At the end of the text the blocks that are still open are closed. -/
theorem finish_go {s : Scanner} {q : Nat} {tail : List Char} (blank : tail = [] ∨ tail = ['\n'])
    (behind : AtLine s q tail) : ∃ s' ts, s.Goes [] s' ∧ s'.advance = .ok (ts, none) ∧
      SameWords ts (List.replicate q (mark .dedent) ++ [mark .eof]) := by
  obtain ⟨place, skipped⟩ : ∃ place, Scanner.skipLayout false 0 s.place s.rest = (0, place, []) := by
    rw [behind.rest]
    rcases blank with rfl | rfl
    · exact ⟨_, rfl⟩
    · exact ⟨_, rfl⟩
  refine ⟨{ s with rest := [], place, atLineStart := false }, _, .one ?_ ?_, rfl, ?_⟩
  · unfold Scanner.advance
    rw [if_pos behind.atLineStart]
    unfold Scanner.layout
    rw [skipped]
    rfl
  · simp [Scanner.weight, behind.atLineStart]
  · unfold Scanner.finish
    simp [SameWords, Token.bare, mark, Scanner.tokenAt, behind.blocks]

/-- A text made of lines and blocks is scanned as their tokens. -/
theorem tokenize_rows {rows : List Row} (readable : Row.ReadableAll rows) (filename : String) :
    ∃ ts, Token.tokenize (String.ofList (Row.charsAll 0 rows)) filename = .ok ts ∧
      SameWords ts (Row.tokensAll rows ++ [mark .eof]) := by
  obtain ⟨tail, normal, blank⟩ := normalized_rows readable
  let s := Scanner.start (String.ofList (Row.charsAll 0 rows)) filename
  obtain ⟨ts, m, q, goes, -, behind, same⟩ :=
    rows_go rows (s := s) (.inl (Nat.le_refl 0)) readable ⟨rfl, rfl, normal⟩
  obtain ⟨m', us, goes', last, same'⟩ := finish_go blank behind
  refine ⟨ts ++ us, ?_, ?_⟩
  · have read := Token.tokenize_of_goes (goes.trans goes') last
    rwa [List.append_nil] at read
  · have joined := (SameWords.refl ts).append same'
    rw [← List.append_assoc] at joined
    have closed := same.append (.refl [mark .eof])
    exact joined.trans closed

end Printing

end Stepwise
