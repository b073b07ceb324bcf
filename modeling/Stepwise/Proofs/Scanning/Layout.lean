import Stepwise.Proofs.Scanning.Moves

/-!
The layout of the tokens of a text. They are lines with an end mark each, and in front of a line stands
a mark that opens a block or any number of marks that close one; the block reader relies on it for every
text (`tokens_laidOut`). What carries it is where the scanner is within a line, move by move
(`Phase.move`), together with the widths of the open blocks (`Upheld.move`).
-/
namespace Stepwise

namespace Token.Kind

/-- The marks in front of a line. -/
def Marks (marks : List Kind) : Prop := marks = [.indent] ∨ ∃ n, marks = List.replicate n .dedent

/-- A logical line: the marks in front of it, what is written in it, and its end. -/
def IsLine (kinds : List Kind) : Prop :=
  ∃ marks code, Marks marks ∧ code ≠ [] ∧ (∀ k ∈ code, k.IsCode) ∧ kinds = marks ++ code ++ [.newline]

/-- Lines, the marks that close the blocks still open, and the end of the text. -/
def LaidOut (kinds : List Kind) : Prop :=
  ∃ (lines : List (List Kind)) (n : Nat), (∀ line ∈ lines, IsLine line) ∧
    kinds = lines.flatten ++ List.replicate n .dedent ++ [.eof]

/-- No block is closed that was not opened. -/
def NeverOverdrawn (kinds : List Kind) : Prop :=
  ∀ n, (kinds.take n).count .dedent ≤ (kinds.take n).count .indent

variable {ks us : List Kind}

theorem Marks.none : Marks [] := .inr ⟨0, rfl⟩

theorem NeverOverdrawn.append (never : NeverOverdrawn ks)
    (rest : ∀ n, ks.count .dedent + (us.take n).count .dedent ≤
      ks.count .indent + (us.take n).count .indent) : NeverOverdrawn (ks ++ us) := by
  intro n
  rw [List.take_append, List.count_append, List.count_append]
  rcases Nat.le_total n ks.length with short | long
  · simpa [Nat.sub_eq_zero_of_le short] using never n
  · rw [List.take_of_length_le long]
    exact rest _

theorem NeverOverdrawn.closing (never : NeverOverdrawn ks) {n : Nat}
    (owed : ks.count .dedent + n ≤ ks.count .indent) :
    NeverOverdrawn (ks ++ List.replicate n .dedent) := by
  refine never.append fun m => ?_
  rw [List.take_replicate, List.count_replicate_self]
  omega

/-- Tokens that open and close no block. -/
theorem NeverOverdrawn.flat (never : NeverOverdrawn ks) (flat : ∀ k ∈ us, k ≠ .indent ∧ k ≠ .dedent) :
    NeverOverdrawn (ks ++ us) := by
  refine never.append fun n => ?_
  have none (m : Kind) (apart : ∀ k ∈ us, k ≠ m) : (us.take n).count m = 0 :=
    List.count_eq_zero.mpr fun member => apart m (List.mem_of_mem_take member) rfl
  rw [none .dedent fun k member => (flat k member).2, none .indent fun k member => (flat k member).1]
  have whole := never ks.length
  rwa [List.take_length] at whole

end Token.Kind

namespace Scanner

open Token (Kind)
open Token.Kind (Marks IsLine LaidOut NeverOverdrawn)

/-- The widths of the program and of the open blocks in it, from the outside in. -/
def indentations (s : Scanner) : List Nat := 0 :: s.blocks.reverse

/-- Where a scanner is when it has read tokens of the kinds `ks`. -/
inductive Phase (s : Scanner) (ks : List Kind) : Prop where
  | lineStart {lines : List (List Kind)} : s.atLineStart = true → (s.rest = [] ∨ Fed s.rest) →
      (∀ line ∈ lines, IsLine line) → ks = lines.flatten → Phase s ks
  /-- In front of the first word of a line, or at the end of the text. -/
  | marked {lines : List (List Kind)} {marks : List Kind} : s.atLineStart = false →
      (s.rest = [] ∧ marks = [] ∨ Fed s.rest ∧ ∀ c cs, s.rest = c :: cs → Visible c) → Marks marks →
      (∀ line ∈ lines, IsLine line) → ks = lines.flatten ++ marks → Phase s ks
  | within {lines : List (List Kind)} {marks code : List Kind} : s.atLineStart = false → Fed s.rest →
      ¬ (s.last.isNone || s.last = some .newline) → Marks marks → code ≠ [] →
      (∀ k ∈ code, k.IsCode) → (∀ line ∈ lines, IsLine line) →
      ks = lines.flatten ++ marks ++ code → Phase s ks

variable {s next : Scanner} {ks : List Kind} {tokens : List Token}

theorem fed_tail {c : Char} {cs : List Char} (fed : Fed (c :: cs)) : cs = [] ∨ Fed cs := by
  cases cs with
  | nil => exact .inl rfl
  | cons d ds => exact .inr (@Fed.of_suffix [c] _ fed (List.cons_ne_nil d ds))

theorem Phase.layout {width : Nat} {place : Place} {rest : List Char} (phase : Phase s ks)
    (start : s.atLineStart = true) (skipped : skipLayout false 0 s.place s.rest = (width, place, rest))
    (moves : LayoutMoves s width place rest tokens next) :
    Phase next (ks ++ tokens.map Token.kind) := by
  obtain ⟨before, split, -, visible⟩ := skipLayout_visible false 0 s.place s.rest
  rw [skipped] at split visible
  cases phase with
  | marked within | within within =>
    rw [start] at within
    cases within
  | lineStart _ fed lines same =>
    have fed (filled : rest ≠ []) : Fed rest := by
      rcases fed with none | fed
      · rw [none] at split
        exact absurd (List.append_eq_nil_iff.mp split.symm).2 filled
      · rw [split] at fed
        exact fed.of_suffix filled
    cases moves with
    | level =>
      refine .marked rfl ?_ Marks.none lines (by simp [same])
      by_cases none : rest = []
      · exact .inl ⟨none, rfl⟩
      · exact .inr ⟨fed none, visible⟩
    | opened filled _ =>
      exact .marked rfl (.inr ⟨fed filled, visible⟩) (.inl rfl) lines (by simp [same, tokenAt])
    | @closed gone _ filled _ _ =>
      refine @Phase.marked _ _ _ (List.replicate gone.length .dedent) rfl
        (.inr ⟨fed filled, visible⟩) (.inr ⟨_, rfl⟩) lines ?_
      rw [same, List.map_replicate]
      rfl

theorem isCode_ne_newline {k : Kind} (code : k.IsCode) :
    ¬ ((some k).isNone || some k = some .newline) := by
  rw [Option.isNone_some, Bool.false_or, decide_eq_true_iff, Option.some.injEq]
  exact fun same => code (by simp [same])

theorem Phase.word {c : Char} {cs : List Char} (phase : Phase s ks) (within : s.atLineStart = false)
    (here : s.rest = c :: cs) (moves : WordMoves s c cs tokens next) :
    Phase next (ks ++ tokens.map Token.kind) := by
  cases phase with
  | lineStart start =>
    rw [start] at within
    cases within
  | @marked _ marks _ first marks_ lines same =>
    obtain ⟨none, -⟩ | ⟨fed, visible⟩ := first
    · rw [here] at none
      cases none
    · have visible := visible c cs here
      cases moves with
      | gap hidden => exact absurd visible hidden
      | feed same | fed same => exact absurd (by simp [same]) visible
      | @code n kind literal _ code _ inside =>
        exact .within within (fed.drop inside) (isCode_ne_newline code) marks_
          (List.cons_ne_nil kind []) (by simpa using code) lines (by simp [same, tokenAt])
  | @within lines marks code _ fed inked marks_ some_ codes all same =>
    cases moves with
    | gap _ _ _ inside =>
      exact .within within (fed.drop inside) inked marks_ some_ codes all (by simp [same])
    | feed _ silent => exact absurd silent inked
    | fed _ _ =>
      rw [here] at fed
      refine @Phase.lineStart _ _ (lines ++ [marks ++ code ++ [.newline]]) rfl (fed_tail fed) ?_ ?_
      · intro line member
        rcases List.mem_append.mp member with earlier | this
        · exact all line earlier
        · rw [List.mem_singleton.mp this]
          exact ⟨marks, code, marks_, some_, codes, rfl⟩
      · simp [same, tokenAt]
    | @code n kind literal _ isCode _ inside =>
      refine @Phase.within _ _ _ _ (code ++ [kind]) within (fed.drop inside)
        (isCode_ne_newline isCode) marks_ (by simp) ?_ all (by simp [same, tokenAt])
      intro k member
      rcases List.mem_append.mp member with earlier | this
      · exact codes k earlier
      · rwa [List.mem_singleton.mp this]

/-- A move goes on with the lines. -/
theorem Phase.move (phase : Phase s ks) (move : s.advance = .ok (tokens, some next)) :
    Phase next (ks ++ tokens.map Token.kind) := by
  cases advance_moves move with
  | layout start skipped moves => exact phase.layout start skipped moves
  | word within here moves => exact phase.word within here moves

/-- What holds of the open blocks when tokens of the kinds `ks` have been read. -/
structure Upheld (s : Scanner) (ks : List Kind) : Prop where
  increasing : s.indentations.Pairwise (· < ·)
  balance : ks.count .dedent + s.blocks.length = ks.count .indent
  never : NeverOverdrawn ks

theorem Upheld.of_flat {us : List Kind} (upheld : Upheld s ks) (blocks : next.blocks = s.blocks)
    (flat : ∀ k ∈ us, k ≠ .indent ∧ k ≠ .dedent) : Upheld next (ks ++ us) := by
  refine ⟨?_, ?_, upheld.never.flat flat⟩
  · unfold indentations
    rw [blocks]
    exact upheld.increasing
  · have none (m : Kind) (apart : ∀ k ∈ us, k ≠ m) : us.count m = 0 :=
      List.count_eq_zero.mpr fun member => apart m member rfl
    rw [List.count_append, List.count_append, none .dedent fun k member => (flat k member).2,
      none .indent fun k member => (flat k member).1, blocks]
    exact upheld.balance

/-- The widths are ordered from the inside out as well. -/
theorem increasing_iff : s.indentations.Pairwise (· < ·) ↔ (s.blocks ++ [0]).Pairwise (· > ·) := by
  have whole : s.indentations = (s.blocks ++ [0]).reverse := by simp [indentations]
  rw [whole, List.pairwise_reverse]

theorem Upheld.layout {width : Nat} {place : Place} {rest : List Char} (upheld : Upheld s ks)
    (moves : LayoutMoves s width place rest tokens next) :
    Upheld next (ks ++ tokens.map Token.kind) := by
  have decreasing := increasing_iff.mp upheld.increasing
  cases moves with
  | level => exact upheld.of_flat rfl (by simp)
  | opened _ deeper =>
    have outer : ∀ w ∈ s.blocks ++ [0], w < width := by
      cases blocks : s.blocks with
      | nil =>
        rw [blocks] at deeper
        simpa using deeper
      | cons b bs =>
        rw [blocks] at deeper decreasing
        intro w member
        rcases List.mem_cons.mp member with rfl | member
        · exact deeper
        · exact Nat.lt_trans (List.rel_of_pairwise_cons decreasing member) deeper
    refine ⟨increasing_iff.mpr (List.pairwise_cons.mpr ⟨outer, decreasing⟩), ?_, ?_⟩
    · have balance := upheld.balance
      simp only [List.map_singleton, tokenAt, List.count_append, List.length_cons]
      rw [List.count_singleton_self, List.count_singleton]
      simp only [beq_iff_eq, reduceCtorEq, if_false]
      omega
    · refine upheld.never.append fun n => ?_
      have balance := upheld.balance
      cases n with
      | zero => simpa using by omega
      | succ n =>
        simp only [List.map_singleton, tokenAt, List.take_succ_cons, List.take_nil]
        rw [List.count_singleton_self, List.count_singleton]
        simp only [beq_iff_eq, reduceCtorEq, if_false]
        omega
  | @closed gone still _ split _ =>
    have balance := upheld.balance
    rw [split, List.length_append] at balance
    rw [split, List.append_assoc] at decreasing
    rw [List.map_replicate]
    refine ⟨increasing_iff.mpr (List.pairwise_append.mp decreasing).2.1, ?_,
      upheld.never.closing (by omega)⟩
    simp only [tokenAt, List.count_append, List.count_replicate, beq_iff_eq, reduceCtorEq, if_false,
      if_true]
    omega

/-- A move keeps the widths in order and the count of the marks. -/
theorem Upheld.move (upheld : Upheld s ks) (move : s.advance = .ok (tokens, some next)) :
    Upheld next (ks ++ tokens.map Token.kind) := by
  cases advance_moves move with
  | layout _ _ moves => exact upheld.layout moves
  | word _ _ moves =>
    cases moves with
    | gap | feed => exact upheld.of_flat rfl (by simp)
    | fed => exact upheld.of_flat rfl (by simp [tokenAt])
    | code _ code =>
      refine upheld.of_flat rfl ?_
      simp only [List.map_singleton, tokenAt, List.mem_singleton, forall_eq]
      exact ⟨fun same => code (by simp [same]), fun same => code (by simp [same])⟩

/-- What holds all along a scan. -/
theorem phase_upheld_of_goes (goes : s.Goes tokens next) : ∀ {ks : List Kind}, Phase s ks →
    Upheld s ks → Phase next (ks ++ tokens.map Token.kind) ∧
      Upheld next (ks ++ tokens.map Token.kind) := by
  induction goes with
  | refl =>
    intro ks phase upheld
    rw [List.map_nil, List.append_nil]
    exact ⟨phase, upheld⟩
  | step move _ _ ih =>
    intro ks phase upheld
    rw [List.map_append, ← List.append_assoc]
    exact ih (phase.move move) (upheld.move move)

theorem fed_normalized (source : String) : Fed (Text.normalized source) := by
  unfold Fed Text.normalized
  dsimp only
  split
  next fed => exact fed
  next => simp

theorem phase_start (source filename : String) : Phase (start source filename) [] :=
  @Phase.lineStart _ _ [] rfl (.inr (fed_normalized source)) (by simp) rfl

theorem upheld_start (source filename : String) : Upheld (start source filename) [] :=
  ⟨List.pairwise_singleton _ _, rfl, fun n => by simp⟩

/-- The last move closes the blocks that are still open. -/
theorem Phase.ends (phase : Phase s ks) (upheld : Upheld s ks)
    (last : s.advance = .ok (tokens, none)) : ∃ lines : List (List Kind),
      (∀ line ∈ lines, IsLine line) ∧ ks = lines.flatten ∧
      tokens.map Token.kind = List.replicate s.blocks.length .dedent ++ [.eof] ∧
      NeverOverdrawn (ks ++ tokens.map Token.kind) := by
  cases advance_moves last with
  | ended within none =>
    have kinds : s.finish.map Token.kind = List.replicate s.blocks.length .dedent ++ [.eof] := by
      simp [finish, tokenAt]
    have balance := upheld.balance
    have never : NeverOverdrawn (ks ++ s.finish.map Token.kind) := by
      rw [kinds, ← List.append_assoc]
      exact (upheld.never.closing (Nat.le_of_eq balance)).flat (by simp)
    cases phase with
    | lineStart start =>
      rw [start] at within
      cases within
    | marked _ first _ lines same =>
      obtain ⟨-, rfl⟩ | ⟨fed, -⟩ := first
      · exact ⟨_, lines, by simpa using same, kinds, never⟩
      · rw [none] at fed
        cases fed
    | within _ fed =>
      rw [none] at fed
      cases fed

/-- What is read up to some point of a scan comes first in what is read in all. -/
theorem Goes.comes_first {m m' : Scanner} {ts us : List Token} (goes : s.Goes tokens m) :
    s.Goes ts m' → m'.advance = .ok (us, none) → tokens <+: ts ++ us := by
  intro whole last
  induction goes generalizing ts with
  | refl => exact List.nil_prefix
  | step move _ _ ih =>
    cases whole with
    | refl => cases move.symm.trans last
    | step move' _ rest =>
      cases move.symm.trans move'
      rw [List.append_assoc]
      exact (List.prefix_append_right_inj _).mpr (ih rest)

end Scanner

namespace Token

open Token.Kind (IsLine LaidOut)

theorem eof_not_mem_lines {lines : List (List Kind)} (each : ∀ line ∈ lines, IsLine line) :
    .eof ∉ lines.flatten := by
  intro member
  obtain ⟨line, inside, member⟩ := List.mem_flatten.mp member
  obtain ⟨marks, code, marked, -, codes, rfl⟩ := each line inside
  rcases List.mem_append.mp member with front | last
  · rcases List.mem_append.mp front with front | word
    · rcases marked with rfl | ⟨n, rfl⟩
      · simp at front
      · exact absurd (List.eq_of_mem_replicate front) (by decide)
    · exact codes _ word (by simp)
  · simp at last

/-- The tokens of every text are laid out in lines and blocks, and all along the scan the widths of the
open blocks increase from zero on, and there are as many of these blocks as there are marks so far that
opened one, less those that closed one. -/
theorem tokens_laidOut {source filename : String} {tokens : List Token}
    (read : tokenize source filename = .ok tokens) :
    (∃ before last, tokens = before ++ [last] ∧ last.kind = .eof ∧ ∀ t ∈ before, t.kind ≠ .eof) ∧
    (∀ n, ((tokens.take n).map kind).count .dedent ≤ ((tokens.take n).map kind).count .indent) ∧
    (tokens.map kind).count .dedent = (tokens.map kind).count .indent ∧
    LaidOut (tokens.map kind) ∧
    ∀ ts s, (Scanner.start source filename).Goes ts s →
      ts <+: tokens ∧ s.indentations.Pairwise (· < ·) ∧ s.indentations.head? = some 0 ∧
        s.indentations.length - 1 + (ts.map kind).count .dedent = (ts.map kind).count .indent := by
  obtain ⟨ts, m, us, goes, last, rfl⟩ := goes_of_tokenize read
  have begun := Scanner.phase_start source filename
  have started := Scanner.upheld_start source filename
  obtain ⟨phase, upheld⟩ := Scanner.phase_upheld_of_goes goes begun started
  rw [List.nil_append] at phase upheld
  obtain ⟨lines, each, before, behind, never⟩ := phase.ends upheld last
  have balance := upheld.balance
  have kinds : (ts ++ us).map kind =
      lines.flatten ++ List.replicate m.blocks.length .dedent ++ [.eof] := by
    rw [List.map_append, before, behind, List.append_assoc]
  refine ⟨?_, fun n => ?_, ?_, ⟨lines, _, each, kinds⟩, fun part s there => ?_⟩
  · obtain ⟨front, back, same, first, end_⟩ := List.map_eq_append_iff.mp kinds
    obtain ⟨final, rfl, mark⟩ := List.map_eq_singleton_iff.mp end_
    refine ⟨front, final, same, mark, fun t member same => ?_⟩
    have kindOf : Kind.eof ∈ front.map kind := same ▸ List.mem_map_of_mem member
    rw [first] at kindOf
    rcases List.mem_append.mp kindOf with inside | closing
    · exact eof_not_mem_lines each inside
    · exact absurd (List.eq_of_mem_replicate closing) (by decide)
  · rw [List.map_take, List.map_append]
    exact never n
  · rw [List.map_append, List.count_append, List.count_append, behind]
    simp only [List.count_append, List.count_replicate, List.count_singleton, beq_iff_eq,
      reduceCtorEq, if_false, if_true]
    omega
  · have upheld := (Scanner.phase_upheld_of_goes there begun started).2
    rw [List.nil_append] at upheld
    refine ⟨there.comes_first goes last, upheld.increasing, rfl, ?_⟩
    have balance := upheld.balance
    simp only [Scanner.indentations, List.length_cons, List.length_reverse, Nat.add_sub_cancel]
    omega

/-- Tabs, comments that stand anywhere, two blocks that close at once, and no line feed at the end. -/
theorem tokens_laidOut_ragged : ∃ tokens,
    tokenize "# a\nif x:\n\ty = 1 # b\n\n      # c\n\tif y:\n\t\t\tpass\nz = 2" "<stdin>" = .ok tokens ∧
      tokens.map kind =
        [.kwIf, .identifier, .colon, .newline, .indent, .identifier, .assign, .number, .newline, .kwIf,
          .identifier, .colon, .newline, .indent, .kwPass, .newline, .dedent, .dedent, .identifier,
          .assign, .number, .newline, .eof] ∧
      LaidOut (tokens.map kind) := by
  have checked : (tokenize
      "# a\nif x:\n\ty = 1 # b\n\n      # c\n\tif y:\n\t\t\tpass\nz = 2" "<stdin>").toOption.any
        (fun tokens => tokens.map kind =
          [.kwIf, .identifier, .colon, .newline, .indent, .identifier, .assign, .number, .newline, .kwIf,
            .identifier, .colon, .newline, .indent, .kwPass, .newline, .dedent, .dedent, .identifier,
            .assign, .number, .newline, .eof]) = true := by
    rw [@tokenize_eq_ofChars "# a\nif x:\n\ty = 1 # b\n\n      # c\n\tif y:\n\t\t\tpass\nz = 2" _ rfl]
    decide +kernel
  obtain ⟨tokens, read, checked⟩ := exists_ok checked
  exact ⟨tokens, read, of_decide_eq_true checked, (tokens_laidOut read).2.2.2.1⟩

end Token

end Stepwise
