import Stepwise.Proofs.Scanning.Moves

/-!
Where the tokens of a text stand in it. Every token stands where its spelling does, the spellings follow
one another, and between them there are only blanks, line breaks and comments (`tokenize_covers`). Places
are counted in the text here, without the scanner that keeps them as it moves.
-/
namespace Stepwise

/-- The place of what follows a part of a text. -/
def Place.behind (before : List Char) : Place where
  line := before.count '\n' + 1
  column := (before.reverse.takeWhile (· ≠ '\n')).length + 1

theorem Place.behind_concat (before : List Char) (c : Char) :
    Place.behind (before ++ [c]) = (Place.behind before).after c := by
  by_cases feed : c = '\n'
  · simp [Place.behind, Place.after, feed]
  · simp [Place.behind, Place.after, feed]

theorem Place.behind_append (before cs : List Char) :
    Place.behind (before ++ cs) = (Place.behind before).afterAll cs := by
  induction cs generalizing before with
  | nil => rw [List.append_nil]; rfl
  | cons c cs ih => rw [List.append_cons, ih, Place.behind_concat]; rfl

namespace Token

/-- Whether a token has the place of what follows a part of the text. -/
def StandsBehind (t : Token) (before : List Char) : Prop :=
  t.line = some ((Place.behind before).line : Int) ∧
    t.column = some ((Place.behind before).column : Int)

/-- The tokens of the part of a text that is ahead, where another part has been passed. -/
inductive Covers : List Char → List Char → List Token → Prop where
  | done {before : List Char} : Covers before [] []
  | blank {before ahead : List Char} {c : Char} {tokens : List Token} : c ∈ [' ', '\t', '\n'] →
      Covers (before ++ [c]) ahead tokens → Covers before (c :: ahead) tokens
  /-- A comment goes on to the end of its line. -/
  | comment {before comment ahead : List Char} {tokens : List Token} : '\n' ∉ comment →
      (∀ c ∈ ahead.head?, c = '\n') → Covers (before ++ '#' :: comment) ahead tokens →
      Covers before ('#' :: comment ++ ahead) tokens
  | spelled {before word ahead : List Char} {t : Token} {literal : Scalar} {tokens : List Token} :
      t.StandsBehind before → t.literal = .scalar literal → Spells t.kind literal word →
      Covers (before ++ word) ahead tokens → Covers before (word ++ ahead) (t :: tokens)
  | feed {before ahead : List Char} {t : Token} {tokens : List Token} :
      t.StandsBehind before → t.kind = .newline → Covers (before ++ ['\n']) ahead tokens →
      Covers before ('\n' :: ahead) (t :: tokens)
  /-- The marks of the layout and of the end are not written. -/
  | mark {before ahead : List Char} {t : Token} {tokens : List Token} :
      t.StandsBehind before → t.kind ∈ [.indent, .dedent, .eof] → Covers before ahead tokens →
      Covers before ahead (t :: tokens)

variable {before ahead : List Char} {tokens : List Token}

theorem Covers.marks {marks : List Token}
    (each : ∀ t ∈ marks, t.StandsBehind before ∧ t.kind ∈ [.indent, .dedent, .eof])
    (covers : Covers before ahead tokens) : Covers before ahead (marks ++ tokens) := by
  induction marks with
  | nil => exact covers
  | cons t marks ih =>
    obtain ⟨⟨here, mark⟩, each⟩ := List.forall_mem_cons.mp each
    exact .mark here mark (ih each)

/-- Covers a text that is ahead, which starts within a comment if `inComment` says so. -/
def CoversFrom (inComment : Bool) (before ahead : List Char) (tokens : List Token) : Prop :=
  match inComment with
  | false => Covers before ahead tokens
  | true => ∃ comment behind, ahead = comment ++ behind ∧ '\n' ∉ comment ∧
      (∀ c ∈ behind.head?, c = '\n') ∧ Covers (before ++ comment) behind tokens

/-- Passing blanks, line breaks and comments leaves nothing out. -/
theorem covers_skipLayout (inComment : Bool) (width : Nat) (place : Place) (cs : List Char) :
    ∃ passed, cs = passed ++ (Scanner.skipLayout inComment width place cs).2.2 ∧
      (Scanner.skipLayout inComment width place cs).2.1 = place.afterAll passed ∧
      ∀ before tokens,
        Covers (before ++ passed) (Scanner.skipLayout inComment width place cs).2.2 tokens →
        CoversFrom inComment before cs tokens := by
  fun_induction Scanner.skipLayout inComment width place cs with
  | case1 inComment =>
    refine ⟨[], rfl, rfl, fun before tokens covers => ?_⟩
    rw [List.append_nil] at covers
    cases inComment with
    | false => exact covers
    | true => exact ⟨[], [], rfl, List.not_mem_nil, by simp, by rwa [List.append_nil]⟩
  | case2 inComment width place cs ih =>
    obtain ⟨passed, split, there, covers⟩ := ih
    refine ⟨'\n' :: passed, congrArg (_ :: ·) split, there, fun before tokens behind => ?_⟩
    have line : Covers before ('\n' :: cs) tokens := by
      refine .blank (by decide) (covers _ _ ?_)
      rwa [← List.append_cons]
    cases inComment with
    | false => exact line
    | true => exact ⟨[], _, rfl, List.not_mem_nil, by simp, by rwa [List.append_nil]⟩
  | case3 width place c cs inline ih =>
    obtain ⟨passed, split, there, covers⟩ := ih
    refine ⟨c :: passed, congrArg (_ :: ·) split, there, fun before tokens covered => ?_⟩
    rw [List.append_cons] at covered
    obtain ⟨comment, behind, whole, rest, ends, covered⟩ := covers _ _ covered
    exact ⟨c :: comment, behind, congrArg (_ :: ·) whole, by simp [rest, Ne.symm inline], ends,
      by rwa [List.append_cons]⟩
  | case4 inComment width place cs outside _ ih | case5 inComment width place cs outside _ _ ih =>
    obtain ⟨passed, split, there, covers⟩ := ih
    refine ⟨_ :: passed, congrArg (_ :: ·) split, there, fun before tokens covered => ?_⟩
    rw [List.append_cons] at covered
    rw [Bool.not_eq_true] at outside
    rw [outside]
    exact .blank (by decide) (covers _ _ covered)
  | case6 inComment width place cs outside _ _ _ ih =>
    obtain ⟨passed, split, there, covers⟩ := ih
    refine ⟨'#' :: passed, congrArg (_ :: ·) split, there, fun before tokens covered => ?_⟩
    rw [List.append_cons] at covered
    rw [Bool.not_eq_true] at outside
    rw [outside]
    obtain ⟨comment, behind, rfl, rest, ends, covered⟩ := covers _ _ covered
    exact .comment rest ends (by rwa [List.append_cons])
  | case7 inComment width place c cs _ outside =>
    refine ⟨[], rfl, rfl, fun before tokens covered => ?_⟩
    rw [Bool.not_eq_true] at outside
    rw [outside]
    rwa [List.append_nil] at covered

end Token

namespace Scanner

open Token (Covers)

/-- What a scanner does by the time that it has read `tokens`: it passes a part of the text, and they are
the tokens of that part. -/
def Reads (s : Scanner) (tokens : List Token) (s' : Scanner) : Prop :=
  ∃ passed, s.rest = passed ++ s'.rest ∧ s'.place = s.place.afterAll passed ∧
    ∀ before, s.place = Place.behind before →
      ∀ more, Covers (before ++ passed) s'.rest more → Covers before s.rest (tokens ++ more)

variable {s next m : Scanner} {tokens : List Token}

theorem Reads.refl (s : Scanner) : s.Reads [] s :=
  ⟨[], rfl, rfl, fun before _ more covers => by rwa [List.append_nil] at covers⟩

theorem Reads.trans {more : List Token} (first : s.Reads tokens next) (second : next.Reads more m) :
    s.Reads (tokens ++ more) m := by
  obtain ⟨passed, split, there, covers⟩ := first
  obtain ⟨passed', split', there', covers'⟩ := second
  refine ⟨passed ++ passed', by rw [split, split', List.append_assoc], ?_, fun before here us behind => ?_⟩
  · rw [there', there, Place.afterAll, Place.afterAll, Place.afterAll, List.foldl_append]
  · rw [List.append_assoc]
    refine covers before here _ (covers' _ ?_ us ?_)
    · rw [there, here, Place.behind_append]
    · rwa [List.append_assoc]

theorem standsBehind_tokenAt {place : Place} {before : List Char} (here : place = Place.behind before)
    (kind : Token.Kind) (literal : Scalar) : (tokenAt place kind literal).StandsBehind before := by
  subst here
  exact ⟨rfl, rfl⟩

theorem reads_layout {width : Nat} {place : Place} {rest : List Char}
    (skipped : skipLayout false 0 s.place s.rest = (width, place, rest))
    (moves : LayoutMoves s width place rest tokens next) : s.Reads tokens next := by
  obtain ⟨passed, split, there, covers⟩ := Token.covers_skipLayout false 0 s.place s.rest
  rw [skipped] at split there covers
  dsimp only at split there covers
  have marks : next.rest = rest ∧ next.place = place ∧
      ∀ t ∈ tokens, ∃ kind ∈ [Token.Kind.indent, .dedent, .eof], t = tokenAt place kind .null := by
    cases moves with
    | level => exact ⟨rfl, rfl, by simp⟩
    | opened => exact ⟨rfl, rfl, by simp⟩
    | closed =>
      refine ⟨rfl, rfl, fun t member => ⟨.dedent, by decide, List.eq_of_mem_replicate member⟩⟩
  obtain ⟨rest', place', marks⟩ := marks
  refine ⟨passed, by rw [rest', split], by rw [place', there], fun before here more behind => ?_⟩
  refine covers before _ (.marks (fun t member => ?_) (rest' ▸ behind))
  obtain ⟨kind, mark, rfl⟩ := marks t member
  exact ⟨standsBehind_tokenAt (by rw [there, here, Place.behind_append]) _ _, mark⟩

/-- A blank or a comment is passed over. -/
theorem covers_gap {before cs : List Char} {c : Char} {n : Nat} (hidden : ¬ Visible c) (inline : c ≠ '\n')
    (some_ : 0 < n) (inside : '\n' ∉ (c :: cs).take n) (blank : c ≠ '#' → n = 1)
    (comment : c = '#' → ∀ d ∈ ((c :: cs).drop n).head?, d = '\n')
    (behind : Covers (before ++ (c :: cs).take n) ((c :: cs).drop n) tokens) :
    Covers before (c :: cs) tokens := by
  by_cases sign : c = '#'
  · subst sign
    cases n with
    | zero => cases some_
    | succ n =>
      rw [List.take_succ_cons, List.mem_cons, not_or] at inside
      rw [List.take_succ_cons, List.drop_succ_cons] at behind
      rw [← List.take_append_drop n cs]
      exact .comment inside.2 (comment rfl) behind
  · obtain rfl := blank sign
    have visible : c = ' ' ∨ c = '\t' := by
      refine Classical.byContradiction fun filled => hidden ?_
      unfold Visible
      simp only [List.mem_cons, List.not_mem_nil, or_false, not_or] at filled ⊢
      exact ⟨filled.1, filled.2, sign, inline⟩
    refine .blank ?_ behind
    rcases visible with rfl | rfl <;> decide

theorem reads_word {c : Char} {cs : List Char} (here : s.rest = c :: cs)
    (moves : WordMoves s c cs tokens next) : s.Reads tokens next := by
  cases moves with
  | @gap n hidden inline some_ inside blank comment =>
    refine ⟨s.rest.take n, (List.take_append_drop n s.rest).symm, rfl,
      fun before _ more behind => ?_⟩
    rw [here] at inside comment behind ⊢
    exact covers_gap hidden inline some_ inside blank comment behind
  | feed feed =>
    refine ⟨['\n'], by rw [here, feed]; rfl, by rw [feed]; rfl, fun before _ more behind => ?_⟩
    rw [here, feed]
    exact .blank (by decide) behind
  | fed feed =>
    refine ⟨['\n'], by rw [here, feed]; rfl, by rw [feed]; rfl, fun before there more behind => ?_⟩
    rw [here, feed]
    exact .feed (standsBehind_tokenAt there _ _) rfl behind
  | @code n kind literal _ _ _ _ spells =>
    refine ⟨s.rest.take n, (List.take_append_drop n s.rest).symm, rfl,
      fun before there more behind => ?_⟩
    rw [← List.take_append_drop n s.rest]
    exact .spelled (standsBehind_tokenAt there _ _) rfl spells behind

theorem reads_move (move : s.advance = .ok (tokens, some next)) : s.Reads tokens next := by
  cases advance_moves move with
  | layout _ skipped moves => exact reads_layout skipped moves
  | word _ here moves => exact reads_word here moves

theorem reads_of_goes (goes : s.Goes tokens m) : s.Reads tokens m := by
  induction goes with
  | refl s => exact .refl s
  | step move _ _ ih => exact (reads_move move).trans ih

/-- The last move stands at the end of the text. -/
theorem covers_last {before : List Char} (here : s.place = Place.behind before)
    (last : s.advance = .ok (tokens, none)) : Covers before s.rest tokens := by
  cases advance_moves last with
  | ended _ none =>
    rw [none, ← List.append_nil s.finish]
    refine .marks (fun t member => ?_) .done
    rcases List.mem_append.mp member with closing | final
    · rw [List.eq_of_mem_replicate closing]
      exact ⟨standsBehind_tokenAt here _ _, by simp [tokenAt]⟩
    · rw [List.mem_singleton.mp final]
      exact ⟨standsBehind_tokenAt here _ _, by simp [tokenAt]⟩

end Scanner

namespace Token

/-- The tokens of a text cover it from its start to its end. Each of them is written where it stands,
nothing else is written in between, and a line break that counts stands at a line feed. -/
theorem tokenize_covers {source filename : String} {tokens : List Token}
    (read : tokenize source filename = .ok tokens) : Covers [] (Text.normalized source) tokens := by
  obtain ⟨ts, m, us, goes, last, rfl⟩ := goes_of_tokenize read
  obtain ⟨passed, split, there, covers⟩ := Scanner.reads_of_goes goes
  have start : (Scanner.start source filename).place = Place.behind [] := rfl
  refine covers [] start us (Scanner.covers_last ?_ last)
  rw [there, start, Place.behind_append]

/-- Line endings of two kinds, a quote in quotes, a point that is no fraction, and a comment with a
string in it. -/
theorem tokenize_covers_mixed : ∃ tokens,
    tokenize "if a.b:\r\n\tc = '\\'' # 'x'\r\rd **=1.5" "<stdin>" = .ok tokens ∧
      tokens.map (fun t => (t.kind, t.line, t.column)) =
        [(.kwIf, some 1, some 1), (.identifier, some 1, some 4), (.dot, some 1, some 5),
          (.identifier, some 1, some 6), (.colon, some 1, some 7), (.newline, some 1, some 8),
          (.indent, some 2, some 2), (.identifier, some 2, some 2), (.assign, some 2, some 4),
          (.string, some 2, some 6), (.newline, some 2, some 16), (.dedent, some 4, some 1),
          (.identifier, some 4, some 1), (.power, some 4, some 3), (.assign, some 4, some 5),
          (.number, some 4, some 6), (.newline, some 4, some 9), (.eof, some 5, some 1)] ∧
      Covers [] (Text.normalized "if a.b:\r\n\tc = '\\'' # 'x'\r\rd **=1.5") tokens := by
  have checked : (tokenize "if a.b:\r\n\tc = '\\'' # 'x'\r\rd **=1.5" "<stdin>").toOption.any
      (fun tokens => tokens.map (fun t => (t.kind, t.line, t.column)) =
        [(.kwIf, some 1, some 1), (.identifier, some 1, some 4), (.dot, some 1, some 5),
          (.identifier, some 1, some 6), (.colon, some 1, some 7), (.newline, some 1, some 8),
          (.indent, some 2, some 2), (.identifier, some 2, some 2), (.assign, some 2, some 4),
          (.string, some 2, some 6), (.newline, some 2, some 16), (.dedent, some 4, some 1),
          (.identifier, some 4, some 1), (.power, some 4, some 3), (.assign, some 4, some 5),
          (.number, some 4, some 6), (.newline, some 4, some 9), (.eof, some 5, some 1)]) = true := by
    rw [@tokenize_eq_ofChars "if a.b:\r\n\tc = '\\'' # 'x'\r\rd **=1.5" _ rfl]
    decide +kernel
  obtain ⟨tokens, read, checked⟩ := exists_ok checked
  exact ⟨tokens, read, of_decide_eq_true checked, tokenize_covers read⟩

end Token

end Stepwise
