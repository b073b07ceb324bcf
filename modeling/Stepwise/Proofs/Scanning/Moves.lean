import Stepwise.Proofs.Reading.Tokens
import Stepwise.Proofs.Scanning.Spellings

/-!
Moves of the scanner. What one move can do is said once: `word_moves` within a line, `layout_moves` at
the start of one. Every move lowers the weight of what is left to do, so a scan that succeeds is a
sequence of moves up to the last one (`goes_of_tokenize`).
-/
namespace Stepwise

/-- Kinds that stand for something written, as opposed to the marks of the layout and of the end. -/
def Token.Kind.IsCode (k : Token.Kind) : Prop := k ∉ [.newline, .indent, .dedent, .eof]

instance (k : Token.Kind) : Decidable k.IsCode := inferInstanceAs (Decidable (k ∉ _))

namespace Scanner

open Token (Kind Spells)

/-- Characters that are no blanks and start neither a comment nor a line. -/
def Visible (c : Char) : Prop := c ∉ [' ', '\t', '#', '\n']

instance (c : Char) : Decidable (Visible c) := inferInstanceAs (Decidable (c ∉ _))

theorem visible_of_ne {c : Char} (filled : ¬ (c = ' ' || c = '\t') = true) (plain : c ≠ '#')
    (inner : c ≠ '\n') : Visible c := by
  unfold Visible
  simp_all

/-- A text whose last line is complete. -/
def Fed (cs : List Char) : Prop := cs.getLast? = some '\n'

theorem Fed.of_suffix {cs ds : List Char} (fed : Fed (cs ++ ds)) (filled : ds ≠ []) : Fed ds := by
  unfold Fed at *
  rw [List.getLast?_append, List.getLast?_eq_some_getLast filled] at fed
  rw [List.getLast?_eq_some_getLast filled]
  exact fed

/-- Passing over a part of the line does not come to its end. -/
theorem Fed.drop {cs : List Char} {n : Nat} (fed : Fed cs) (inside : '\n' ∉ cs.take n) :
    Fed (cs.drop n) := by
  rw [← List.take_append_drop n cs] at fed
  refine fed.of_suffix fun none => inside ?_
  rw [none, List.append_nil] at fed
  exact List.mem_of_getLast? fed

/-- What a move within a line does, from a scanner that stands on the character `c`. -/
inductive WordMoves (s : Scanner) (c : Char) (cs : List Char) : List Token → Scanner → Prop where
  /-- A blank, or a comment up to the end of its line, is passed over. -/
  | gap {n : Nat} : ¬ Visible c → c ≠ '\n' → 0 < n → '\n' ∉ s.rest.take n →
      (c ≠ '#' → n = 1) → (c = '#' → ∀ d ∈ (s.rest.drop n).head?, d = '\n') →
      WordMoves s c cs []
        { s with rest := s.rest.drop n, place := s.place.afterAll (s.rest.take n) }
  | feed : c = '\n' → s.last.isNone || s.last = some .newline →
      WordMoves s c cs [] { s with rest := cs, place := s.place.after c, atLineStart := true }
  | fed : c = '\n' → ¬ (s.last.isNone || s.last = some .newline) →
      WordMoves s c cs [tokenAt s.place .newline .null]
        { s with rest := cs, place := s.place.after c, atLineStart := true, last := some .newline }
  | code {n : Nat} {kind : Kind} {literal : Scalar} : Visible c → kind.IsCode → 0 < n →
      '\n' ∉ s.rest.take n → Spells kind literal (s.rest.take n) →
      WordMoves s c cs [tokenAt s.place kind literal]
        { s with
          rest := s.rest.drop n, place := s.place.afterAll (s.rest.take n), last := some kind }

theorem codes_of_tables : (∀ entry ∈ Token.twoCharOperators, entry.2.IsCode ∧ entry.1.2 ≠ '\n') ∧
    (∀ entry ∈ Token.oneCharSigns, entry.2.IsCode) ∧
    ∀ entry ∈ Token.keywords, entry.2.IsCode := by decide

theorem isCode_wordKind (word : String) : (Token.wordKind word).IsCode := by
  unfold Token.wordKind
  cases found : Token.keywords.lookup word with
  | none => decide
  | some kind => exact codes_of_tables.2.2 _ (mem_of_lookup found)

theorem take_takeWhile {α : Type} (p : α → Bool) (cs : List α) :
    cs.take (cs.takeWhile p).length = cs.takeWhile p :=
  (List.prefix_iff_eq_take.mp (List.takeWhile_prefix p)).symm

theorem drop_takeWhile {α : Type} (p : α → Bool) (cs : List α) :
    cs.drop (cs.takeWhile p).length = cs.dropWhile p := by
  induction cs with
  | nil => rfl
  | cons c cs ih => by_cases holds : p c = true <;> simp [holds, ih]

theorem not_mem_takeWhile {p : Char → Bool} (stops : p '\n' = false) (cs : List Char) :
    '\n' ∉ cs.takeWhile p := by
  intro member
  rw [List.all_eq_true.mp List.all_takeWhile _ member] at stops
  cases stops

theorem length_takeWhile_pos {α : Type} {p : α → Bool} {c : α} (cs : List α) (holds : p c = true) :
    0 < ((c :: cs).takeWhile p).length := by
  rw [List.takeWhile_cons_of_pos holds]
  exact Nat.succ_pos _

/-- A string literal ends on its own line. -/
theorem stringBody_inside (quote : Char) (cs : List Char) :
    ∀ {body : List Char} {n : Nat}, quote ≠ '\n' → stringBody quote cs = some (body, n) →
      '\n' ∉ cs.take n := by
  fun_induction stringBody quote cs with
  | case1 | case2 | case3 | case4 =>
    intro _ _ _ read
    cases read
  | case5 c cs other ih =>
    intro body n proper read
    obtain ⟨⟨rest, m⟩, inner, same⟩ := Option.map_eq_some_iff.mp read
    cases same
    have inside := ih proper inner
    simpa [inside, eq_comm] using other
  | case6 cs _ _ _ =>
    intro body n proper read
    cases read
    simpa using proper.symm
  | case7 c cs feed _ _ other ih =>
    intro body n proper read
    obtain ⟨⟨rest, m⟩, inner, same⟩ := Option.map_eq_some_iff.mp read
    cases same
    have inside := ih proper inner
    simpa [inside, eq_comm] using feed

/-- The characters of a numeral. -/
theorem take_numeral {cs whole fraction : List Char} (read : numeral cs = (whole, fraction)) :
    cs.take whole.length = whole ∧
      (fraction ≠ [] → cs.take (whole.length + 1 + fraction.length) = whole ++ '.' :: fraction) ∧
      '\n' ∉ whole ∧ '\n' ∉ fraction := by
  have stop : Char.isDigit '\n' = false := by decide
  unfold numeral at read
  dsimp only at read
  split at read
  next rest point =>
    cases read
    refine ⟨take_takeWhile _ cs, fun _ => ?_, not_mem_takeWhile stop cs, not_mem_takeWhile stop rest⟩
    rw [Nat.add_assoc, List.take_add, take_takeWhile, point, Nat.add_comm 1, List.take_succ_cons,
      take_takeWhile]
  next =>
    cases read
    exact ⟨take_takeWhile _ cs, fun some_ => absurd rfl some_, not_mem_takeWhile stop cs,
      List.not_mem_nil⟩

/-- The characters of a numeral are digits. -/
theorem digits_numeral {cs whole fraction : List Char} (read : numeral cs = (whole, fraction)) :
    (∀ c ∈ whole, c.isDigit = true) ∧ ∀ c ∈ fraction, c.isDigit = true := by
  unfold numeral at read
  dsimp only at read
  split at read <;> cases read
  · exact ⟨List.all_eq_true.mp List.all_takeWhile, List.all_eq_true.mp List.all_takeWhile⟩
  · exact ⟨List.all_eq_true.mp List.all_takeWhile, by simp⟩

section Word

variable {s next : Scanner} {c : Char} {cs : List Char} {tokens : List Token}

theorem take_moves {n : Nat} {kind : Kind} {literal : Scalar} (visible : Visible c)
    (code : kind.IsCode) (some_ : 0 < n) (inside : '\n' ∉ s.rest.take n)
    (spells : Spells kind literal (s.rest.take n))
    (read : s.take n kind literal = .ok (tokens, next)) : WordMoves s c cs tokens next := by
  cases read
  exact .code visible code some_ inside spells

theorem number_moves (visible : Visible c) (here : s.rest = c :: cs) (digit : c.isDigit = true)
    (read : s.number = .ok (tokens, next)) : WordMoves s c cs tokens next := by
  unfold number at read
  rcases read_ : numeral s.rest with ⟨whole, fraction⟩
  obtain ⟨first, both, left, right⟩ := take_numeral read_
  obtain ⟨digits, digits'⟩ := digits_numeral read_
  have some_ : 0 < whole.length := by
    have starts := length_takeWhile_pos cs digit
    have same : whole = s.rest.takeWhile Char.isDigit := by
      unfold numeral at read_
      dsimp only at read_
      split at read_ <;> exact (Prod.mk.inj read_).1.symm
    rwa [same, here]
  rw [read_] at read
  dsimp only at read
  split at read
  next =>
    split at read
    · cases read
    · refine take_moves visible (by decide) some_ (by rwa [first]) ?_ read
      rw [first]
      exact .whole (List.ne_nil_of_length_pos some_) digits
  next filled =>
    have filled : fraction ≠ [] := fun none => filled (by rw [none]; rfl)
    refine take_moves visible (by decide) (by omega) ?_ ?_ read <;> rw [both filled]
    · simp [left, right]
    · exact .decimal (List.ne_nil_of_length_pos some_) digits filled digits'

theorem string_moves (visible : Visible c) (here : s.rest = c :: cs) (quote : c = '"' ∨ c = '\'')
    (read : s.string c cs = .ok (tokens, next)) : WordMoves s c cs tokens next := by
  have proper : c ≠ '\n' := fun same => visible (by simp [same])
  unfold string at read
  split at read
  next body length found =>
    obtain ⟨inner, taken, quoted⟩ := quoted_stringBody c cs found
    refine take_moves visible (by decide) (Nat.succ_pos _) ?_ ?_ read
    · rw [here, List.take_succ_cons, List.mem_cons, not_or]
      exact ⟨proper.symm, stringBody_inside c cs proper found⟩
    · rw [here, List.take_succ_cons, taken]
      exact .quoted quote quoted
  · cases read

theorem word_moves (here : s.rest = c :: cs) (read : s.word c cs = .ok (tokens, next)) :
    WordMoves s c cs tokens next := by
  unfold word at read
  split at read
  next blank =>
    have blank : c = ' ' ∨ c = '\t' := by simpa using blank
    cases read
    refine .gap (fun visible => visible ?_) ?_ Nat.one_pos ?_ (fun _ => rfl) ?_
    · rcases blank with rfl | rfl <;> decide
    · rcases blank with rfl | rfl <;> decide
    · rw [here]
      rcases blank with rfl | rfl <;> simp
    · rcases blank with rfl | rfl <;> exact nofun
  next filled =>
    split at read
    next sign =>
      cases read
      refine .gap (fun visible => visible (by simp [sign])) (by rw [sign]; decide) ?_ ?_
        (absurd sign) fun _ d next_ => ?_
      · rw [here]
        exact length_takeWhile_pos cs (by rw [sign]; decide)
      · rw [take_takeWhile]
        exact not_mem_takeWhile (by decide) s.rest
      · rw [drop_takeWhile] at next_
        have stops := List.head?_dropWhile_not (· ≠ '\n') s.rest
        rw [Option.mem_def.mp next_] at stops
        simpa using stops
    next plain =>
      split at read
      next feed =>
        dsimp only at read
        split at read
        next silent =>
          cases read
          exact .feed feed silent
        next inked =>
          cases read
          exact .fed feed inked
      next inner =>
        have visible := visible_of_ne filled plain inner
        split at read
        next kind found =>
          obtain ⟨d, next_, found⟩ := Option.bind_eq_some_iff.mp found
          obtain ⟨code, other⟩ := codes_of_tables.1 _ (mem_of_lookup found)
          cases cs with
          | nil => cases next_
          | cons e cs =>
            cases next_
            have two : s.rest.take 2 = [c, d] := by rw [here]; rfl
            refine take_moves visible code (by decide) ?_ ?_ read <;> rw [two]
            · simpa [inner, eq_comm] using other
            · exact .operator found
        next =>
          split at read
          next kind found =>
            have one : s.rest.take 1 = [c] := by rw [here]; rfl
            have code := codes_of_tables.2.1 _ (mem_of_lookup found)
            refine take_moves visible code Nat.one_pos ?_ ?_ read <;> rw [one]
            · simpa [eq_comm] using inner
            · exact .sign found
          next =>
            split at read
            next digit => exact number_moves visible here digit read
            next =>
              split at read
              next quote => exact string_moves visible here (by simpa using quote) read
              next =>
                split at read
                next start =>
                  refine take_moves visible (isCode_wordKind _) ?_ ?_ ?_ read
                  · rw [here]
                    exact length_takeWhile_pos cs (by simp [Token.isNamePart, start])
                  · rw [take_takeWhile]
                    exact not_mem_takeWhile (by decide) s.rest
                  · rw [take_takeWhile, here, List.takeWhile_cons_of_pos (by simp [Token.isNamePart, start])]
                    exact .word start (List.all_eq_true.mp List.all_takeWhile)
                · cases read

end Word

section Layout

variable {s next : Scanner} {tokens : List Token}

/-- Where the scanner stands behind blank lines and comments: at the end of the text, or at a character
that is visible. -/
theorem skipLayout_visible (inComment : Bool) (width : Nat) (place : Place) (cs : List Char) :
    ∃ before, cs = before ++ (skipLayout inComment width place cs).2.2 ∧
      (skipLayout inComment width place cs).2.1 = place.afterAll before ∧
      ∀ c ds, (skipLayout inComment width place cs).2.2 = c :: ds → Visible c := by
  fun_induction skipLayout inComment width place cs with
  | case1 => exact ⟨[], rfl, rfl, by simp⟩
  | case2 _ _ _ _ ih | case3 _ _ _ _ _ ih | case4 _ _ _ _ _ _ ih | case5 _ _ _ _ _ _ _ ih
    | case6 _ _ _ _ _ _ _ _ ih =>
    obtain ⟨before, split, there, visible⟩ := ih
    exact ⟨_ :: before, congrArg (_ :: ·) split, there, visible⟩
  | case7 inComment width place c cs feed comment blank tab sign =>
    refine ⟨[], rfl, rfl, ?_⟩
    rintro _ _ ⟨⟩
    unfold Visible
    simp [feed, blank, tab, sign]

/-- What a move at the start of a line does. The marks that it yields belong to a line that starts
with a visible character. -/
inductive LayoutMoves (s : Scanner) (width : Nat) (place : Place) (rest : List Char) :
    List Token → Scanner → Prop where
  | level : rest = [] ∨ width = s.blocks.headD 0 →
      LayoutMoves s width place rest [] { s with rest, place, atLineStart := false }
  | opened : rest ≠ [] → s.blocks.headD 0 < width →
      LayoutMoves s width place rest [tokenAt place .indent .null]
        { s with
          rest, place, atLineStart := false, blocks := width :: s.blocks, last := some .indent }
  | closed {gone still : List Nat} : rest ≠ [] → s.blocks = gone ++ still → width = still.headD 0 →
      LayoutMoves s width place rest (List.replicate gone.length (tokenAt place .dedent .null))
        { s with rest, place, atLineStart := false, blocks := still, last := some .dedent }

theorem layout_moves (read : s.layout = .ok (tokens, next)) :
    ∃ width place rest, skipLayout false 0 s.place s.rest = (width, place, rest) ∧
      LayoutMoves s width place rest tokens next := by
  rcases skipped : skipLayout false 0 s.place s.rest with ⟨width, place, rest⟩
  refine ⟨width, place, rest, rfl, ?_⟩
  unfold layout at read
  rw [skipped] at read
  dsimp only at read
  split at read
  next level =>
    cases read
    exact .level (by simpa using level)
  next uneven =>
    have uneven : rest ≠ [] ∧ width ≠ s.blocks.headD 0 := by simpa using uneven
    split at read
    next deeper =>
      cases read
      exact .opened uneven.1 deeper
    next =>
      split at read
      next matched =>
        cases read
        have split := @List.takeWhile_append_dropWhile _ (width < ·) s.blocks
        have count : s.blocks.length - (s.blocks.dropWhile (width < ·)).length =
            (s.blocks.takeWhile (width < ·)).length := by
          have whole := congrArg List.length split
          rw [List.length_append] at whole
          omega
        rw [count]
        exact .closed uneven.1 split.symm matched.symm
      · cases read

end Layout

/-- What is left to do: two moves for each character, and one more at the start of a line. -/
def weight (s : Scanner) : Nat := 2 * s.rest.length + if s.atLineStart then 1 else 0

/-- What a move does: it looks at the layout at the start of a line, reads on within one, or ends the
scan with the text. -/
inductive Moves (s : Scanner) : List Token → Option Scanner → Prop where
  | layout {width : Nat} {place : Place} {rest : List Char} {tokens : List Token} {next : Scanner} :
      s.atLineStart = true → skipLayout false 0 s.place s.rest = (width, place, rest) →
      LayoutMoves s width place rest tokens next → Moves s tokens (some next)
  | word {c : Char} {cs : List Char} {tokens : List Token} {next : Scanner} :
      s.atLineStart = false → s.rest = c :: cs → WordMoves s c cs tokens next →
      Moves s tokens (some next)
  | ended : s.atLineStart = false → s.rest = [] → Moves s s.finish none

theorem advance_moves {s : Scanner} {tokens : List Token} {next : Option Scanner}
    (move : s.advance = .ok (tokens, next)) : Moves s tokens next := by
  unfold advance at move
  split at move
  next start =>
    cases read : s.layout with
    | error failure => simp [read, Except.map] at move
    | ok pair =>
      simp only [read, Except.map, Except.ok.injEq, Prod.mk.injEq] at move
      obtain ⟨rfl, rfl⟩ := move
      obtain ⟨width, place, rest, skipped, moves⟩ := layout_moves read
      exact .layout start skipped moves
  next within =>
    have within : s.atLineStart = false := by simpa using within
    split at move
    next ended =>
      cases move
      exact .ended within ended
    next c cs here =>
      cases read : s.word c cs with
      | error failure => simp [read, Except.map] at move
      | ok pair =>
        simp only [read, Except.map, Except.ok.injEq, Prod.mk.injEq] at move
        obtain ⟨rfl, rfl⟩ := move
        exact .word within here (word_moves here read)

/-- Every move but the last one lowers the weight. -/
theorem advance_lighter {s next : Scanner} {tokens : List Token}
    (move : s.advance = .ok (tokens, some next)) : next.weight < s.weight := by
  cases advance_moves move with
  | @layout width place rest _ _ start skipped moves =>
    obtain ⟨before, split, -⟩ := skipLayout_visible false 0 s.place s.rest
    rw [skipped] at split
    have length := congrArg List.length split
    rw [List.length_append] at length
    dsimp only at length
    have there : next.rest = rest ∧ next.atLineStart = false := by
      cases moves <;> exact ⟨rfl, rfl⟩
    simp only [weight, there, start, if_true, Bool.false_eq_true, if_false]
    omega
  | word within here moves =>
    have some_ : 0 < s.rest.length := by simp [here]
    cases moves with
    | gap _ _ more _ | code _ _ more _ =>
      simp only [weight, within, Bool.false_eq_true, if_false, List.length_drop]
      omega
    | feed | fed =>
      simp only [weight, within, here, Bool.false_eq_true, if_false, if_true, List.length_cons]
      omega

/-- Moves of the scanner, with the tokens they yield. -/
inductive Goes : Scanner → List Token → Scanner → Prop
  | refl (s : Scanner) : Goes s [] s
  | step {s m s' : Scanner} {ts us : List Token} (move : s.advance = .ok (ts, some m))
      (less : m.weight < s.weight) (rest : Goes m us s') : Goes s (ts ++ us) s'

theorem Goes.trans {s m s' : Scanner} {ts us : List Token} (first : Goes s ts m)
    (second : Goes m us s') : Goes s (ts ++ us) s' := by
  induction first with
  | refl => exact second
  | step move less _ ih =>
    rw [List.append_assoc]
    exact .step move less (ih second)

theorem Goes.one {s m : Scanner} {ts : List Token} (move : s.advance = .ok (ts, some m))
    (less : m.weight < s.weight) : Goes s ts m := by
  simpa using Goes.step move less (.refl m)

/-- A run makes the moves up to the last one, which the fuel suffices for. -/
theorem run_of_goes {s m : Scanner} {ts us : List Token} (goes : Goes s ts m)
    (last : m.advance = .ok (us, none)) : ∀ fuel found, s.weight < fuel →
      run fuel s found = (found.reverse ++ (ts ++ us), none) := by
  induction goes with
  | refl s =>
    intro fuel found enough
    obtain ⟨fuel, rfl⟩ : ∃ k, fuel = k + 1 := ⟨fuel - 1, by omega⟩
    unfold run
    rw [last]
    simp
  | step move less _ ih =>
    intro fuel found enough
    obtain ⟨fuel, rfl⟩ : ∃ k, fuel = k + 1 := ⟨fuel - 1, by omega⟩
    unfold run
    rw [move]
    dsimp only
    rw [ih last fuel _ (by omega)]
    simp

/-- A run that the fuel suffices for is a sequence of moves, up to a last one or to one that fails. -/
theorem run_ends {s : Scanner} {fuel : Nat} (found : List Token) (enough : s.weight < fuel) :
    ∃ ts m, s.Goes ts m ∧
      ((∃ us, m.advance = .ok (us, none) ∧ run fuel s found = (found.reverse ++ (ts ++ us), none)) ∨
        ∃ failure, m.advance = .error failure ∧
          run fuel s found = (found.reverse ++ ts, some failure)) := by
  induction fuel generalizing s found with
  | zero => exact absurd enough (Nat.not_lt_zero _)
  | succ fuel ih =>
    unfold run
    split
    next failure failed => exact ⟨[], s, .refl s, .inr ⟨failure, failed, by simp⟩⟩
    next us last => exact ⟨[], s, .refl s, .inl ⟨us, last, by simp⟩⟩
    next ts m move =>
      have less := advance_lighter move
      obtain ⟨vs, m', goes, ends⟩ := @ih m (ts.reverse ++ found) (by omega)
      refine ⟨ts ++ vs, m', .step move less goes, ?_⟩
      rcases ends with ⟨us, last, same⟩ | ⟨failure, failed, same⟩
      · exact .inl ⟨us, last, by simp [same]⟩
      · exact .inr ⟨failure, failed, by simp [same]⟩

theorem weight_lt_moves (s : Scanner) : s.weight < s.moves := by
  unfold weight moves
  split <;> omega

end Scanner

/-- Line breaks are brought to their form where there are any. -/
theorem Text.normalizeBreaks_append {cs : List Char} (free : '\r' ∉ cs) (ds : List Char) :
    Text.normalizeBreaks (cs ++ ds) = cs ++ Text.normalizeBreaks ds := by
  induction cs with
  | nil => rfl
  | cons c cs ih =>
    obtain ⟨other, free⟩ := not_or.mp (mt List.mem_cons.mpr free)
    rw [List.cons_append, Text.normalizeBreaks, ih free]
    · rfl
    · exact fun _ same => absurd same.symm other
    · exact fun same => absurd same.symm other

/-- Where there are none, a text gets a line feed at its end unless it has one. -/
theorem Text.normalized_of_free {source : String} (free : '\r' ∉ source.toList) :
    Text.normalized source =
      if source.toList.getLast? = some '\n' then source.toList else source.toList ++ ['\n'] := by
  have breaks := Text.normalizeBreaks_append free []
  rw [List.append_nil, Text.normalizeBreaks, List.append_nil] at breaks
  rw [Text.normalized, breaks]

/-- Reading a text is making moves from its start, up to a last one or to one that fails. -/
theorem Token.tokenize_ends (source filename : String) : ∃ ts m,
    (Scanner.start source filename).Goes ts m ∧
      ((∃ us, m.advance = .ok (us, none) ∧ Token.tokenize source filename = .ok (ts ++ us)) ∨
        ∃ failure, m.advance = .error failure ∧ Token.tokenize source filename = .error failure) := by
  obtain ⟨ts, m, goes, ends⟩ :=
    Scanner.run_ends [] (Scanner.weight_lt_moves (Scanner.start source filename))
  refine ⟨ts, m, goes, ?_⟩
  unfold Token.tokenize Token.scan
  rcases ends with ⟨us, last, ran⟩ | ⟨failure, failed, ran⟩
  · exact .inl ⟨us, last, by rw [ran]; rfl⟩
  · exact .inr ⟨failure, failed, by rw [ran]⟩

theorem Token.goes_of_tokenize {source filename : String} {tokens : List Token}
    (read : Token.tokenize source filename = .ok tokens) : ∃ ts m us,
      (Scanner.start source filename).Goes ts m ∧ m.advance = .ok (us, none) ∧ tokens = ts ++ us := by
  obtain ⟨ts, m, goes, ⟨us, last, same⟩ | ⟨failure, -, same⟩⟩ := Token.tokenize_ends source filename
  · cases read.symm.trans same
    exact ⟨ts, m, us, goes, last, rfl⟩
  · cases read.symm.trans same

theorem Token.goes_of_failed {source filename : String} {failure : Failure}
    (failed : Token.tokenize source filename = .error failure) : ∃ ts m,
      (Scanner.start source filename).Goes ts m ∧ m.advance = .error failure := by
  obtain ⟨ts, m, goes, ⟨us, -, same⟩ | ⟨failure', stops, same⟩⟩ := Token.tokenize_ends source filename
  · cases failed.symm.trans same
  · cases failed.symm.trans same
    exact ⟨ts, m, goes, stops⟩

theorem Token.tokenize_of_goes {source filename : String} {m : Scanner} {ts us : List Token}
    (goes : (Scanner.start source filename).Goes ts m) (last : m.advance = .ok (us, none)) :
    Token.tokenize source filename = .ok (ts ++ us) := by
  unfold Token.tokenize Token.scan
  dsimp only
  rw [Scanner.run_of_goes goes last _ [] (Scanner.weight_lt_moves _)]
  rfl

end Stepwise
