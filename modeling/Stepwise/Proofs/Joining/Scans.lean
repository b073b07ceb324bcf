import Mathlib.Data.List.TakeWhile
import Stepwise.Proofs.Scanning.Layout

/-!
Scanning a text that goes on. A scanner that has more text behind what it reads, and stands further
down in it, makes the same moves up to the end of the shorter text (`Beside.move`); the open blocks are
closed there by the scanner of the shorter text, and in front of the first word that follows by the other
one.
-/
namespace Stepwise

/-- The same column so many lines further down. -/
def Place.down (n : Nat) (place : Place) : Place := ⟨place.line + n, place.column⟩

theorem Place.after_down (n : Nat) (place : Place) (c : Char) :
    (place.down n).after c = (place.after c).down n := by
  unfold Place.after
  split
  · simp [Place.down, Nat.add_right_comm]
  · rfl

theorem Place.afterAll_down (n : Nat) (place : Place) (cs : List Char) :
    (place.down n).afterAll cs = (place.afterAll cs).down n := by
  unfold Place.afterAll
  induction cs generalizing place with
  | nil => rfl
  | cons c cs ih => rw [List.foldl_cons, List.foldl_cons, Place.after_down, ih]

theorem Place.afterAll_append (place : Place) (cs ds : List Char) :
    place.afterAll (cs ++ ds) = (place.afterAll cs).afterAll ds := List.foldl_append

theorem Place.line_afterAll (place : Place) (cs : List Char) :
    (place.afterAll cs).line = place.line + cs.count '\n' := by
  unfold Place.afterAll
  induction cs generalizing place with
  | nil => rfl
  | cons c cs ih =>
    rw [List.foldl_cons, ih, List.count_cons]
    unfold Place.after
    by_cases feed : c = '\n'
    · simp [feed]
      omega
    · simp [feed]

/-- The token so many lines further down. -/
def Token.down (n : Nat) (t : Token) : Token := { t with line := t.line.map (· + (n : Int)) }

theorem Token.down_zero (t : Token) : t.down 0 = t := by
  cases t with
  | mk kind literal line column => cases line <;> simp [Token.down]

@[simp] theorem Token.down_kind (n : Nat) (t : Token) : (t.down n).kind = t.kind := rfl

namespace Scanner

open Token (Kind)

theorem tokenAt_down (n : Nat) (place : Place) (kind : Kind) (literal : Scalar) :
    tokenAt (place.down n) kind literal = (tokenAt place kind literal).down n := by
  simp [tokenAt, Token.down, Place.down]

theorem Fed.ne_nil {cs : List Char} (fed : Fed cs) : cs ≠ [] := by
  rintro rfl
  cases fed

theorem Fed.tail {c : Char} {cs : List Char} (fed : Fed (c :: cs)) (inner : c ≠ '\n') : Fed cs := by
  rcases fed_tail fed with rfl | fed
  · cases fed
    exact absurd rfl inner
  · exact fed

/-! What is read within a line does not depend on the lines that follow. -/

section Line

variable {cs : List Char} (x : List Char)

theorem takeWhile_fed {p : Char → Bool} (fed : Fed cs) (stops : p '\n' = false) :
    (cs ++ x).takeWhile p = cs.takeWhile p := by
  rw [List.takeWhile_append, if_neg]
  intro whole
  have all := (@List.takeWhile_prefix _ cs p).eq_of_length whole
  have inside := not_mem_takeWhile stops cs
  rw [all] at inside
  exact inside (List.mem_of_getLast? fed)

theorem numeral_fed (fed : Fed cs) : numeral (cs ++ x) = numeral cs := by
  have stop : Char.isDigit '\n' = false := by decide
  have inside : '\n' ∉ cs.take (cs.takeWhile Char.isDigit).length := by
    rw [take_takeWhile]
    exact not_mem_takeWhile stop cs
  have behind := fed.drop inside
  unfold numeral
  dsimp only
  rw [takeWhile_fed x fed stop,
    List.drop_append_of_le_length (List.takeWhile_prefix Char.isDigit).length_le]
  generalize cs.drop (cs.takeWhile Char.isDigit).length = rest at behind
  cases rest with
  | nil => exact absurd rfl behind.ne_nil
  | cons c rest =>
    by_cases point : c = '.'
    · subst point
      simp only [List.cons_append, takeWhile_fed x (behind.tail (by decide)) stop]
    · rw [List.cons_append]
      split
      next same => exact absurd (List.cons.inj same).1 point
      next => 
        split
        next same => exact absurd (List.cons.inj same).1 point
        next => rfl

theorem stringBody_append {quote : Char} : ∀ {body : List Char} {n : Nat},
    stringBody quote cs = some (body, n) →
      stringBody quote (cs ++ x) = some (body, n) ∧ n ≤ cs.length := by
  have plain_of {c : Char} {cs : List Char} (alone : c = '\\' → cs = [] → False)
      (escape : ∀ d ds, c = '\\' → cs = d :: ds → False) : c ≠ '\\' := by
    intro same
    cases cs with
    | nil => exact alone same rfl
    | cons d ds => exact escape d ds same rfl
  fun_induction stringBody quote cs with
  | case1 | case2 | case3 | case4 =>
    intro _ _ read
    cases read
  | case5 c cs other ih =>
    intro body n read
    obtain ⟨⟨rest, m⟩, inner, same⟩ := Option.map_eq_some_iff.mp read
    cases same
    obtain ⟨more, short⟩ := ih inner
    refine ⟨?_, by simpa using short⟩
    rw [List.cons_append, List.cons_append, stringBody, if_neg other, more]
    rfl
  | case6 cs feed alone escape =>
    intro body n read
    cases read
    refine ⟨?_, by simp⟩
    rw [List.cons_append, stringBody_plain feed (plain_of alone escape), if_pos rfl]
  | case7 c cs feed alone escape other ih =>
    intro body n read
    obtain ⟨⟨rest, m⟩, inner, same⟩ := Option.map_eq_some_iff.mp read
    cases same
    obtain ⟨more, short⟩ := ih inner
    refine ⟨?_, by simpa using short⟩
    rw [List.cons_append, stringBody_plain feed (plain_of alone escape), if_neg other, more]
    rfl

end Line

/-- The second scanner stands so many lines further down, and has `x` behind what the first one has.
They may remember different tokens in front of a word, where it makes no difference. -/
structure Beside (x : List Char) (n : Nat) (s s' : Scanner) : Prop where
  rest : s'.rest = s.rest ++ x
  place : s'.place = s.place.down n
  blocks : s'.blocks = s.blocks
  atLineStart : s'.atLineStart = s.atLineStart
  last : s'.last = s.last ∨ s.atLineStart = false ∧ ∃ c cs, s.rest = c :: cs ∧ Visible c

section Moves

variable {x : List Char} {n : Nat} {s s' next : Scanner} {tokens : List Token}

/-- A reader of the second scanner does what one of the first did. -/
def Tracks (x : List Char) (n : Nat) (read : Except Failure (List Token × Scanner))
    (tokens : List Token) (next : Scanner) : Prop :=
  ∃ next', read = .ok (tokens.map (Token.down n), next') ∧ Beside x n next next'

theorem Beside.last_of_hidden {c : Char} {cs : List Char} (beside : Beside x n s s')
    (here : s.rest = c :: cs) (hidden : ¬ Visible c) : s'.last = s.last := by
  rcases beside.last with same | ⟨-, d, ds, other, visible⟩
  · exact same
  · rw [here] at other
    cases other
    exact absurd visible hidden

theorem Beside.take {k : Nat} {kind : Kind} {literal : Scalar} (beside : Beside x n s s')
    (short : k ≤ s.rest.length) (read : s.take k kind literal = .ok (tokens, next)) :
    Tracks x n (s'.take k kind literal) tokens next := by
  cases read
  unfold Tracks
  rw [List.map_singleton, ← tokenAt_down, ← beside.place]
  refine ⟨_, rfl, ?_, ?_, beside.blocks, beside.atLineStart, .inl rfl⟩
  · rw [beside.rest, List.drop_append_of_le_length short]
  · rw [beside.rest, List.take_append_of_le_length short, beside.place, Place.afterAll_down]

theorem Beside.skip {k : Nat} (beside : Beside x n s s') (short : k ≤ s.rest.length)
    (same : s'.last = s.last) (read : s.skip k = .ok (tokens, next)) :
    Tracks x n (s'.skip k) tokens next := by
  cases read
  refine ⟨_, rfl, ?_, ?_, beside.blocks, beside.atLineStart, .inl same⟩
  · rw [beside.rest, List.drop_append_of_le_length short]
  · rw [beside.rest, List.take_append_of_le_length short, beside.place, Place.afterAll_down]

theorem Beside.number (beside : Beside x n s s') (fed : Fed s.rest)
    (read : s.number = .ok (tokens, next)) : Tracks x n s'.number tokens next := by
  unfold Scanner.number at read ⊢
  rw [beside.rest, numeral_fed x fed]
  rcases read_ : numeral s.rest with ⟨whole, fraction⟩
  obtain ⟨first, both, -⟩ := take_numeral read_
  rw [read_] at read
  dsimp only at read ⊢
  split at read
  next none =>
    rw [if_pos none]
    split at read
    · cases read
    next fits =>
      rw [if_neg fits]
      refine beside.take ?_ read
      have length := congrArg List.length first
      rw [List.length_take] at length
      omega
  next some_ =>
    rw [if_neg some_]
    refine beside.take ?_ read
    have length := congrArg List.length (both fun none => some_ (by rw [none]; rfl))
    simp only [List.length_take, List.length_append, List.length_cons] at length
    omega

theorem Beside.string {c : Char} {cs : List Char} (beside : Beside x n s s')
    (here : s.rest = c :: cs) (read : s.string c cs = .ok (tokens, next)) :
    Tracks x n (s'.string c (cs ++ x)) tokens next := by
  unfold Scanner.string at read ⊢
  split at read
  next body length found =>
    obtain ⟨more, short⟩ := stringBody_append x found
    rw [more]
    exact beside.take (by rw [here]; exact Nat.succ_le_succ short) read
  · cases read

theorem Beside.word {c : Char} {cs : List Char} (beside : Beside x n s s') (here : s.rest = c :: cs)
    (fed : Fed s.rest) (read : s.word c cs = .ok (tokens, next)) :
    Tracks x n (s'.word c (cs ++ x)) tokens next := by
  have longer : s'.rest = c :: (cs ++ x) := by rw [beside.rest, here]; rfl
  unfold Scanner.word at read ⊢
  split at read
  next blank =>
    rw [if_pos blank]
    have hidden : ¬ Visible c := by
      have blank : c = ' ' ∨ c = '\t' := by simpa using blank
      rcases blank with rfl | rfl <;> decide
    exact beside.skip (by simp [here]) (beside.last_of_hidden here hidden) read
  next filled =>
    rw [if_neg filled]
    split at read
    next sign =>
      rw [if_pos sign, beside.rest, takeWhile_fed x fed (by decide)]
      exact beside.skip (List.takeWhile_prefix _).length_le
        (beside.last_of_hidden here (by rw [sign]; decide)) read
    next plain =>
      rw [if_neg plain]
      split at read
      next feed =>
        have same := beside.last_of_hidden here (by rw [feed]; decide)
        have ended : ∀ last, Beside x n
            { s with rest := cs, place := s.place.after c, atLineStart := true, last }
            { s' with rest := cs ++ x, place := s'.place.after c, atLineStart := true, last } :=
          fun last => ⟨rfl, by rw [beside.place, Place.after_down], beside.blocks, rfl, .inl rfl⟩
        rw [if_pos feed, same]
        dsimp only at read ⊢
        split at read
        next silent =>
          cases read
          exact ⟨_, if_pos silent, same ▸ ended s.last⟩
        next inked =>
          cases read
          refine ⟨_, (if_neg inked).trans ?_, ended (some .newline)⟩
          rw [List.map_singleton, ← tokenAt_down, ← beside.place]
      next inner =>
        have some_ : cs ≠ [] := by
          rw [here] at fed
          exact (fed.tail inner).ne_nil
        have head : (cs ++ x).head? = cs.head? := by
          rw [List.head?_append, List.head?_eq_some_head some_]
          rfl
        rw [if_neg inner, head]
        split at read
        next kind found =>
          have short : 2 ≤ s.rest.length := by
            rw [here]
            have := List.length_pos_iff.mpr some_
            simp only [List.length_cons]
            omega
          rw [beside.rest, List.take_append_of_le_length short]
          exact beside.take short read
        next =>
          split at read
          next kind found => exact beside.take (by simp [here]) read
          next =>
            split at read
            next digit =>
              rw [if_pos digit]
              exact beside.number fed read
            next other =>
              rw [if_neg other]
              split at read
              next quote =>
                rw [if_pos quote]
                exact beside.string here read
              next other =>
                rw [if_neg other]
                split at read
                next start =>
                  rw [if_pos start, beside.rest, takeWhile_fed x fed (by decide)]
                  exact beside.take (List.takeWhile_prefix _).length_le read
                · cases read

/-- Layout that ends at a word ends there when the text goes on, and layout that takes all of the text
goes on behind it. -/
theorem skipLayout_append (inComment : Bool) (width : Nat) (place : Place) (cs : List Char) :
    ∀ {width' : Nat} {place' : Place} {rest : List Char},
      cs = [] ∧ inComment = false ∧ width = 0 ∨ Fed cs →
      skipLayout inComment width place cs = (width', place', rest) →
      skipLayout inComment width (place.down n) (cs ++ x) =
        if rest = [] then skipLayout false 0 (place'.down n) x
        else (width', place'.down n, rest ++ x) := by
  have inside {inComment : Bool} {width : Nat} {c : Char} {cs : List Char} (feed : c ≠ '\n')
      (ready : c :: cs = [] ∧ inComment = false ∧ width = 0 ∨ Fed (c :: cs)) : Fed cs := by
    rcases ready with ⟨none, -⟩ | fed
    · cases none
    · exact fed.tail feed
  fun_induction skipLayout inComment width place cs with
  | case1 =>
    rintro _ _ _ ready ⟨⟩
    rcases ready with ⟨-, rfl, rfl⟩ | fed
    · rfl
    · exact absurd rfl fed.ne_nil
  | case2 _ _ place _ ih =>
    intro _ _ _ ready skipped
    have ready : Fed ('\n' :: _) := ready.resolve_left (by simp)
    rw [List.cons_append, skipLayout, if_pos rfl, Place.after_down]
    exact ih ((fed_tail ready).imp_left fun none => ⟨none, rfl, rfl⟩) skipped
  | case3 _ place c _ feed ih =>
    intro _ _ _ ready skipped
    rw [List.cons_append, skipLayout, if_neg feed, if_pos rfl, Place.after_down]
    exact ih (.inr (inside feed ready)) skipped
  | case4 inComment _ place _ comment feed ih =>
    intro _ _ _ ready skipped
    rw [List.cons_append, skipLayout, if_neg feed, if_neg comment, if_pos rfl, Place.after_down]
    exact ih (.inr (inside feed ready)) skipped
  | case5 inComment _ place _ comment feed blank ih =>
    intro _ _ _ ready skipped
    rw [List.cons_append, skipLayout, if_neg feed, if_neg comment, if_neg blank, if_pos rfl,
      Place.after_down]
    exact ih (.inr (inside feed ready)) skipped
  | case6 inComment _ place _ comment feed blank tab ih =>
    intro _ _ _ ready skipped
    rw [List.cons_append, skipLayout, if_neg feed, if_neg comment, if_neg blank, if_neg tab,
      if_pos rfl, Place.after_down]
    exact ih (.inr (inside feed ready)) skipped
  | case7 inComment _ place c cs feed comment blank tab sign =>
    rintro _ _ _ - ⟨⟩
    rw [List.cons_append, skipLayout, if_neg feed, if_neg comment, if_neg blank, if_neg tab,
      if_neg sign]
    rfl

/-- Where a scanner stands that has only whole lines in front of it. -/
def Ready (s : Scanner) : Prop := s.rest = [] ∨ Fed s.rest

/-- The scanner has not come to the end of the text yet. -/
def Unfinished (s : Scanner) : Prop := s.atLineStart = true ∨ s.rest ≠ []

theorem Beside.layout (beside : Beside x n s s') (ready : s.Ready) (start : s.atLineStart = true)
    (read : s.layout = .ok (tokens, next)) (filled : next.rest ≠ []) :
    Tracks x n s'.layout tokens next := by
  have last : s'.last = s.last := by
    rcases beside.last with same | ⟨within, -⟩
    · exact same
    · rw [start] at within
      cases within
  rcases skipped : skipLayout false 0 s.place s.rest with ⟨width, place, rest⟩
  have longer := skipLayout_append (x := x) (n := n) false 0 s.place s.rest
    (ready.imp_left fun none => ⟨none, rfl, rfl⟩) skipped
  unfold Scanner.layout at read ⊢
  rw [beside.rest, beside.place, longer]
  rw [skipped] at read
  have some_ : rest ≠ [] := by
    rintro rfl
    cases read
    exact filled rfl
  rw [if_neg some_, beside.blocks]
  have same : (rest ++ x).isEmpty = rest.isEmpty := by
    cases rest with
    | nil => exact absurd rfl some_
    | cons => rfl
  dsimp only at read ⊢
  rw [same]
  split at read
  next level =>
    cases read
    exact ⟨_, if_pos level, rfl, rfl, rfl, rfl, .inl last⟩
  next uneven =>
    rw [if_neg uneven]
    split at read
    next deeper =>
      cases read
      unfold Tracks
      rw [if_pos deeper, List.map_singleton, ← tokenAt_down]
      exact ⟨_, rfl, rfl, rfl, rfl, rfl, .inl rfl⟩
    next shallow =>
      rw [if_neg shallow]
      split at read
      next matched =>
        cases read
        unfold Tracks
        rw [if_pos matched, List.map_replicate, ← tokenAt_down]
        exact ⟨_, rfl, rfl, rfl, rfl, rfl, .inl rfl⟩
      · cases read

theorem Ready.layout {width : Nat} {place : Place} {rest : List Char} (ready : s.Ready)
    (skipped : skipLayout false 0 s.place s.rest = (width, place, rest)) : rest = [] ∨ Fed rest := by
  obtain ⟨before, split, -⟩ := skipLayout_visible false 0 s.place s.rest
  rw [skipped] at split
  rcases ready with none | fed
  · rw [none] at split
    exact .inl (List.append_eq_nil_iff.mp split.symm).2
  · rw [split] at fed
    by_cases none : rest = []
    · exact .inl none
    · exact .inr (fed.of_suffix none)

/-- A move within a line does not take the end of the line without the line feed. -/
theorem Ready.word {c : Char} {cs : List Char} (ready : s.Ready) (here : s.rest = c :: cs)
    (moves : WordMoves s c cs tokens next) :
    next.Ready ∧ next.Unfinished := by
  have fed : Fed s.rest := ready.resolve_left (by rw [here]; exact List.cons_ne_nil c cs)
  cases moves with
  | gap _ _ _ inside | code _ _ _ inside =>
    exact ⟨.inr (fed.drop inside), .inr (fed.drop inside).ne_nil⟩
  | feed | fed =>
    rw [here] at fed
    exact ⟨fed_tail fed, .inl rfl⟩

/-- The two scanners make the same move, unless it takes the first one to the end of its text. -/
theorem Beside.move (beside : Beside x n s s') (ready : s.Ready)
    (move : s.advance = .ok (tokens, some next)) (unfinished : next.Unfinished) :
    ∃ next', s'.advance = .ok (tokens.map (Token.down n), some next') ∧ Beside x n next next' ∧
      next.Ready := by
  have moves := advance_moves move
  unfold advance at move ⊢
  rw [beside.atLineStart]
  split at move
  next start =>
    cases moves with
    | word within => rw [start] at within; cases within
    | @layout width place rest _ _ _ skipped moves =>
      rcases read : s.layout with failure | ⟨ts, m⟩
      · simp [read, Except.map] at move
      · simp only [read, Except.map, Except.ok.injEq, Prod.mk.injEq, Option.some.injEq] at move
        obtain ⟨rfl, rfl⟩ := move
        have there : m.rest = rest ∧ m.atLineStart = false := by
          cases moves <;> exact ⟨rfl, rfl⟩
        have filled : m.rest ≠ [] := by
          rcases unfinished with start | filled
          · rw [there.2] at start
            cases start
          · exact filled
        obtain ⟨next', read', beside'⟩ := beside.layout ready start read filled
        refine ⟨next', ?_, beside', ?_⟩
        · rw [if_pos start, read']
          rfl
        · unfold Ready
          rw [there.1]
          exact ready.layout skipped
  next within =>
    rw [if_neg within]
    split at move
    · cases move
    next c cs here =>
      cases moves with
      | layout start => exact absurd start within
      | @word d ds _ _ within here' moves =>
        cases here.symm.trans here'
        have fed : Fed s.rest := ready.resolve_left (by rw [here]; exact List.cons_ne_nil c cs)
        rcases read : s.word c cs with failure | ⟨ts, m⟩
        · simp [read, Except.map] at move
        · simp only [read, Except.map, Except.ok.injEq, Prod.mk.injEq, Option.some.injEq] at move
          obtain ⟨rfl, rfl⟩ := move
          obtain ⟨next', read', beside'⟩ := beside.word here fed read
          refine ⟨next', ?_, beside', (ready.word here moves).1⟩
          rw [beside.rest, here]
          change (s'.word c (cs ++ x)).map _ = _
          rw [read']
          rfl

/-- Nothing is left to read but blank lines and comments, and `us` are the last tokens. -/
structure Bottom (l : Scanner) (us : List Token) : Prop where
  start : l.atLineStart = true
  ready : l.Ready
  blank : ∃ width place, skipLayout false 0 l.place l.rest = (width, place, []) ∧
    us = finish { l with place }

/-- The two scanners make the same moves, until the first one has nothing left to read. -/
theorem Beside.goes {m : Scanner} {us : List Token} (goes : s.Goes tokens m)
    (last : m.advance = .ok (us, none)) : ∀ {s' : Scanner}, Beside x n s s' → s.Ready → s.Unfinished →
      ∃ l l', s.Goes tokens l ∧ s'.Goes (tokens.map (Token.down n)) l' ∧ Beside x n l l' ∧
        l.Bottom us := by
  induction goes with
  | refl s =>
    intro s' _ _ unfinished
    cases advance_moves last with
    | ended within none =>
      rcases unfinished with start | some_
      · rw [start] at within
        cases within
      · exact absurd none some_
  | @step s next m ts _ move less rest ih =>
    intro s' beside ready unfinished
    by_cases further : next.Unfinished
    · obtain ⟨next', move', beside', ready'⟩ := beside.move ready move further
      obtain ⟨l, l', goes, goes', beside'', bottom⟩ := ih last beside' ready' further
      refine ⟨l, l', .step move less goes, ?_, beside'', bottom⟩
      rw [List.map_append]
      exact .step move' (advance_lighter move') goes'
    · obtain ⟨within, done⟩ := not_or.mp further
      have done : next.rest = [] := Classical.not_not.mp done
      have ended : next.advance = .ok (next.finish, none) := by
        unfold advance
        rw [if_neg within, done]
      cases rest with
      | step move' => cases ended.symm.trans move'
      | refl =>
        cases ended.symm.trans last
        cases advance_moves move with
        | word _ here moves => exact absurd (ready.word here moves).2 further
        | @layout width place rest _ _ start skipped moves =>
          cases moves with
          | opened filled | closed filled => exact absurd (.inr filled) further
          | level =>
            obtain rfl : rest = [] := done
            exact ⟨s, s', .refl s, .refl s', beside, start, ready, width, place, skipped, rfl⟩

/-- Layout is the same further down. -/
theorem skipLayout_down {place place' : Place} {cs rest : List Char} {width : Nat}
    (ready : cs = [] ∨ Fed cs) (skipped : skipLayout false 0 place cs = (width, place', rest)) :
    skipLayout false 0 (place.down n) cs = (width, place'.down n, rest) := by
  have ready := ready.imp_left fun none => And.intro none (And.intro (Eq.refl false) (Eq.refl 0))
  have here := skipLayout_append (x := []) (n := 0) false 0 place cs ready skipped
  have there := skipLayout_append (x := []) (n := n) false 0 place cs ready skipped
  rw [List.append_nil] at here there
  by_cases done : rest = []
  · subst done
    cases skipped.symm.trans here
    exact there
  · rwa [if_neg done, List.append_nil] at there

theorem advance_of_layout (start : s.atLineStart = true) (read : s.layout = .ok (tokens, next)) :
    s.advance = .ok (tokens, some next) := by
  unfold advance
  rw [if_pos start, read]
  rfl

theorem advance_of_ended (within : s.atLineStart = false) (done : s.rest = []) :
    s.advance = .ok (s.finish, none) := by
  unfold advance
  rw [if_neg (by rw [within]; decide), done]

section Layout

variable {width : Nat} {place : Place} {rest : List Char}
  (skipped : skipLayout false 0 s.place s.rest = (width, place, rest))
include skipped

theorem layout_level (level : rest = [] ∨ width = s.blocks.headD 0) :
    s.layout = .ok ([], { s with rest, place, atLineStart := false }) := by
  unfold Scanner.layout
  rw [skipped]
  exact if_pos (by simpa using level)

/-- A line that starts further right opens a block. -/
theorem layout_deeper (filled : rest ≠ []) (deeper : s.blocks.headD 0 < width) : ∃ next,
    s.layout = .ok ([tokenAt place .indent .null], next) := by
  unfold Scanner.layout
  rw [skipped]
  have uneven : ¬ (rest.isEmpty || width = s.blocks.headD 0) := by
    simp only [Bool.or_eq_true, List.isEmpty_iff, decide_eq_true_eq, not_or]
    exact ⟨filled, Nat.ne_of_gt deeper⟩
  exact ⟨_, (if_neg uneven).trans (if_pos deeper)⟩

/-- A line without indentation closes every block. -/
theorem layout_flush (filled : rest ≠ []) (flush : width = 0) (deep : ∀ w ∈ s.blocks, 0 < w) :
    ∃ last, s.layout = .ok (List.replicate s.blocks.length (tokenAt place .dedent .null),
      { s with rest, place, atLineStart := false, blocks := [], last }) := by
  subst flush
  cases blocks : s.blocks with
  | nil =>
    refine ⟨s.last, (layout_level skipped (.inr (by rw [blocks]; rfl))).trans ?_⟩
    rw [blocks]
    rfl
  | cons b bs =>
    have none : s.blocks.dropWhile (0 < ·) = [] := List.dropWhile_eq_nil_iff.mpr (by simpa using deep)
    have uneven : ¬ (rest.isEmpty || 0 = s.blocks.headD 0) := by
      have inner := deep b (by rw [blocks]; exact List.mem_cons_self)
      rw [blocks]
      simp only [Bool.or_eq_true, List.isEmpty_iff, decide_eq_true_eq, not_or]
      exact ⟨filled, Nat.ne_of_lt inner⟩
    refine ⟨some .dedent, ?_⟩
    unfold Scanner.layout
    rw [skipped]
    refine (if_neg uneven).trans ((if_neg (Nat.not_lt_zero _)).trans ?_)
    dsimp only
    rw [none]
    refine (if_pos rfl).trans ?_
    rw [blocks]
    rfl

end Layout

/-- From the bottom the end of the text is one move away. -/
theorem Bottom.closes {us : List Token} (bottom : s.Bottom us) :
    ∃ m, s.Goes [] m ∧ m.advance = .ok (us, none) := by
  obtain ⟨start, -, width, place, skipped, rfl⟩ := bottom
  have move := advance_of_layout start (layout_level skipped (.inl rfl))
  exact ⟨_, .one move (advance_lighter move), advance_of_ended rfl rfl⟩

theorem finish_down (place : s'.place = s.place.down n) (blocks : s'.blocks = s.blocks) :
    s'.finish = s.finish.map (Token.down n) := by
  unfold finish
  rw [List.map_append, List.map_replicate, List.map_singleton, ← tokenAt_down, ← tokenAt_down, place,
    blocks]

/-- Two scanners that have nothing behind them come to the bottom together. -/
theorem Beside.bottom {us : List Token} (beside : Beside [] n s s') (bottom : s.Bottom us) :
    s'.Bottom (us.map (Token.down n)) := by
  obtain ⟨start, ready, width, place, skipped, rfl⟩ := bottom
  have longer := skipLayout_append (x := []) (n := n) false 0 s.place s.rest
    (ready.imp_left fun none => ⟨none, rfl, rfl⟩) skipped
  rw [if_pos rfl, ← beside.rest, ← beside.place] at longer
  refine ⟨beside.atLineStart.trans start, ?_, 0, place.down n, longer, ?_⟩
  · unfold Ready
    rw [beside.rest, List.append_nil]
    exact ready
  · exact (@finish_down n { s with place } { s' with place := place.down n } rfl beside.blocks).symm

/-- What a move passes over, and where it leads. -/
theorem Moves.passed (moves : s.Moves tokens (some next)) :
    ∃ before, s.rest = before ++ next.rest ∧ next.place = s.place.afterAll before := by
  cases moves with
  | layout _ skipped moves =>
    obtain ⟨before, split, there, -⟩ := skipLayout_visible false 0 s.place s.rest
    rw [skipped] at split there
    cases moves <;> exact ⟨before, split, there⟩
  | word _ here moves =>
    cases moves with
    | gap | code => exact ⟨_, (List.take_append_drop _ _).symm, rfl⟩
    | feed | fed => exact ⟨[_], here, rfl⟩

/-- What a scanner has read, and where that has taken it. -/
theorem Goes.passed {m : Scanner} (goes : s.Goes tokens m) :
    ∃ before, s.rest = before ++ m.rest ∧ m.place = s.place.afterAll before := by
  induction goes with
  | refl => exact ⟨[], rfl, rfl⟩
  | step move _ _ ih =>
    obtain ⟨before, split, there⟩ := (advance_moves move).passed
    obtain ⟨behind, after, there'⟩ := ih
    exact ⟨before ++ behind, by rw [split, after, List.append_assoc],
      by rw [there', there, Place.afterAll_append]⟩

end Moves

end Scanner

end Stepwise
