import Stepwise.Proofs.Joining.Texts

/-!
Blank lines and comments are invisible. Two scanners, one of which has such a line more in front of
it, make the same moves and fail alike, but everything behind that line stands one line further down
(`tokenize_insert`). Up to the line both are beside the scanner of the text in front of it.
-/
namespace Stepwise

/-- A failure at a place so many lines further down. -/
def Failure.down (n : Nat) : Failure → Failure
  | .fault f => .fault { f with line := f.line.map (· + (n : Int)) }
  | .host failure => .host failure

theorem Failure.down_zero (failure : Failure) : failure.down 0 = failure := by
  cases failure with
  | fault f =>
    obtain ⟨_, _, line, _, _, _⟩ := f
    cases line <;> simp [Failure.down]
  | host => rfl

/-- The line counted with another one inserted behind the first `k`. -/
def lowered (k : Nat) (line : Option Int) : Option Int :=
  line.map fun l => if (k : Int) < l then l + 1 else l

def Token.lowered (k : Nat) (t : Token) : Token := { t with line := Stepwise.lowered k t.line }

def Failure.lowered (k : Nat) : Failure → Failure
  | .fault f => .fault { f with line := Stepwise.lowered k f.line }
  | .host failure => .host failure

/-- A line of blanks, with or without a comment. -/
def Text.IsBlankLine (line : List Char) : Prop :=
  ∃ blanks comment, line = blanks ++ comment ++ ['\n'] ∧ (∀ c ∈ blanks, c = ' ' ∨ c = '\t') ∧
    (comment = [] ∨ ∃ text, comment = '#' :: text ∧ '\n' ∉ text ∧ '\r' ∉ text)

theorem Text.IsBlankLine.free {line : List Char} (blank : Text.IsBlankLine line) : '\r' ∉ line := by
  obtain ⟨blanks, comment, rfl, gaps, rfl | ⟨text, rfl, -, free⟩⟩ := blank
  all_goals
    have plain : '\r' ∉ blanks := fun member => absurd (gaps _ member) (by decide)
    simp_all

theorem Text.IsBlankLine.fed {line : List Char} (blank : Text.IsBlankLine line) :
    Scanner.Fed line := by
  obtain ⟨blanks, comment, rfl, -⟩ := blank
  exact List.getLast?_concat

theorem Text.normalized_line {before line : String} (free : '\r' ∉ before.toList)
    (blank : Text.IsBlankLine line.toList) :
    Text.normalized (before ++ line) = before.toList ++ line.toList := by
  rw [← String.toList_append]
  refine Text.normalized_fed ?_ ?_ <;> rw [String.toList_append]
  · rw [List.mem_append]
    exact not_or.mpr ⟨free, blank.free⟩
  · unfold Scanner.Fed
    rw [List.getLast?_append, blank.fed, Option.some_or]

/-- A failure that has a line belongs to this one. -/
def Failure.StandsOn (line : Nat) : Failure → Prop
  | .fault f => f.line = some (line : Int)
  | .host _ => True

section Lines

variable {k line : Nat}

theorem lowered_above (above : line ≤ k) : lowered k (some (line : Int)) = some (line : Int) := by
  simp [lowered, Nat.not_lt.mpr above]

theorem lowered_behind (behind : k < line) :
    lowered k (some (line : Int)) = some ((line : Int) + 1) := by
  simp [lowered, behind]

theorem Failure.StandsOn.lowered_above {failure : Failure} (stands : failure.StandsOn line)
    (above : line ≤ k) : failure.lowered k = failure := by
  cases failure with
  | fault f =>
    have stands : f.line = some (line : Int) := stands
    rw [Failure.lowered, stands, Stepwise.lowered_above above, ← stands]
  | host => rfl

theorem Failure.StandsOn.lowered_behind {failure : Failure} (stands : failure.StandsOn line)
    (behind : k < line) : failure.lowered k = failure.down 1 := by
  cases failure with
  | fault f =>
    have stands : f.line = some (line : Int) := stands
    simp [Failure.lowered, Failure.down, stands, Stepwise.lowered_behind behind]
  | host => rfl

theorem Token.map_lowered_above {tokens : List Token}
    (stand : ∀ t ∈ tokens, t.line = some (line : Int)) (above : line ≤ k) :
    tokens.map (Token.lowered k) = tokens := by
  refine (List.map_congr_left fun t member => ?_).trans (List.map_id tokens)
  rw [Token.lowered, stand t member, Stepwise.lowered_above above, ← stand t member]
  rfl

theorem Token.map_lowered_behind {tokens : List Token}
    (stand : ∀ t ∈ tokens, t.line = some (line : Int)) (behind : k < line) :
    tokens.map (Token.lowered k) = tokens.map (Token.down 1) := by
  refine List.map_congr_left fun t member => ?_
  simp [Token.lowered, Token.down, stand t member, Stepwise.lowered_behind behind]

end Lines

namespace Scanner

open Token (Kind)

variable {x : List Char} {n k : Nat} {s s' next : Scanner} {tokens : List Token} {failure : Failure}

/-! Where the tokens and the failure of a move stand. -/

theorem line_word {c : Char} {cs : List Char} (here : s.rest = c :: cs)
    (read : s.word c cs = .ok (tokens, next)) : ∀ t ∈ tokens, t.line = some (s.place.line : Int) := by
  cases word_moves here read with
  | gap | feed => simp
  | fed | code => simp [tokenAt]

theorem line_finish (s : Scanner) : ∀ t ∈ s.finish, t.line = some (s.place.line : Int) := by
  intro t member
  rcases List.mem_append.mp member with closing | mark
  · rw [List.eq_of_mem_replicate closing]
    rfl
  · rw [List.mem_singleton.mp mark]
    rfl

theorem LayoutMoves.line {width : Nat} {place : Place} {rest : List Char}
    (moves : LayoutMoves s width place rest tokens next) :
    ∀ t ∈ tokens, t.line = some (place.line : Int) := by
  cases moves with
  | level => simp
  | opened => simp [tokenAt]
  | closed =>
    intro t member
    rw [List.eq_of_mem_replicate member]
    rfl

/-! A failure does not depend on the lines that follow, and moves with the text. -/

theorem stringBody_unclosed {quote : Char} {cs : List Char} (x : List Char) (fed : Fed cs)
    (open_ : stringBody quote cs = none) : stringBody quote (cs ++ x) = none := by
  fun_induction stringBody quote cs with
  | case1 => exact absurd rfl fed.ne_nil
  | case2 => rfl
  | case3 => cases fed
  | case4 => rfl
  | case5 c cs other ih =>
    have fed : Fed cs := (fed.tail (by decide)).tail other
    rw [List.cons_append, List.cons_append, stringBody, if_neg other,
      ih fed (Option.map_eq_none_iff.mp open_)]
    rfl
  | case6 => cases open_
  | case7 c cs feed alone escape other ih =>
    have plain : c ≠ '\\' := by
      rintro rfl
      cases cs with
      | nil => exact alone rfl rfl
      | cons d ds => exact escape d ds rfl rfl
    rw [List.cons_append, stringBody_plain feed plain, if_neg other,
      ih (fed.tail feed) (Option.map_eq_none_iff.mp open_)]
    rfl

theorem faultAt_down (file : s'.filename = s.filename) (place : Place) (message hint : String) :
    s'.faultAt (place.down n) message hint = (s.faultAt place message hint).down n := by
  simp [faultAt, Failure.down, Place.down, file]

theorem stranger_down (beside : Beside x n s s') (file : s'.filename = s.filename) (c : Char) :
    s'.stranger c = (s.stranger c).down n ∧ (s.stranger c).StandsOn s.place.line := by
  unfold stranger
  rw [beside.place]
  split <;> exact ⟨faultAt_down file .., rfl⟩

theorem Beside.word_error {c : Char} {cs : List Char} (beside : Beside x n s s')
    (file : s'.filename = s.filename) (here : s.rest = c :: cs) (fed : Fed s.rest)
    (failed : s.word c cs = .error failure) :
    s'.word c (cs ++ x) = .error (failure.down n) ∧ failure.StandsOn s.place.line := by
  unfold Scanner.word at failed ⊢
  split at failed
  · cases failed
  next filled =>
    rw [if_neg filled]
    split at failed
    · cases failed
    next plain =>
      rw [if_neg plain]
      split at failed
      · dsimp only at failed
        split at failed <;> cases failed
      next inner =>
        have behind : Fed cs := (here ▸ fed).tail inner
        have head : (cs ++ x).head? = cs.head? := by
          rw [List.head?_append, List.head?_eq_some_head behind.ne_nil]
          rfl
        rw [if_neg inner, head]
        split at failed
        · cases failed
        next =>
          split at failed
          · cases failed
          next =>
            split at failed
            next digit =>
              rw [if_pos digit]
              unfold Scanner.number at failed ⊢
              rw [beside.rest, numeral_fed x fed]
              split at failed
              next whole fraction _ =>
                dsimp only at failed ⊢
                split at failed
                next none =>
                  rw [if_pos none]
                  split at failed
                  next long =>
                    cases failed
                    exact ⟨if_pos long, trivial⟩
                  · cases failed
                · cases failed
            next other =>
              rw [if_neg other]
              split at failed
              next quote =>
                rw [if_pos quote]
                unfold Scanner.string at failed ⊢
                split at failed
                · cases failed
                next open_ =>
                  cases failed
                  rw [stringBody_unclosed x behind open_, beside.place]
                  exact ⟨congrArg Except.error (faultAt_down file ..), rfl⟩
              next other =>
                rw [if_neg other]
                split at failed
                · cases failed
                next start =>
                  cases failed
                  obtain ⟨same, stands⟩ := stranger_down beside file c
                  exact ⟨(if_neg start).trans (congrArg Except.error same), stands⟩

theorem Beside.layout_error {width : Nat} {place : Place} {rest : List Char}
    (beside : Beside x n s s') (file : s'.filename = s.filename) (ready : s.Ready)
    (skipped : skipLayout false 0 s.place s.rest = (width, place, rest))
    (failed : s.layout = .error failure) :
    s'.layout = .error (failure.down n) ∧ failure.StandsOn place.line ∧ rest ≠ [] := by
  have longer := skipLayout_append (x := x) (n := n) false 0 s.place s.rest
    (ready.imp_left fun none => ⟨none, rfl, rfl⟩) skipped
  unfold Scanner.layout at failed ⊢
  rw [skipped] at failed
  dsimp only at failed
  split at failed
  · cases failed
  next uneven =>
    have filled : rest ≠ [] := fun none => uneven (by rw [none]; rfl)
    have same : (rest ++ x).isEmpty = rest.isEmpty := by
      cases rest with
      | nil => exact absurd rfl filled
      | cons => rfl
    rw [beside.rest, beside.place, longer, if_neg filled, beside.blocks]
    dsimp only
    rw [same, if_neg uneven]
    split at failed
    · cases failed
    next shallow =>
      rw [if_neg shallow]
      split at failed
      · cases failed
      next unmatched =>
        cases failed
        exact ⟨(if_neg unmatched).trans (congrArg Except.error (faultAt_down file ..)), rfl, filled⟩

/-- Layout looks at a text only through what it passes over. -/
theorem layout_congr {place : Place} {rest : List Char}
    (same : skipLayout false 0 s.place s.rest = skipLayout false 0 place rest) :
    s.layout = { s with place, rest }.layout := by
  unfold Scanner.layout
  rw [same]

/-- Two scanners with the same text in front of them, up to its end. -/
theorem Beside.layout_whole (beside : Beside [] n s s') (ready : s.Ready)
    (start : s.atLineStart = true) (read : s.layout = .ok (tokens, next)) :
    Tracks [] n s'.layout tokens next := by
  by_cases filled : next.rest ≠ []
  · exact beside.layout ready start read filled
  have last : s'.last = s.last := beside.last.resolve_right fun ⟨within, _⟩ => by
    rw [start] at within
    cases within
  obtain ⟨width, place, rest, skipped, moves⟩ := layout_moves read
  cases moves with
  | opened some_ => exact absurd some_ filled
  | closed some_ => exact absurd some_ filled
  | level =>
    obtain rfl : rest = [] := Classical.not_not.mp filled
    have further := skipLayout_down (n := n) ready skipped
    rw [← beside.place, ← List.append_nil s.rest, ← beside.rest] at further
    exact ⟨_, layout_level further (.inl rfl), rfl, rfl, beside.blocks, rfl, .inl last⟩

/-! A scanner and one that has a blank line more in front of it. -/

theorem skipLayout_comment (place : Place) {text : List Char} (inside : '\n' ∉ text) :
    skipLayout true 0 place (text ++ '\n' :: x) = skipLayout false 0 ⟨place.line + 1, 1⟩ x := by
  induction text generalizing place with
  | nil => rfl
  | cons c text ih =>
    obtain ⟨other, inside⟩ := not_or.mp (mt List.mem_cons.mpr inside)
    rw [List.cons_append, skipLayout, if_neg (Ne.symm other), if_pos rfl, ih _ inside]
    simp [Place.after, Ne.symm other]

/-- Layout starts again behind a blank line. -/
theorem skipLayout_blank {line : List Char} (blank : Text.IsBlankLine line) (place : Place) :
    skipLayout false 0 place (line ++ x) = skipLayout false 0 ⟨place.line + 1, 1⟩ x := by
  obtain ⟨blanks, comment, rfl, gaps, commented⟩ := blank
  rw [List.append_assoc, List.append_assoc, List.singleton_append]
  suffices ∀ width, skipLayout false width place (blanks ++ (comment ++ '\n' :: x)) =
    skipLayout false 0 ⟨place.line + 1, 1⟩ x from this 0
  induction blanks generalizing place with
  | nil =>
    intro width
    rcases commented with rfl | ⟨text, rfl, inside, -⟩
    · rfl
    · exact skipLayout_comment _ inside
  | cons c blanks ih =>
    intro width
    have ih := ih (place.after c) fun d member => gaps d (List.mem_cons_of_mem c member)
    rcases gaps c List.mem_cons_self with rfl | rfl <;> exact ih _

/-- The line lies ahead of both, behind the text in front of the scanner `front`, and `x` is behind it;
or both have passed it. -/
inductive Gapped (line : List Char) (k : Nat) (s s' : Scanner) : Prop where
  | ahead {front : Scanner} {x : List Char} : Beside x 0 front s → Beside (line ++ x) 0 front s' →
      front.Ready → front.Unfinished → front.place.afterAll front.rest = ⟨k + 1, 1⟩ →
      (x = [] ∨ Fed x) → s.filename = front.filename → s'.filename = front.filename →
      Gapped line k s s'
  | passed : Beside [] 1 s s' → s.Ready → s'.filename = s.filename → k < s.place.line →
      Gapped line k s s'

/-- What one move of the two scanners has in common. -/
inductive Alike (line : List Char) (k : Nat) : Except Failure (List Token × Option Scanner) →
    Except Failure (List Token × Option Scanner) → Prop where
  | failed (failure : Failure) : Alike line k (.error failure) (.error (failure.lowered k))
  | further {tokens : List Token} {next next' : Scanner} : Gapped line k next next' →
      Alike line k (.ok (tokens, some next)) (.ok (tokens.map (Token.lowered k), some next'))
  | ended (tokens : List Token) :
      Alike line k (.ok (tokens, none)) (.ok (tokens.map (Token.lowered k), none))

/-- The move that a reading is. -/
def move (read : Except Failure (List Token × Scanner)) :
    Except Failure (List Token × Option Scanner) :=
  read.map fun (tokens, s) => (tokens, some s)

variable {line : List Char}

/-- In front of the seam everything stands above it. -/
theorem line_above {place : Place} {rest : List Char} (seam : place.afterAll rest = ⟨k + 1, 1⟩)
    (fed : Fed rest) : place.line ≤ k := by
  have lines := Place.line_afterAll place rest
  have some_ : 0 < rest.count '\n' := List.count_pos_iff.mpr (List.mem_of_getLast? fed)
  rw [seam] at lines
  dsimp only at lines
  omega

theorem Alike.above {l : Nat} (stand : ∀ t ∈ tokens, t.line = some (l : Int)) (above : l ≤ k)
    (gapped : Gapped line k next s') :
    Alike line k (.ok (tokens, some next)) (.ok (tokens, some s')) := by
  have further := @Alike.further line k tokens _ _ gapped
  rwa [Token.map_lowered_above stand above] at further

theorem Alike.failed_above {l : Nat} (stands : failure.StandsOn l) (above : l ≤ k) :
    Alike line k (.error failure) (.error failure) := by
  have failed := @Alike.failed line k failure
  rwa [stands.lowered_above above] at failed

theorem filename_word {c : Char} {cs : List Char} (here : s.rest = c :: cs)
    (read : s.word c cs = .ok (tokens, next)) : next.filename = s.filename := by
  cases word_moves here read <;> rfl

theorem filename_layout (read : s.layout = .ok (tokens, next)) : next.filename = s.filename := by
  obtain ⟨_, _, _, -, moves⟩ := layout_moves read
  cases moves <;> rfl

/-- What a reading passes over, and where it leads. -/
theorem passed_word {c : Char} {cs : List Char} (within : s.atLineStart = false)
    (here : s.rest = c :: cs) (read : s.word c cs = .ok (tokens, next)) :
    ∃ before, s.rest = before ++ next.rest ∧ next.place = s.place.afterAll before :=
  (Moves.word within here (word_moves here read)).passed

/-! Behind the line the two scanners have the same text in front of them. -/

theorem Alike.word_passed {c : Char} {cs : List Char} (beside : Beside [] 1 s s') (ready : s.Ready)
    (file : s'.filename = s.filename) (below : k < s.place.line) (within : s.atLineStart = false)
    (here : s.rest = c :: cs) : Alike line k (move (s.word c cs)) (move (s'.word c cs)) := by
  have fed : Fed s.rest := ready.resolve_left (by rw [here]; exact List.cons_ne_nil c cs)
  have here' : s'.rest = c :: cs := by rw [beside.rest, here, List.append_nil]
  rcases read : s.word c cs with failure | ⟨tokens, next⟩
  · obtain ⟨read', stands⟩ := beside.word_error file here fed read
    rw [List.append_nil] at read'
    rw [read', ← stands.lowered_behind below]
    exact .failed failure
  · obtain ⟨next', read', beside'⟩ := beside.word here fed read
    obtain ⟨before, -, there⟩ := passed_word within here read
    rw [List.append_nil] at read'
    rw [read', ← Token.map_lowered_behind (line_word here read) below]
    refine .further (.passed beside' (ready.word here (word_moves here read)).1 ?_ ?_)
    · rw [filename_word here read, filename_word here' read', file]
    · rw [there, Place.line_afterAll]
      omega

theorem Alike.layout_passed (beside : Beside [] 1 s s') (ready : s.Ready)
    (file : s'.filename = s.filename) (below : k < s.place.line) (start : s.atLineStart = true) :
    Alike line k (move s.layout) (move s'.layout) := by
  rcases skipped : skipLayout false 0 s.place s.rest with ⟨width, place, rest⟩
  obtain ⟨before, -, there, -⟩ := skipLayout_visible false 0 s.place s.rest
  rw [skipped] at there
  have below : k < place.line := by
    change place = _ at there
    rw [there, Place.line_afterAll]
    omega
  rcases read : s.layout with failure | ⟨tokens, next⟩
  · obtain ⟨read', stands, -⟩ := beside.layout_error file ready skipped read
    rw [read', ← stands.lowered_behind below]
    exact .failed failure
  · obtain ⟨next', read', beside'⟩ := beside.layout_whole ready start read
    obtain ⟨_, _, _, skipped', moves⟩ := layout_moves read
    cases skipped.symm.trans skipped'
    have on : next.rest = rest ∧ next.place = place := by cases moves <;> exact ⟨rfl, rfl⟩
    rw [read', ← Token.map_lowered_behind moves.line below]
    refine .further (.passed beside' ?_ ?_ ?_)
    · rw [Ready, on.1]
      exact ready.layout skipped
    · rw [filename_layout read, filename_layout read', file]
    · rwa [on.2]

/-! In front of the line both are beside the scanner of the text there. -/

section Ahead

variable {front : Scanner} (beside : Beside x 0 front s) (beside' : Beside (line ++ x) 0 front s')
  (ready : front.Ready) (seam : front.place.afterAll front.rest = ⟨k + 1, 1⟩) (whole : x = [] ∨ Fed x)
  (file : s.filename = front.filename) (file' : s'.filename = front.filename)
include beside beside' ready seam whole file file'

theorem Alike.word_ahead {c : Char} {cs : List Char} (within : front.atLineStart = false)
    (here : front.rest = c :: cs) :
    Alike line k (move (s.word c (cs ++ x))) (move (s'.word c (cs ++ (line ++ x)))) := by
  have fed : Fed front.rest := ready.resolve_left (by rw [here]; exact List.cons_ne_nil c cs)
  have above := line_above seam fed
  have here₁ : s.rest = c :: (cs ++ x) := by rw [beside.rest, here]; rfl
  have here₂ : s'.rest = c :: (cs ++ (line ++ x)) := by rw [beside'.rest, here]; rfl
  rcases read : front.word c cs with failure | ⟨tokens, next⟩
  · obtain ⟨read₁, stands⟩ := beside.word_error file here fed read
    obtain ⟨read₂, -⟩ := beside'.word_error file' here fed read
    rw [read₁, read₂, Failure.down_zero]
    exact .failed_above stands above
  · obtain ⟨next₁, read₁, beside₁⟩ := beside.word here fed read
    obtain ⟨next₂, read₂, beside₂⟩ := beside'.word here fed read
    obtain ⟨before, split, there⟩ := passed_word within here read
    obtain ⟨ready', unfinished⟩ := ready.word here (word_moves here read)
    rw [List.map_id'' Token.down_zero] at read₁ read₂
    rw [read₁, read₂]
    refine .above (line_word here read) above (.ahead beside₁ beside₂ ready' unfinished ?_ whole ?_ ?_)
    · rw [there, ← Place.afterAll_append, ← split, seam]
    · rw [filename_word here₁ read₁, filename_word here read, file]
    · rw [filename_word here₂ read₂, filename_word here read, file']

theorem Alike.layout_ahead (blank : Text.IsBlankLine line) (start : front.atLineStart = true) :
    Alike line k (move s.layout) (move s'.layout) := by
  rcases skipped : skipLayout false 0 front.place front.rest with ⟨width, place, rest⟩
  obtain ⟨before, split, there, -⟩ := skipLayout_visible false 0 front.place front.rest
  rw [skipped] at split there
  have seam : place.afterAll rest = ⟨k + 1, 1⟩ := by
    change place = _ at there
    rw [there, ← Place.afterAll_append, ← split, seam]
  by_cases done : rest = []
  · subst done
    obtain rfl : place = ⟨k + 1, 1⟩ := seam
    have further (z : List Char) := skipLayout_append (x := z) (n := 0) false 0 front.place front.rest
      (ready.imp_left fun none => ⟨none, rfl, rfl⟩) skipped
    have last : s'.last = s.last := by
      have plain {y : List Char} {t : Scanner} (beside : Beside y 0 front t) : t.last = front.last :=
        beside.last.resolve_right fun ⟨within, _⟩ => by
          rw [start] at within
          cases within
      rw [plain beside, plain beside']
    rw [@layout_congr s ⟨k + 1, 1⟩ x ?_, @layout_congr s' ⟨k + 2, 1⟩ x ?_]
    · refine Alike.layout_passed ⟨(List.append_nil x).symm, rfl, ?_, ?_, .inl last⟩ whole ?_
        (Nat.lt_succ_self k) (beside.atLineStart.trans start)
      · rw [beside'.blocks, beside.blocks]
      · rw [beside'.atLineStart, beside.atLineStart]
      · exact file'.trans file.symm
    · rw [beside'.place, beside'.rest, further, if_pos rfl]
      exact skipLayout_blank blank _
    · rw [beside.place, beside.rest, further, if_pos rfl]
      rfl
  have above := line_above seam ((ready.layout skipped).resolve_left done)
  rcases read : front.layout with failure | ⟨tokens, next⟩
  · obtain ⟨read₁, stands, -⟩ := beside.layout_error file ready skipped read
    obtain ⟨read₂, -⟩ := beside'.layout_error file' ready skipped read
    rw [read₁, read₂, Failure.down_zero]
    exact .failed_above stands above
  · obtain ⟨_, _, _, skipped', moves⟩ := layout_moves read
    cases skipped.symm.trans skipped'
    have on : next.rest = rest ∧ next.place = place := by cases moves <;> exact ⟨rfl, rfl⟩
    have filled : next.rest ≠ [] := on.1 ▸ done
    obtain ⟨next₁, read₁, beside₁⟩ := beside.layout ready start read filled
    obtain ⟨next₂, read₂, beside₂⟩ := beside'.layout ready start read filled
    rw [List.map_id'' Token.down_zero] at read₁ read₂
    rw [read₁, read₂]
    refine .above moves.line above (.ahead beside₁ beside₂ ?_ (.inr filled) ?_ whole ?_ ?_)
    · rw [Ready, on.1]
      exact ready.layout skipped
    · rw [on.1, on.2, seam]
    · rw [filename_layout read₁, filename_layout read, file]
    · rw [filename_layout read₂, filename_layout read, file']

end Ahead

/-- One move of the two scanners. -/
theorem Gapped.advance (gapped : Gapped line k s s') (blank : Text.IsBlankLine line) :
    Alike line k s.advance s'.advance := by
  cases gapped with
  | @ahead front x beside beside' ready unfinished seam whole file file' =>
    unfold Scanner.advance
    rw [beside.atLineStart, beside'.atLineStart]
    by_cases start : front.atLineStart = true
    · rw [if_pos start, if_pos start]
      exact Alike.layout_ahead beside beside' ready seam whole file file' blank start
    · obtain ⟨c, cs, here⟩ := List.exists_cons_of_ne_nil (unfinished.resolve_left start)
      rw [if_neg start, if_neg start, beside.rest, beside'.rest, here]
      exact Alike.word_ahead beside beside' ready seam whole file file' (by simpa using start) here
  | passed beside ready file below =>
    unfold Scanner.advance
    rw [beside.atLineStart, beside.rest, List.append_nil]
    by_cases start : s.atLineStart = true
    · rw [if_pos start, if_pos start]
      exact Alike.layout_passed beside ready file below start
    · rw [if_neg start, if_neg start]
      cases here : s.rest with
      | nil =>
        dsimp only
        rw [finish_down beside.place beside.blocks, ← Token.map_lowered_behind s.line_finish below]
        exact .ended _
      | cons => exact Alike.word_passed beside ready file below (by simpa using start) here

/-- The two scanners read the same, but for the lines. -/
theorem Gapped.run (blank : Text.IsBlankLine line) {fuel fuel' : Nat} {found : List Token}
    (gapped : Gapped line k s s') (enough : s.weight < fuel) (enough' : s'.weight < fuel') :
    run fuel' s' (found.map (Token.lowered k)) =
      ((run fuel s found).1.map (Token.lowered k), (run fuel s found).2.map (Failure.lowered k)) := by
  induction fuel generalizing s s' fuel' found with
  | zero => exact absurd enough (Nat.not_lt_zero _)
  | succ fuel ih =>
    obtain ⟨fuel', rfl⟩ := Nat.exists_eq_add_one_of_ne_zero (Nat.ne_of_gt (Nat.zero_lt_of_lt enough'))
    have alike := gapped.advance blank
    unfold Scanner.run
    generalize move : s.advance = this, move' : s'.advance = this' at alike
    cases alike with
    | failed failure => simp
    | ended tokens => simp
    | @further tokens next next' gapped =>
      have less := advance_lighter move
      have less' := advance_lighter move'
      dsimp only
      rw [← List.map_reverse, ← List.map_append]
      exact ih gapped (by omega) (by omega)

end Scanner

namespace Token

/-- A blank line that is put between two lines of a text, before its first or behind its last one,
changes nothing but the lines of what follows it, structural marks and failures included. -/
theorem tokenize_insert {before line after filename : String} (free : '\r' ∉ before.toList)
    (whole : before = "" ∨ Scanner.Fed before.toList) (filled : before ++ after ≠ "")
    (blank : Text.IsBlankLine line.toList) :
    tokenize (before ++ line ++ after) filename =
      match tokenize (before ++ after) filename with
      | .ok tokens => .ok (tokens.map (lowered (before.toList.count '\n')))
      | .error failure => .error (failure.lowered (before.toList.count '\n')) := by
  have seam : Place.afterAll ⟨1, 1⟩ before.toList = ⟨before.toList.count '\n' + 1, 1⟩ := by
    rcases whole with rfl | fed
    · rfl
    · rw [Scanner.afterAll_fed fed, Nat.add_comm]
  have ready : before.toList = [] ∨ Scanner.Fed before.toList :=
    whole.imp_left fun none => by rw [none]; rfl
  obtain ⟨x, rest, rest', whole⟩ : ∃ x, Text.normalized (before ++ after) = before.toList ++ x ∧
      Text.normalized (before ++ line ++ after) = before.toList ++ (line.toList ++ x) ∧
      (x = [] ∨ Scanner.Fed x) := by
    by_cases none : after = ""
    · subst none
      have fed : Scanner.Fed before.toList :=
        whole.resolve_left fun none => filled (by rw [none]; rfl)
      refine ⟨[], ?_, ?_, .inl rfl⟩ <;> rw [String.append_empty, List.append_nil]
      · exact Text.normalized_fed free fed
      · exact Text.normalized_line free blank
    · refine ⟨Text.normalized after, Text.normalized_append free none, ?_,
        .inr (Scanner.fed_normalized after)⟩
      rw [Text.normalized_append ?_ none, String.toList_append, List.append_assoc]
      rw [String.toList_append, List.mem_append]
      exact not_or.mpr ⟨free, blank.free⟩
  have gapped : Scanner.Gapped line.toList (before.toList.count '\n')
      (Scanner.start (before ++ after) filename) (Scanner.start (before ++ line ++ after) filename) :=
    @Scanner.Gapped.ahead _ _ _ _ { Scanner.start before filename with rest := before.toList } x
      ⟨rest, rfl, rfl, rfl, .inl rfl⟩ ⟨rest', rfl, rfl, rfl, .inl rfl⟩ ready (.inl rfl) seam whole
      rfl rfl
  have ran := @Scanner.Gapped.run _ _ _ _ blank _ _ [] gapped (Scanner.weight_lt_moves _)
    (Scanner.weight_lt_moves _)
  unfold tokenize scan
  dsimp only
  rw [List.map_nil] at ran
  rw [ran]
  rcases Scanner.run _ _ _ with ⟨tokens, none | failure⟩ <;> rfl

/-- A comment in front of a line that closes two blocks: their marks stand below the comment. -/
theorem tokenize_insert_dedent : ∃ tokens,
    ('\r' ∉ "if x:\n    if y:\n\t\tz\n".toList ∧ Scanner.Fed "if x:\n    if y:\n\t\tz\n".toList ∧
      Text.IsBlankLine "  \t# a\n".toList) ∧
    tokenize ("if x:\n    if y:\n\t\tz\n" ++ "w") "<stdin>" = .ok tokens ∧
    (tokens.drop 11).map (fun t => (t.kind, t.line)) =
      [(.newline, some 3), (.dedent, some 4), (.dedent, some 4), (.identifier, some 4),
        (.newline, some 4), (.eof, some 5)] ∧
    tokenize ("if x:\n    if y:\n\t\tz\n" ++ "  \t# a\n" ++ "w") "<stdin>" =
      .ok (tokens.map (lowered 3)) := by
  have free : '\r' ∉ "if x:\n    if y:\n\t\tz\n".toList := by decide
  have fed : Scanner.Fed "if x:\n    if y:\n\t\tz\n".toList := rfl
  have blank : Text.IsBlankLine "  \t# a\n".toList :=
    ⟨[' ', ' ', '\t'], ['#', ' ', 'a'], rfl, by simp, .inr ⟨[' ', 'a'], rfl, by decide, by decide⟩⟩
  have inserted := @tokenize_insert _ _ "w" "<stdin>" free (.inr fed) (by decide) blank
  have checked : (tokenize ("if x:\n    if y:\n\t\tz\n" ++ "w") "<stdin>").toOption.any
      (fun tokens => (tokens.drop 11).map (fun t => (t.kind, t.line)) =
        [(.newline, some 3), (.dedent, some 4), (.dedent, some 4), (.identifier, some 4),
          (.newline, some 4), (.eof, some 5)]) = true := by
    rw [tokenize_eq_ofChars (append_eq_ofList rfl rfl)]
    decide +kernel
  obtain ⟨tokens, read, checked⟩ := exists_ok checked
  rw [read] at inserted
  exact ⟨tokens, ⟨free, fed, blank⟩, read, of_decide_eq_true checked, inserted⟩

end Token

end Stepwise
