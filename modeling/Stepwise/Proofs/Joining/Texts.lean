import Stepwise.Proofs.Joining.Scans

/-!
Scanning two texts, one behind the other. The tokens are those of the first text without its end and
those of the second one further down; in between, the blocks that the first text left open are closed
(`tokenize_append`).
-/
namespace Stepwise

/-- A text in its form that ends with a line feed is scanned as it is. -/
theorem Text.normalized_fed {source : String} (free : '\r' ∉ source.toList)
    (fed : Scanner.Fed source.toList) : Text.normalized source = source.toList :=
  (Text.normalized_of_free free).trans (if_pos fed)

theorem Token.tokenize_of_normalized {text other filename : String}
    (same : Text.normalized text = Text.normalized other) :
    Token.tokenize text filename = Token.tokenize other filename := by
  unfold Token.tokenize Token.scan Scanner.start
  rw [same]

theorem Text.normalized_append {source text : String} (free : '\r' ∉ source.toList)
    (filled : text ≠ "") : Text.normalized (source ++ text) = source.toList ++ Text.normalized text := by
  have some_ : Text.normalizeBreaks text.toList ≠ [] := by
    have some_ : text.toList ≠ [] := fun none => filled (String.toList_eq_nil_iff.mp none)
    revert some_
    fun_cases Text.normalizeBreaks text.toList <;> simp_all
  unfold Text.normalized
  rw [String.toList_append, Text.normalizeBreaks_append free]
  dsimp only
  rw [List.getLast?_append, List.getLast?_eq_some_getLast some_, Option.some_or]
  split
  · rfl
  · exact List.append_assoc _ _ _

namespace Scanner

open Token (Kind)

variable {n : Nat} {s s' : Scanner} {tokens : List Token}

/-- A text that does not start in a block is scanned behind another one as it is by itself, once the
open blocks are closed. -/
theorem goes_behind {m : Scanner} {us : List Token} {width : Nat} {place : Place} {rest : List Char}
    (start : s.atLineStart = true) (outside : s.blocks = []) (ready : s.Ready)
    (skipped : skipLayout false 0 s.place s.rest = (width, place, rest))
    (start' : s'.atLineStart = true) (deep : ∀ w ∈ s'.blocks, 0 < w)
    (skipped' : skipLayout false 0 s'.place s'.rest = (width, place.down n, rest))
    (goes : s.Goes tokens m) (last : m.advance = .ok (us, none))
    (flush : ∀ t ∈ (tokens ++ us).head?, t.kind ≠ .indent) :
    ∃ ts' m' us', s'.Goes ts' m' ∧ m'.advance = .ok (us', none) ∧
      ts' ++ us' = List.replicate s'.blocks.length (tokenAt (place.down n) .dedent .null) ++
        (tokens ++ us).map (Token.down n) := by
  cases goes with
  | refl =>
    cases advance_moves last with
    | ended within => rw [start] at within; cases within
  | @step _ next _ ts ts' move _ further =>
    by_cases done : rest = []
    · subst done
      have move' := advance_of_layout start (layout_level skipped (.inl rfl))
      cases move.symm.trans move'
      have ended := advance_of_ended (s := { s with rest := [], place, atLineStart := false }) rfl rfl
      cases further with
      | step move => cases ended.symm.trans move
      | refl =>
        cases ended.symm.trans last
        have closes := advance_of_layout start' (layout_level skipped' (.inl rfl))
        refine ⟨[], _, _, .one closes (advance_lighter closes), advance_of_ended rfl rfl, ?_⟩
        simp only [finish, outside, List.append_nil, List.nil_append]
        rw [List.map_append, List.map_singleton, ← tokenAt_down]
        rfl
    · by_cases indented : width = 0
      · subst indented
        have move' := advance_of_layout start (layout_level skipped (.inr (by rw [outside]; rfl)))
        cases move.symm.trans move'
        obtain ⟨last', closed⟩ := layout_flush skipped' done rfl deep
        have closes := advance_of_layout start' closed
        obtain ⟨-, -, -, visible⟩ := skipLayout_visible false 0 s.place s.rest
        rw [skipped] at visible
        obtain ⟨c, cs, here⟩ := List.exists_cons_of_ne_nil done
        have beside : Beside [] n { s with rest, place, atLineStart := false }
            { s' with rest, place := place.down n, atLineStart := false, blocks := [], last := last' } :=
          ⟨(List.append_nil rest).symm, rfl, outside.symm, rfl,
            .inr ⟨rfl, c, cs, here, visible c cs here⟩⟩
        obtain ⟨l, l', -, behind, beside, bottom⟩ :=
          beside.goes further last (ready.layout skipped) (.inr done)
        obtain ⟨m', ends, last''⟩ := (beside.bottom bottom).closes
        exact ⟨_, m', _, .step closes (advance_lighter closes) (behind.trans ends), last'', by simp⟩
      · obtain ⟨_, deeper⟩ := layout_deeper skipped done (by rw [outside]; exact Nat.pos_of_ne_zero indented)
        cases move.symm.trans (advance_of_layout start deeper)
        exact absurd rfl (flush _ rfl)

/-- Behind whole lines the next one starts, as many lines further down. -/
theorem afterAll_fed {cs : List Char} (fed : Fed cs) (place : Place) :
    place.afterAll cs = ⟨place.line + cs.count '\n', 1⟩ := by
  obtain ⟨before, rfl⟩ := List.getLast?_eq_some_iff.mp fed
  rw [Place.afterAll_append, List.count_append, ← Nat.add_assoc, ← Place.line_afterAll]
  rfl

end Scanner

namespace Token

open Token.Kind (IsLine NeverOverdrawn)

/-- Lines of tokens, the marks that close the blocks left open, and the mark of the end. -/
structure Arranged (ts closing : List Token) (mark : Token) : Prop where
  lines : ∃ lines : List (List Kind), (∀ line ∈ lines, IsLine line) ∧ ts.map kind = lines.flatten
  closes : ∀ t ∈ closing, t.kind = .dedent
  never : NeverOverdrawn (ts.map kind)
  balance : (ts.map kind).count .dedent + closing.length = (ts.map kind).count .indent
  mark : mark.kind = .eof

theorem arranged_of_goes {source filename : String} {m : Scanner} {ts us : List Token}
    (goes : (Scanner.start source filename).Goes ts m) (last : m.advance = .ok (us, none)) :
    Arranged ts (List.replicate m.blocks.length (Scanner.tokenAt m.place .dedent .null))
      (Scanner.tokenAt m.place .eof .null) ∧ us = m.finish := by
  obtain ⟨phase, upheld⟩ := Scanner.phase_upheld_of_goes goes (Scanner.phase_start source filename)
    (Scanner.upheld_start source filename)
  rw [List.nil_append] at phase upheld
  obtain ⟨lines, each, same, -, -⟩ := phase.ends upheld last
  refine ⟨⟨⟨lines, each, same⟩, ?_, upheld.never, ?_, rfl⟩, ?_⟩
  · intro t member
    rw [List.eq_of_mem_replicate member]
    rfl
  · rw [List.length_replicate]
    exact upheld.balance
  · cases Scanner.advance_moves last
    rfl

/-- The tokens of two texts, the first of which ends with a line feed, are those of the first one
without its end and those of the second one further down. What differs is where the blocks that the
first text left open are closed. -/
theorem tokenize_append {source text filename : String} {us : List Token}
    (free : '\r' ∉ source.toList) (fed : Scanner.Fed source.toList) (filled : text ≠ "")
    {tokens : List Token} (first : tokenize source filename = .ok tokens)
    (second : tokenize text filename = .ok us) (flush : ∀ t ∈ us.head?, t.kind ≠ .indent) :
    ∃ ts closing mark closing', tokens = ts ++ closing ++ [mark] ∧ Arranged ts closing mark ∧
      closing'.length = closing.length ∧ (∀ t ∈ closing', t.kind = .dedent) ∧
      tokenize (source ++ text) filename =
        .ok (ts ++ closing' ++ us.map (down (source.toList.count '\n'))) := by
  obtain ⟨ts, m, _, goes, last, rfl⟩ := goes_of_tokenize first
  obtain ⟨arranged, rfl⟩ := arranged_of_goes goes last
  obtain ⟨ts₂, m₂, us₂, goes₂, last₂, rfl⟩ := goes_of_tokenize second
  have own := Text.normalized_fed free fed
  have both := Text.normalized_append free filled
  rw [← own] at both
  have beside : Scanner.Beside (Text.normalized text) 0 (Scanner.start source filename)
      (Scanner.start (source ++ text) filename) := ⟨both, rfl, rfl, rfl, .inl rfl⟩
  obtain ⟨l, l', go, go', beside, start, ready, width, place, skipped, same⟩ :=
    beside.goes goes last (.inr (Scanner.fed_normalized source)) (.inl rfl)
  have blocks : m.blocks.length = l.blocks.length := by
    have length := congrArg List.length same
    simpa [Scanner.finish] using length
  have there : place = Place.down (source.toList.count '\n') ⟨1, 1⟩ := by
    obtain ⟨before, split, there⟩ := go.passed
    obtain ⟨behind, all, there', -⟩ := Scanner.skipLayout_visible false 0 l.place l.rest
    rw [skipped, List.append_nil] at all
    rw [skipped] at there'
    have split : source.toList = before ++ behind := own.symm.trans (by rw [← all]; exact split)
    refine there'.trans ?_
    rw [there, ← Place.afterAll_append, ← split, Scanner.afterAll_fed fed]
    rfl
  have deep : ∀ w ∈ l'.blocks, 0 < w := by
    have increasing := (Scanner.phase_upheld_of_goes go (Scanner.phase_start source filename)
      (Scanner.upheld_start source filename)).2.increasing
    intro w member
    rw [beside.blocks] at member
    exact List.rel_of_pairwise_cons increasing (List.mem_reverse.mpr member)
  rcases skipped₂ : Scanner.skipLayout false 0 ⟨1, 1⟩ (Text.normalized text) with ⟨width₂, place₂, rest⟩
  have seam := Scanner.skipLayout_append (x := Text.normalized text) (n := 0) false 0 l.place l.rest
    (ready.imp_left fun none => ⟨none, rfl, rfl⟩) skipped
  have down := @Scanner.skipLayout_down (source.toList.count '\n') _ _ _ _ _
    (.inr (Scanner.fed_normalized text)) skipped₂
  rw [if_pos rfl, ← beside.place, ← beside.rest, there] at seam
  obtain ⟨ts', m', us', goes', last', whole⟩ := Scanner.goes_behind rfl rfl
    (.inr (Scanner.fed_normalized text)) skipped₂ (beside.atLineStart.trans start) deep
    (seam.trans down) goes₂ last₂ flush
  have read := tokenize_of_goes (go'.trans goes') last'
  rw [List.append_assoc, whole, ← List.append_assoc, List.map_id'' Token.down_zero] at read
  refine ⟨ts, _, _, _, (List.append_assoc _ _ _).symm, arranged, ?_, ?_, read⟩
  · rw [List.length_replicate, List.length_replicate, blocks, beside.blocks]
  · intro t member
    rw [List.eq_of_mem_replicate member]
    rfl

end Token

end Stepwise
