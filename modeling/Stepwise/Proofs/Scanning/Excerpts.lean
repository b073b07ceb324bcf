import Mathlib.Data.List.TakeWhile
import Stepwise.Proofs.Scanning.Coverage
import Stepwise.Proofs.Scanning.Layout

/-!
Where a scan stops, and what the report shows of it. A fault stands at the character at which no token is
written, or at the first one of a line that is indented as no open block is (`stops_of_fault`). The report
shows the line as the scanner counts it, with a caret under that character, as long as no carriage return
stands alone and the number of the line has four digits at most (`tokenize_excerpt`).
-/
namespace Stepwise

/-! Lines of a text. -/

namespace Text

theorem takeWhile_stops {α : Type} {p : α → Bool} {a : α} (stops : p a = false) (xs ys : List α) :
    (xs ++ a :: ys).takeWhile p = xs.takeWhile p := by
  induction xs with
  | nil => simp [stops]
  | cons x xs ih => simp [List.takeWhile_cons, ih]

theorem splitAtChar_head (piece ahead : List Char) :
    (splitAtChar '\n' piece ahead)[0]? = some (piece.reverse ++ ahead.takeWhile (· ≠ '\n')) := by
  induction ahead generalizing piece with
  | nil => simp [splitAtChar]
  | cons c cs ih =>
    by_cases feed : c = '\n'
    · simp [splitAtChar, feed]
    · simp [splitAtChar, feed, ih]

/-- The line that goes on behind a part of a text, by its number. -/
theorem splitAtChar_line (before ahead : List Char) :
    (splitAtChar '\n' [] (before ++ ahead))[before.count '\n']? =
      some ((before.reverse.takeWhile (· ≠ '\n')).reverse ++ ahead.takeWhile (· ≠ '\n')) := by
  suffices general : ∀ piece, '\n' ∉ piece →
      (splitAtChar '\n' piece (before ++ ahead))[before.count '\n']? =
        some (((before.reverse ++ piece).takeWhile (· ≠ '\n')).reverse ++
          ahead.takeWhile (· ≠ '\n')) by
    simpa using general [] List.not_mem_nil
  induction before with
  | nil =>
    intro piece clean
    have whole : piece.takeWhile (· ≠ '\n') = piece := by
      rw [List.takeWhile_eq_self_iff]
      rintro c member
      simp only [decide_eq_true_eq]
      rintro rfl
      exact clean member
    rw [List.reverse_nil, List.nil_append, List.nil_append, whole]
    exact splitAtChar_head piece ahead
  | cons c cs ih =>
    intro piece clean
    by_cases feed : c = '\n'
    · subst feed
      have fresh := ih [] List.not_mem_nil
      rw [List.append_nil] at fresh
      rw [List.cons_append, splitAtChar, if_pos rfl, List.count_cons_self, List.getElem?_cons_succ, fresh,
        List.reverse_cons, List.append_assoc, List.singleton_append, takeWhile_stops (by simp)]
    · have longer := ih (c :: piece) (by simp [clean, Ne.symm feed])
      rw [List.cons_append, splitAtChar, if_neg feed, List.count_cons_of_ne feed, longer,
        List.reverse_cons, List.append_assoc, List.singleton_append]

theorem splitAtChar_concat (sep : Char) (piece cs : List Char) :
    splitAtChar sep piece (cs ++ [sep]) = splitAtChar sep piece cs ++ [[]] := by
  induction cs generalizing piece with
  | nil => simp [splitAtChar]
  | cons c cs ih =>
    by_cases same : c = sep
    · simp [splitAtChar, same, ih]
    · simp [splitAtChar, same, ih]

/-- A text in which every carriage return stands in front of a line feed. -/
def Paired (cs : List Char) : Prop :=
  ∀ before behind, cs = before ++ '\r' :: behind → behind.head? = some '\n'

theorem Paired.tail {c : Char} {cs : List Char} (paired : Paired (c :: cs)) : Paired cs :=
  fun before behind split => paired (c :: before) behind (congrArg (c :: ·) split)

/-- On such a text both ways of bringing the line ends to one form agree. -/
theorem dropPairedReturns_eq {cs : List Char} (paired : Paired cs) :
    dropPairedReturns cs = normalizeBreaks cs := by
  fun_induction dropPairedReturns cs with
  | case1 => rfl
  | case2 cs ih => rw [normalizeBreaks, ih paired.tail.tail]
  | case3 c cs notPair ih =>
    have notReturn : c ≠ '\r' := by
      rintro rfl
      have next := paired [] cs rfl
      cases cs with
      | nil => cases next
      | cons d ds =>
        cases next
        exact notPair ds rfl rfl
    rw [normalizeBreaks, ih paired.tail]
    · exact notPair
    · exact notReturn

end Text

/-- The line and the column of a fault are those of a place. -/
def Fault.StandsAt (f : Fault) (place : Place) : Prop :=
  f.line = some (place.line : Int) ∧ f.column = some (place.column : Int)

namespace Scanner

open Token (Spells)

/-- No token is written at the start of a text. -/
def Unspelled (cs : List Char) : Prop := ∀ kind literal word, Spells kind literal word → ¬ word <+: cs

/-- What is wrong with a scanner: where the text goes on with the character `c`, behind what the move has
passed already. -/
inductive Trouble (s : Scanner) : List Char → Char → List Char → Prop where
  | unspelled {c : Char} {cs : List Char} : s.atLineStart = false → s.rest = c :: cs → Visible c →
      Unspelled (c :: cs) → Trouble s [] c cs
  /-- The code of a line starts here, and the line is indented as no open block is. -/
  | uneven {width : Nat} {place : Place} {passed cs : List Char} {c : Char} : s.atLineStart = true →
      s.rest = passed ++ c :: cs → skipLayout false 0 s.place s.rest = (width, place, c :: cs) →
      Visible c → width ∉ s.indentations → Trouble s passed c cs

variable {s : Scanner} {c : Char} {cs : List Char} {f : Fault} {place : Place}

theorem faultAt_of_eq {message suggestion : String}
    (same : s.faultAt place message suggestion = .fault f) : f.StandsAt place := by
  cases same
  exact ⟨rfl, rfl⟩

/-- A character at which none of the ways to read a token leads on. -/
theorem unspelled_of_stuck (noOperator : (cs.head?.bind fun d => Token.twoCharOperators.lookup (c, d)) = none)
    (noSign : Token.oneCharSigns.lookup c = none) (noDigit : ¬ c.isDigit = true)
    (noName : ¬ Token.isNameStart c = true)
    (noString : c = '"' ∨ c = '\'' → stringBody c cs = none) : Unspelled (c :: cs) := by
  rintro kind literal word spells ⟨behind, split⟩
  cases spells with
  | word starts =>
    cases split
    exact noName starts
  | sign found =>
    cases split
    cases noSign.symm.trans found
  | operator found =>
    cases split
    cases noOperator.symm.trans found
  | whole filled digit =>
    cases word with
    | nil => exact filled rfl
    | cons d ds =>
      cases split
      exact noDigit (digit c (.head _))
  | @decimal digits _ filled digit =>
    cases digits with
    | nil => exact filled rfl
    | cons d ds =>
      cases split
      exact noDigit (digit c (.head _))
  | @quoted _ inner body quote quoted =>
    rw [List.cons_append, List.cons_append] at split
    obtain ⟨rfl, rest⟩ := List.cons.inj split
    have read := stringBody_of_quoted quote quoted behind
    rw [List.append_cons, rest, noString quote] at read
    cases read

/-- A numeral is not refused by a fault. -/
theorem number_faultless : s.number ≠ .error (.fault f) := by
  intro failed
  unfold number at failed
  dsimp only at failed
  split at failed
  · split at failed <;> cases failed
  · cases failed

theorem string_fault (failed : s.string c cs = .error (.fault f)) :
    stringBody c cs = none ∧ f.StandsAt s.place := by
  unfold string at failed
  split at failed
  · cases failed
  next none => exact ⟨none, faultAt_of_eq (Except.error.inj failed)⟩

theorem stranger_fault (same : s.stranger c = .fault f) : f.StandsAt s.place := by
  unfold stranger at same
  split at same
  · exact faultAt_of_eq same
  · exact faultAt_of_eq same

theorem word_trouble (within : s.atLineStart = false) (here : s.rest = c :: cs)
    (failed : s.word c cs = .error (.fault f)) : s.Trouble [] c cs ∧ f.StandsAt s.place := by
  unfold word at failed
  split at failed
  · cases failed
  next filled =>
    split at failed
    · cases failed
    next plain =>
      split at failed
      · dsimp only at failed
        split at failed <;> cases failed
      next inner =>
        have visible := visible_of_ne filled plain inner
        split at failed
        · cases failed
        next noOperator =>
          split at failed
          · cases failed
          next noSign =>
            split at failed
            · exact absurd failed number_faultless
            next noDigit =>
              split at failed
              next quote =>
                obtain ⟨noString, there⟩ := string_fault failed
                refine ⟨.unspelled within here visible ?_, there⟩
                have noName : ¬ Token.isNameStart c = true := by
                  rcases (by simpa using quote : c = '"' ∨ c = '\'') with rfl | rfl <;> decide
                exact unspelled_of_stuck noOperator noSign noDigit noName fun _ => noString
              next noQuote =>
                have noQuote : ¬ (c = '"' ∨ c = '\'') := by simpa using noQuote
                split at failed
                · cases failed
                next noName =>
                  refine ⟨.unspelled within here visible ?_, stranger_fault (Except.error.inj failed)⟩
                  exact unspelled_of_stuck noOperator noSign noDigit noName (absurd · noQuote)

/-- A width that closes some blocks without fitting the one that is left is the width of none. -/
theorem not_mem_indentations {width : Nat} (increasing : s.indentations.Pairwise (· < ·))
    (apart : (s.blocks.dropWhile (width < ·)).headD 0 ≠ width) : width ∉ s.indentations := by
  intro known
  have decreasing := increasing_iff.mp increasing
  have member : width ∈ s.blocks ++ [0] := by simpa [indentations, or_comm] using known
  rw [← @List.takeWhile_append_dropWhile _ (width < ·) s.blocks, List.append_assoc] at member decreasing
  have deeper : width ∉ s.blocks.takeWhile (width < ·) := fun inside => by
    simpa using List.all_eq_true.mp List.all_takeWhile _ inside
  have kept := (List.mem_append.mp member).resolve_left deeper
  have kept_decreasing := (List.pairwise_append.mp decreasing).2.1
  cases still : s.blocks.dropWhile (width < ·) with
  | nil =>
    rw [still] at kept apart
    exact apart (List.mem_singleton.mp kept).symm
  | cons b bs =>
    rw [still] at kept kept_decreasing apart
    have reached : b ≤ width := by
      have stops := List.head?_dropWhile_not (width < ·) s.blocks
      rw [still] at stops
      simpa using stops
    rcases List.mem_cons.mp kept with rfl | later
    · exact apart rfl
    · exact absurd (List.rel_of_pairwise_cons kept_decreasing later) (Nat.not_lt.mpr reached)

theorem layout_trouble (start : s.atLineStart = true) (increasing : s.indentations.Pairwise (· < ·))
    (failed : s.layout = .error (.fault f)) :
    ∃ passed c cs, s.Trouble passed c cs ∧ f.StandsAt (s.place.afterAll passed) := by
  rcases skipped : skipLayout false 0 s.place s.rest with ⟨width, place, rest⟩
  obtain ⟨passed, split, there, visible⟩ := skipLayout_visible false 0 s.place s.rest
  rw [skipped] at split there visible
  unfold layout at failed
  rw [skipped] at failed
  dsimp only at failed split there visible
  split at failed
  · cases failed
  next uneven =>
    split at failed
    · cases failed
    · split at failed
      · cases failed
      next unmatched =>
        cases rest with
        | nil => exact absurd rfl uneven
        | cons c cs =>
          refine ⟨passed, c, cs, ?_, there ▸ faultAt_of_eq (Except.error.inj failed)⟩
          exact .uneven start split skipped (visible c cs rfl) (not_mem_indentations increasing unmatched)

theorem advance_trouble (increasing : s.indentations.Pairwise (· < ·))
    (failed : s.advance = .error (.fault f)) :
    ∃ passed c cs, s.Trouble passed c cs ∧ f.StandsAt (s.place.afterAll passed) := by
  unfold advance at failed
  split at failed
  next start =>
    cases read : s.layout with
    | ok pair => simp [read, Except.map] at failed
    | error failure =>
      simp only [read, Except.map, Except.error.injEq] at failed
      exact layout_trouble start increasing (failed ▸ read)
  next within =>
    have within : s.atLineStart = false := by simpa using within
    split at failed
    · cases failed
    next c cs here =>
      cases read : s.word c cs with
      | ok pair => simp [read, Except.map] at failed
      | error failure =>
        simp only [read, Except.map, Except.error.injEq] at failed
        obtain ⟨trouble, there⟩ := word_trouble within here (failed ▸ read)
        exact ⟨[], c, cs, trouble, there⟩

/-- A fault of a scan stands at a character of the text, and there is something wrong with the scanner that
has come there. -/
theorem stops_of_fault {source filename : String}
    (failed : Token.tokenize source filename = .error (.fault f)) :
    ∃ ts m passed c behind before, (start source filename).Goes ts m ∧ m.Trouble passed c behind ∧
      Text.normalized source = before ++ c :: behind ∧ f.StandsAt (Place.behind before) := by
  obtain ⟨ts, m, goes, stops⟩ := Token.goes_of_failed failed
  have upheld := (phase_upheld_of_goes goes (phase_start source filename) (upheld_start source filename)).2
  obtain ⟨read, split, there, -⟩ := reads_of_goes goes
  obtain ⟨passed, c, behind, trouble, stands⟩ := advance_trouble upheld.increasing stops
  refine ⟨ts, m, passed, c, behind, read ++ passed, goes, trouble, ?_, ?_⟩
  · have ahead : m.rest = passed ++ c :: behind := by
      cases trouble with
      | unspelled _ here => exact here
      | uneven _ here => exact here
    have whole : Text.normalized source = read ++ m.rest := split
    rw [whole, ahead, List.append_assoc]
  · have start : (start source filename).place = Place.behind [] := rfl
    rwa [there, start, ← Place.behind_append, ← Place.behind_append] at stands

theorem Trouble.visible {passed behind : List Char} (trouble : s.Trouble passed c behind) : Visible c := by
  cases trouble with
  | unspelled _ _ visible => exact visible
  | uneven _ _ _ visible => exact visible

end Scanner

namespace Fault

/-- What stands in front of a line of the source: its number, with room for four digits. -/
def margin (number : Nat) : List Char := (Text.padLeft 4 number.repr ++ " | ").toList

/-- Two lines of a report: a line of the source behind its number, and a caret under its character `i`,
counted from zero, if the number fits into its room. -/
def Shows (excerpt : List String) (number : Nat) (line : List Char) (i : Nat) : Prop :=
  ∃ gap : List Char, (∀ c ∈ gap, c = ' ' ∨ c = '|') ∧
    excerpt = [String.ofList (margin number ++ line), String.ofList (gap ++ ['^'])] ∧
    (gap.length = (margin number).length + i ↔ number < 10000)

theorem length_padLeft (width : Nat) (s : String) :
    (Text.padLeft width s).length = max width s.length := by
  rw [Text.padLeft, String.length_append, String.length_ofList, List.length_replicate]
  omega

/-- The margin has its usual width up to the largest number of four digits. -/
theorem length_margin (number : Nat) : (margin number).length = 7 ↔ number < 10000 := by
  have digits : number.repr.length ≤ 4 ↔ number < 10000 := by
    rw [Nat.repr, String.length_ofList]
    exact Nat.length_toDigits_le_iff (by decide) (by decide)
  have width : (margin number).length = max 4 number.repr.length + 3 := by
    rw [margin, String.length_toList, String.length_append, length_padLeft]
    rfl
  rw [← digits, width]
  omega

theorem excerpt_shows {f : Fault} {source : String} {place : Place} {line : List Char}
    (stands : f.StandsAt place) (first : 1 ≤ place.line) (first' : 1 ≤ place.column)
    (filled : line ≠ []) (found : (excerptLines source)[place.line - 1]? = some line) :
    Shows (f.excerpt source) place.line line (place.column - 1) := by
  have excerpt : f.excerpt source =
      [Text.padLeft 4 place.line.repr ++ " | " ++ String.ofList line,
        "     | " ++ String.ofList (List.replicate (place.column - 1) ' ') ++ "^"] := by
    have nonempty : source.isEmpty = false := by
      cases empty : source.isEmpty with
      | false => rfl
      | true =>
        rw [String.isEmpty_iff] at empty
        subst empty
        exact absurd (List.mem_singleton.mp (List.mem_of_getElem? found)) filled
    have present : ¬ (source.isEmpty || (place.line : Int) < 1) = true := by
      simp only [nonempty, Bool.false_or, decide_eq_true_eq]
      omega
    have column : (1 : Int) ≤ place.column := by omega
    unfold Fault.excerpt
    rw [stands.1, stands.2]
    dsimp only
    rw [if_neg present, Int.toNat_natCast, found]
    dsimp only
    rw [if_pos column, Int.toNat_natCast]
    rfl
  refine ⟨"     | ".toList ++ List.replicate (place.column - 1) ' ', by simp, ?_, ?_⟩
  · rw [excerpt, margin, String.ofList_append, String.ofList_append, String.ofList_append,
      String.ofList_toList, String.ofList_toList]
  · rw [← length_margin, List.length_append, List.length_replicate]
    change 7 + _ = _ ↔ _
    omega

/-- A line that is not empty is the same for the scanner and for the report. -/
theorem excerptLines_of_paired {source : String} {line : List Char} {i : Nat}
    (paired : Text.Paired source.toList) (filled : line ≠ [])
    (found : (Text.splitAtChar '\n' [] (Text.normalized source))[i]? = some line) :
    (excerptLines source)[i]? = some line := by
  rw [excerptLines, Text.dropPairedReturns_eq paired]
  unfold Text.normalized at found
  dsimp only at found
  split at found
  · exact found
  · rw [Text.splitAtChar_concat] at found
    by_cases inside : i < (Text.splitAtChar '\n' [] (Text.normalizeBreaks source.toList)).length
    · rwa [List.getElem?_append_left inside] at found
    · rw [List.getElem?_append_right (Nat.not_lt.mp inside)] at found
      exact absurd (List.mem_singleton.mp (List.mem_of_getElem? found)) filled

end Fault

namespace Token

/-- A scan that stops with a fault stops at a character at which no token is written, or at the first one
of a line that is indented as no open block is. The fault has the line and the column of this character in
the text as it is scanned. The report shows this very line and has a caret under this very character, if
every carriage return is part of a line end with a line feed and the line number has no more than four
digits. -/
theorem tokenize_excerpt {source filename : String} {f : Fault}
    (failed : tokenize source filename = .error (.fault f)) :
    ∃ ts s passed c behind before,
      (Scanner.start source filename).Goes ts s ∧ s.Trouble passed c behind ∧
      Text.normalized source = before ++ c :: behind ∧ f.StandsAt (Place.behind before) ∧
      ∃ text, (Text.splitAtChar '\n' [] (Text.normalized source))[(Place.behind before).line - 1]? =
          some text ∧ text[(Place.behind before).column - 1]? = some c ∧
        (Text.Paired source.toList →
          Fault.Shows (f.excerpt source) (Place.behind before).line text
            ((Place.behind before).column - 1)) := by
  obtain ⟨ts, s, passed, c, behind, before, goes, trouble, split, stands⟩ := Scanner.stops_of_fault failed
  have feed : c ≠ '\n' := fun same => trouble.visible (by simp [same])
  have line := Text.splitAtChar_line before (c :: behind)
  have here : ((before.reverse.takeWhile (· ≠ '\n')).reverse ++
      (c :: behind).takeWhile (· ≠ '\n'))[(Place.behind before).column - 1]? = some c := by
    simp [Place.behind, feed]
  rw [← split] at line
  refine ⟨ts, s, passed, c, behind, before, goes, trouble, split, stands, _, line, here, fun paired => ?_⟩
  have filled := List.ne_nil_of_mem (List.mem_of_getElem? here)
  exact Fault.excerpt_shows stands (Nat.succ_pos _) (Nat.succ_pos _) filled
    (Fault.excerptLines_of_paired paired filled line)

/-- A carriage return alone ends a line for the scanner, and not for the report. -/
example : ["y = 1\r\nx = @", "y = 1\rx = @"].map (fun source =>
      match tokenize source unnamedSource with
      | .error (.fault f) => f.excerpt source
      | _ => []) =
    [["   2 | x = @", "     |     ^"], []] := by decide +kernel

end Token

end Stepwise
