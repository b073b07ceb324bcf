import Stepwise.Proofs.Joining.Scans
import Stepwise.Proofs.Printing.Lines
import Stepwise.Proofs.Scanning.Spellings

/-!
String literals. A text in quotes is scanned as that text, and a literal ends with the first quote of
its line that is not escaped: `strings_exact`.
-/
namespace Stepwise

open Token (Closes Quoted escapeIn inQuotes)

/-- Within a line only the column moves on. -/
theorem Place.afterAll_inLine (place : Place) {cs : List Char} (inLine : '\n' ∉ cs) :
    place.afterAll cs = ⟨place.line, place.column + cs.length⟩ := by
  unfold Place.afterAll
  induction cs generalizing place with
  | nil => rfl
  | cons c cs ih =>
    obtain ⟨feed, inLine⟩ := not_or.mp (mt List.mem_cons.mpr inLine)
    rw [List.foldl_cons, ih _ inLine, List.length_cons]
    unfold Place.after
    rw [if_neg (Ne.symm feed), Nat.add_assoc, Nat.add_comm 1]

/-- Behind the escapes there is neither a line feed nor a carriage return. -/
theorem Token.escaped_inLine {quote : Char} (isQuote : quote = '"' ∨ quote = '\'') {cs : List Char}
    (free : '\r' ∉ cs) : '\n' ∉ cs.flatMap (escapeIn quote) ∧ '\r' ∉ cs.flatMap (escapeIn quote) := by
  have feed := ((quoted_escaped isQuote cs).closes (Scanner.quote_plain isQuote).1).inLine
  refine ⟨feed, fun member => ?_⟩
  obtain ⟨c, inside, escape⟩ := List.mem_flatMap.mp member
  have other : '\r' ≠ c := fun same => free (same ▸ inside)
  revert escape
  unfold escapeIn
  rcases isQuote with rfl | rfl <;> split_ifs <;> simp [other]

namespace Scanner

variable {quote : Char} {s : Scanner} {cs : List Char}

/-- A quote starts a string and nothing else. -/
theorem word_quote (isQuote : quote = '"' ∨ quote = '\'') (s : Scanner) (cs : List Char) :
    s.word quote cs = s.string quote cs := by
  have operators : ∀ entry ∈ Token.twoCharOperators, entry.1.1 ≠ '"' ∧ entry.1.1 ≠ '\'' := by decide
  have operator : (cs.head?.bind fun d => Token.twoCharOperators.lookup (quote, d)) = none := by
    refine Option.bind_eq_none_iff.mpr fun d _ => Printing.lookup_eq_none fun entry member same => ?_
    obtain ⟨double, single⟩ := operators entry member
    rw [same] at double single
    exact isQuote.elim double single
  unfold Scanner.word
  rcases isQuote with rfl | rfl
  · simp only [operator]
    rfl
  · simp only [operator]
    rfl

/-- What the scanner makes of a string that ends on its line. -/
theorem string_of_quoted (isQuote : quote = '"' ∨ quote = '\'') {inner rest body : List Char}
    (here : s.rest = quote :: (inner ++ quote :: rest)) (quoted : Quoted quote inner body) :
    s.string quote (inner ++ quote :: rest) =
      .ok ([tokenAt s.place .string (.text (String.ofList body))],
        { s with
          rest
          place := ⟨s.place.line, s.place.column + inner.length + 2⟩
          last := some .string }) := by
  obtain ⟨slash, feed⟩ := quote_plain isQuote
  have split : s.rest = (quote :: inner ++ [quote]) ++ rest := by simp [here]
  have length : inner.length + 1 + 1 = (quote :: inner ++ [quote]).length := by simp
  have inLine : '\n' ∉ quote :: inner ++ [quote] := by
    simp [(quoted.closes slash).inLine, Ne.symm feed]
  unfold Scanner.string
  rw [stringBody_of_quoted isQuote quoted]
  dsimp only
  unfold Scanner.take
  dsimp only
  rw [length, split, List.take_left, List.drop_left, Place.afterAll_inLine _ inLine, ← length]
  rfl

theorem toList_inQuotes (quote : Char) (t : String) :
    (inQuotes quote t).toList = quote :: t.toList.flatMap (escapeIn quote) ++ [quote] :=
  String.toList_ofList

theorem normalized_inQuotes (isQuote : quote = '"' ∨ quote = '\'') {t : String}
    (free : '\r' ∉ t.toList) : Text.normalized (inQuotes quote t) =
      quote :: (t.toList.flatMap (escapeIn quote) ++ quote :: ['\n']) := by
  obtain ⟨-, noReturn⟩ := Token.escaped_inLine isQuote free
  have other : quote ≠ '\r' := by rcases isQuote with rfl | rfl <;> decide
  have bare : '\r' ∉ (inQuotes quote t).toList := by
    rw [toList_inQuotes, List.mem_append, List.mem_cons, List.mem_singleton]
    rintro ((same | inside) | same)
    · exact other same.symm
    · exact noReturn inside
    · exact other same.symm
  rw [Text.normalized_of_free bare, toList_inQuotes, List.getLast?_concat,
    if_neg (by simpa using (quote_plain isQuote).2)]
  simp

/-- The text of a string alone is scanned as that string, the end of its line and the end. -/
theorem tokenize_inQuotes (isQuote : quote = '"' ∨ quote = '\'') {t : String}
    (free : '\r' ∉ t.toList) (filename : String) :
    Token.tokenize (inQuotes quote t) filename =
      .ok [tokenAt ⟨1, 1⟩ .string (.text t),
        tokenAt ⟨1, (inQuotes quote t).length + 1⟩ .newline .null, tokenAt ⟨2, 1⟩ .eof .null] := by
  have normal := normalized_inQuotes isQuote free
  have quoted := Token.quoted_escaped isQuote t.toList
  have length : (inQuotes quote t).length + 1 =
      (t.toList.flatMap (escapeIn quote)).length + 3 := by
    rw [← String.length_toList, toList_inQuotes]
    simp
  generalize t.toList.flatMap (escapeIn quote) = inner at normal quoted length
  -- The first line is not indented, so the scanner goes on with the string.
  have flush : skipLayout false 0 ⟨1, 1⟩ (Text.normalized (inQuotes quote t)) =
      (0, ⟨1, 1⟩, quote :: (inner ++ quote :: ['\n'])) := by
    rw [normal]
    rcases isQuote with rfl | rfl <;> rfl
  have level := advance_of_layout (s := start (inQuotes quote t) filename) rfl
    (layout_level flush (.inr rfl))
  have string := @string_of_quoted _ { start (inQuotes quote t) filename with
    rest := quote :: (inner ++ quote :: ['\n']), place := ⟨1, 1⟩, atLineStart := false }
    isQuote _ ['\n'] _ rfl quoted
  let behind : Scanner :=
    { start (inQuotes quote t) filename with
      rest := ['\n'], place := ⟨1, inner.length + 3⟩, atLineStart := false, last := some .string }
  have read : Scanner.advance
      { start (inQuotes quote t) filename with
        rest := quote :: (inner ++ quote :: ['\n']), place := ⟨1, 1⟩, atLineStart := false } =
      .ok ([tokenAt ⟨1, 1⟩ .string (.text t)], some behind) := by
    unfold advance
    rw [if_neg (by simp)]
    dsimp only
    rw [word_quote isQuote, string, String.ofList_toList, Nat.add_comm 1, Nat.add_assoc]
    rfl
  have fed := Printing.advance_feed (s := behind) rfl rfl ⟨.string, rfl, nofun⟩
  have done : skipLayout false 0 ⟨2, 1⟩ [] = (0, ⟨2, 1⟩, []) := rfl
  have closed := advance_of_layout (s := { behind with
      rest := [], place := behind.place.after '\n', atLineStart := true, last := some .newline }) rfl
    (layout_level done (.inl rfl))
  have goes := (Goes.one level (advance_lighter level)).trans
    ((Goes.one read (advance_lighter read)).trans (fed.trans (.one closed (advance_lighter closed))))
  rw [length]
  exact Token.tokenize_of_goes goes (advance_of_ended rfl rfl)

end Scanner

namespace Token

open Scanner (tokenAt)

/-- A text in quotes, with its backslashes, quotes, line feeds and tabs escaped, is scanned as that text.
Wherever a scanner stands on a quote, it goes on behind the first quote of the line that is not escaped,
having read what stands between the two, or stops with a fault at the quote it stands on. -/
theorem strings_exact {quote : Char} (isQuote : quote = '"' ∨ quote = '\'') :
    (∀ t filename : String, '\r' ∉ t.toList → tokenize (inQuotes quote t) filename =
      .ok [tokenAt ⟨1, 1⟩ .string (.text t),
        tokenAt ⟨1, (inQuotes quote t).length + 1⟩ .newline .null, tokenAt ⟨2, 1⟩ .eof .null]) ∧
    ∀ (s : Scanner) (cs : List Char), s.rest = quote :: cs → s.word quote cs = s.string quote cs ∧
      ((∃ inner rest body, cs = inner ++ quote :: rest ∧ Closes quote inner ∧
          Quoted quote inner body ∧
          s.string quote cs = .ok ([tokenAt s.place .string (.text (String.ofList body))],
            { s with
              rest
              place := ⟨s.place.line, s.place.column + inner.length + 2⟩
              last := some .string })) ∨
        (∀ inner rest, cs = inner ++ quote :: rest → ¬ Closes quote inner) ∧
          s.string quote cs = .error (s.faultAt s.place "Unterminated string literal"
            s!"Add a closing {quote} at the end of the string.")) := by
  obtain ⟨slash, -⟩ := Scanner.quote_plain isQuote
  refine ⟨fun t filename free => Scanner.tokenize_inQuotes isQuote free filename,
    fun s cs here => ⟨Scanner.word_quote isQuote s cs, ?_⟩⟩
  cases read : Scanner.stringBody quote cs with
  | some pair =>
    obtain ⟨inner, rest, rfl, quoted, -⟩ := (Scanner.stringBody_eq_some_iff isQuote).mp read
    exact .inl ⟨inner, rest, _, rfl, quoted.closes slash, quoted,
      Scanner.string_of_quoted isQuote here quoted⟩
  | none =>
    refine .inr ⟨(Scanner.stringBody_eq_none_iff isQuote).mp read, ?_⟩
    unfold Scanner.string
    rw [read]

/-- A text with everything that is escaped in it, and a quote whose only partner is escaped. -/
theorem strings_exact_escapes :
    inQuotes '\'' "it's\n\t\\\"" = "'it\\'s\\n\\t\\\\\"'" ∧
      tokenize (inQuotes '\'' "it's\n\t\\\"") "<stdin>" =
        .ok [tokenAt ⟨1, 1⟩ .string (.text "it's\n\t\\\""), tokenAt ⟨1, 15⟩ .newline .null,
          tokenAt ⟨2, 1⟩ .eof .null] ∧
      ∃ failure, (Scanner.start "'a\\'" "<stdin>").string '\'' ['a', '\\', '\'', '\n'] =
        .error failure := by
  refine ⟨by decide, (strings_exact (.inr rfl)).1 "it's\n\t\\\"" _ (by decide), ?_⟩
  have reads := ((strings_exact (.inr rfl)).2 (Scanner.start "'a\\'" "<stdin>")
    ['a', '\\', '\'', '\n'] (by decide)).2
  rcases reads with ⟨inner, rest, body, split, closes, -⟩ | ⟨-, stops⟩
  · exact absurd closes ((Scanner.stringBody_eq_none_iff (.inr rfl)).mp (by decide) inner rest split)
  · exact ⟨_, stops⟩

end Token

end Stepwise
