import Stepwise.Token.Scan

/-!
What tokens are written as. `Spells` says it without the scanner: a word, a sign, the digits of a number
or a string in its quotes, with the kind and the literal that belong to it. A text stands between quotes
with its backslashes, quotes, line feeds and tabs escaped, and is read back from there
(`stringBody_escaped`). A literal ends at the first quote of its line that no backslash escapes, or not
at all (`stringBody_eq_some_iff`, `stringBody_eq_none_iff`).
-/
namespace Stepwise

namespace Token

/-- The characters between the quotes of a string literal, and the text they stand for. -/
inductive Quoted (quote : Char) : List Char → List Char → Prop where
  | nil : Quoted quote [] []
  | plain {c : Char} {cs body : List Char} : c ∉ [quote, '\\', '\n'] → Quoted quote cs body →
      Quoted quote (c :: cs) (c :: body)
  | escape {c : Char} {cs body : List Char} : c ≠ '\n' → Quoted quote cs body →
      Quoted quote ('\\' :: c :: cs) (unescape c :: body)

/-- The characters that a token of some kind, with some literal, is written as. -/
inductive Spells : Kind → Scalar → List Char → Prop where
  | word {c : Char} {cs : List Char} : isNameStart c = true → (∀ d ∈ cs, isNamePart d = true) →
      Spells (wordKind (String.ofList (c :: cs))) (.text (String.ofList (c :: cs))) (c :: cs)
  | sign {c : Char} {kind : Kind} : oneCharSigns.lookup c = some kind →
      Spells kind (.text (String.ofList [c])) [c]
  | operator {c d : Char} {kind : Kind} : twoCharOperators.lookup (c, d) = some kind →
      Spells kind (.text (String.ofList [c, d])) [c, d]
  | whole {digits : List Char} : digits ≠ [] → (∀ c ∈ digits, c.isDigit = true) →
      Spells .number (.number (.int (Decimal.numeral (Decimal.digitsOf digits)))) digits
  | decimal {digits fraction : List Char} : digits ≠ [] → (∀ c ∈ digits, c.isDigit = true) →
      fraction ≠ [] → (∀ c ∈ fraction, c.isDigit = true) →
      Spells .number (.number (.float
        (Decimal.ofDecimal (Decimal.digitsOf (digits ++ fraction)) (-fraction.length))))
        (digits ++ '.' :: fraction)
  | quoted {quote : Char} {cs body : List Char} : quote = '"' ∨ quote = '\'' → Quoted quote cs body →
      Spells .string (.text (String.ofList body)) (quote :: cs ++ [quote])

end Token

namespace Scanner

open Token (Quoted Spells)

/-- A character of a literal that is neither an escape nor the end of the line. -/
theorem stringBody_plain {quote c : Char} (feed : c ≠ '\n') (plain : c ≠ '\\') (cs : List Char) :
    stringBody quote (c :: cs) = if c = quote then some ([], 1)
      else (stringBody quote cs).map fun (body, length) => (c :: body, length + 1) := by
  rw [stringBody]
  · exact feed
  · exact fun same => absurd same plain
  · exact fun _ _ same => absurd same plain

/-- What the scanner takes for the contents of a string is written between its quotes. -/
theorem quoted_stringBody (quote : Char) (cs : List Char) :
    ∀ {body : List Char} {n : Nat}, stringBody quote cs = some (body, n) →
      ∃ inner, cs.take n = inner ++ [quote] ∧ Quoted quote inner body := by
  fun_induction stringBody quote cs with
  | case1 | case2 | case3 | case4 =>
    intro _ _ read
    cases read
  | case5 c cs other ih =>
    intro body n read
    obtain ⟨⟨rest, m⟩, inner, same⟩ := Option.map_eq_some_iff.mp read
    cases same
    obtain ⟨front, taken, quoted⟩ := ih inner
    exact ⟨'\\' :: c :: front, by simp [taken], .escape other quoted⟩
  | case6 cs _ _ _ =>
    intro body n read
    cases read
    exact ⟨[], rfl, .nil⟩
  | case7 c cs feed alone escape other ih =>
    intro body n read
    obtain ⟨⟨rest, m⟩, inner, same⟩ := Option.map_eq_some_iff.mp read
    cases same
    obtain ⟨front, taken, quoted⟩ := ih inner
    have plain : c ≠ '\\' := by
      rintro rfl
      cases cs with
      | nil => exact alone rfl rfl
      | cons d ds => exact escape d ds rfl rfl
    have inline : c ≠ '\n' := feed
    exact ⟨c :: front, by simp [taken], .plain (by simp [other, plain, inline]) quoted⟩

end Scanner

namespace Token

/-- How a character stands between quotes of some kind. -/
def escapeIn (quote c : Char) : List Char :=
  if c = '\\' then ['\\', '\\']
  else if c = quote then ['\\', quote]
  else if c = '\n' then ['\\', 'n']
  else if c = '\t' then ['\\', 't']
  else [c]

/-- A text between quotes. -/
def inQuotes (quote : Char) (t : String) : String :=
  String.ofList (quote :: t.toList.flatMap (escapeIn quote) ++ [quote])

/-- Number of backslashes at the end of a text. -/
def slashes (cs : List Char) : Nat := (cs.reverse.takeWhile (· = '\\')).length

/-- Whether a quote behind these characters is the first one of the line that is not escaped. A
quote is escaped by an odd number of backslashes in front of it. -/
structure Closes (quote : Char) (inner : List Char) : Prop where
  inLine : '\n' ∉ inner
  bare : slashes inner % 2 = 0
  first : ∀ before behind, inner = before ++ quote :: behind → slashes before % 2 = 1

section Slashes

theorem slashes_le (cs : List Char) : slashes cs ≤ cs.length := by
  have shorter := (List.takeWhile_prefix (l := cs.reverse) (· = '\\')).length_le
  rwa [List.length_reverse] at shorter

theorem slashes_cons (c : Char) (cs : List Char) :
    slashes (c :: cs) = slashes cs + if c = '\\' ∧ slashes cs = cs.length then 1 else 0 := by
  unfold slashes
  rw [List.reverse_cons, List.takeWhile_append, List.length_reverse]
  split
  next all =>
    by_cases slash : c = '\\'
    · simp [slash, all]
    · simp [slash, all]
  next some_ => simp [some_]

theorem slashes_cons_of_ne {c : Char} (other : c ≠ '\\') (cs : List Char) :
    slashes (c :: cs) = slashes cs := by
  rw [slashes_cons, if_neg fun both => other both.1, Nat.add_zero]

/-- A backslash takes the character behind it along. -/
theorem slashes_pair (c : Char) (cs : List Char) :
    slashes ('\\' :: c :: cs) % 2 = slashes cs % 2 := by
  have bound := slashes_le cs
  rw [slashes_cons, slashes_cons, List.length_cons]
  by_cases both : c = '\\' ∧ slashes cs = cs.length
  · rw [if_pos both, if_pos ⟨rfl, by rw [both.2]⟩]
    omega
  · rw [if_neg both, if_neg fun more => by omega, Nat.add_zero]

end Slashes

section Closes

variable {quote c : Char} {cs inner body : List Char}

theorem closes_nil : Closes quote [] := ⟨List.not_mem_nil, rfl, by simp⟩

theorem closes_cons (other : c ≠ '\\') :
    Closes quote (c :: cs) ↔ c ≠ quote ∧ c ≠ '\n' ∧ Closes quote cs := by
  constructor
  · rintro ⟨inLine, bare, first⟩
    obtain ⟨feed, inLine⟩ := not_or.mp (mt List.mem_cons.mpr inLine)
    rw [slashes_cons_of_ne other] at bare
    refine ⟨?_, Ne.symm feed, inLine, bare, fun before behind same => ?_⟩
    · rintro rfl
      exact absurd (first [] cs rfl) (by decide)
    · rw [← slashes_cons_of_ne other]
      exact first (c :: before) behind (by rw [same, List.cons_append])
  · rintro ⟨differs, feed, inLine, bare, first⟩
    refine ⟨by simp [inLine, Ne.symm feed], by rwa [slashes_cons_of_ne other],
      fun before behind same => ?_⟩
    cases before with
    | nil => exact absurd (List.cons.inj same).1 differs
    | cons d before =>
      obtain ⟨rfl, rest⟩ := List.cons.inj same
      rw [slashes_cons_of_ne other]
      exact first before behind rest

theorem closes_pair (plain : quote ≠ '\\') :
    Closes quote ('\\' :: c :: cs) ↔ c ≠ '\n' ∧ Closes quote cs := by
  constructor
  · rintro ⟨inLine, bare, first⟩
    rw [slashes_pair] at bare
    simp only [List.mem_cons, not_or] at inLine
    refine ⟨Ne.symm inLine.2.1, inLine.2.2, bare, fun before behind same => ?_⟩
    rw [← slashes_pair c]
    exact first ('\\' :: c :: before) behind (by rw [same]; rfl)
  · rintro ⟨feed, inLine, bare, first⟩
    refine ⟨by simp [inLine, Ne.symm feed], by rwa [slashes_pair], fun before behind same => ?_⟩
    match before with
    | [] => exact absurd (List.cons.inj same).1.symm plain
    | [d] =>
      obtain ⟨rfl, -⟩ := List.cons.inj same
      rfl
    | d :: e :: before =>
      obtain ⟨rfl, later⟩ := List.cons.inj same
      obtain ⟨rfl, rest⟩ := List.cons.inj later
      rw [slashes_pair]
      exact first before behind rest

/-- What is written between quotes ends at the first quote that is not escaped. -/
theorem Quoted.closes (plain : quote ≠ '\\') (quoted : Quoted quote inner body) :
    Closes quote inner := by
  induction quoted with
  | nil => exact closes_nil
  | plain outside _ ih =>
    simp only [List.mem_cons, List.not_mem_nil, or_false, not_or] at outside
    exact (closes_cons outside.2.1).mpr ⟨outside.1, outside.2.2, ih⟩
  | escape feed _ ih => exact (closes_pair plain).mpr ⟨feed, ih⟩

/-- Whatever stands in front of such a quote is the contents of a literal. -/
theorem Closes.quoted (plain : quote ≠ '\\') : ∀ {inner : List Char}, Closes quote inner →
    ∃ body, Quoted quote inner body
  | [], _ => ⟨[], .nil⟩
  | [c], closes => by
    have other : c ≠ '\\' := by
      rintro rfl
      exact absurd closes.bare (by decide)
    obtain ⟨differs, feed, -⟩ := (closes_cons other).mp closes
    exact ⟨[c], .plain (by simp [differs, other, feed]) .nil⟩
  | c :: d :: cs, closes => by
    by_cases slash : c = '\\'
    · subst slash
      obtain ⟨feed, closes⟩ := (closes_pair plain).mp closes
      obtain ⟨body, quoted⟩ := Closes.quoted plain closes
      exact ⟨_, .escape feed quoted⟩
    · obtain ⟨differs, feed, closes⟩ := (closes_cons slash).mp closes
      obtain ⟨body, quoted⟩ := Closes.quoted plain closes
      exact ⟨_, .plain (by simp [differs, slash, feed]) quoted⟩

end Closes

theorem unescape_quote {quote : Char} (isQuote : quote = '"' ∨ quote = '\'') :
    unescape quote = quote := by
  rcases isQuote with rfl | rfl <;> rfl

/-- A text is the contents of its escaped characters. -/
theorem quoted_escaped {quote : Char} (isQuote : quote = '"' ∨ quote = '\'') (cs : List Char) :
    Quoted quote (cs.flatMap (escapeIn quote)) cs := by
  induction cs with
  | nil => exact .nil
  | cons c cs ih =>
    rw [List.flatMap_cons]
    unfold escapeIn
    split
    next slash =>
      subst slash
      exact .escape (by decide) ih
    next slash =>
    split
    next same =>
      subst same
      have inLine : c ≠ '\n' := by rcases isQuote with rfl | rfl <;> decide
      have step := Quoted.escape inLine ih
      rwa [unescape_quote isQuote] at step
    next differs =>
    split
    next feed =>
      subst feed
      exact .escape (c := 'n') (by decide) ih
    next feed =>
    split
    next tab =>
      subst tab
      exact .escape (c := 't') (by decide) ih
    next => exact .plain (by simp [slash, differs, feed]) ih

end Token

namespace Scanner

open Token (Quoted Closes escapeIn)

variable {quote : Char} {cs inner body : List Char} {n : Nat}

theorem quote_plain (isQuote : quote = '"' ∨ quote = '\'') : quote ≠ '\\' ∧ quote ≠ '\n' := by
  rcases isQuote with rfl | rfl <;> decide

/-- What is written between quotes is what the scanner takes for the contents. -/
theorem stringBody_of_quoted (isQuote : quote = '"' ∨ quote = '\'')
    (quoted : Quoted quote inner body) (rest : List Char) :
    stringBody quote (inner ++ quote :: rest) = some (body, inner.length + 1) := by
  obtain ⟨slash, feed⟩ := quote_plain isQuote
  induction quoted with
  | nil => rw [List.nil_append, stringBody_plain feed slash, if_pos rfl]; rfl
  | plain outside _ ih =>
    simp only [List.mem_cons, List.not_mem_nil, or_false, not_or] at outside
    rw [List.cons_append, stringBody_plain outside.2.2 outside.2.1, if_neg outside.1, ih]
    rfl
  | escape inLine _ ih =>
    rw [List.cons_append, List.cons_append, stringBody, if_neg inLine, ih]
    rfl

/-- A text is read back from its escaped characters. -/
theorem stringBody_escaped (isQuote : quote = '"' ∨ quote = '\'') (cs rest : List Char) :
    stringBody quote (cs.flatMap (escapeIn quote) ++ quote :: rest) =
      some (cs, (cs.flatMap (escapeIn quote)).length + 1) :=
  stringBody_of_quoted isQuote (Token.quoted_escaped isQuote cs) rest

theorem stringBody_eq_some_iff (isQuote : quote = '"' ∨ quote = '\'') :
    stringBody quote cs = some (body, n) ↔ ∃ inner rest, cs = inner ++ quote :: rest ∧
      Quoted quote inner body ∧ n = inner.length + 1 := by
  constructor
  · intro read
    obtain ⟨inner, taken, quoted⟩ := quoted_stringBody quote cs read
    have split : cs = inner ++ quote :: cs.drop n :=
      calc cs = cs.take n ++ cs.drop n := (List.take_append_drop n cs).symm
        _ = inner ++ quote :: cs.drop n := by rw [taken, List.append_assoc]; rfl
    have again := stringBody_of_quoted isQuote quoted (cs.drop n)
    rw [← split, read] at again
    cases again
    exact ⟨inner, _, split, quoted, rfl⟩
  · rintro ⟨inner, rest, rfl, quoted, rfl⟩
    exact stringBody_of_quoted isQuote quoted rest

/-- A literal has no end exactly if no quote closes it. -/
theorem stringBody_eq_none_iff (isQuote : quote = '"' ∨ quote = '\'') :
    stringBody quote cs = none ↔ ∀ inner rest, cs = inner ++ quote :: rest → ¬ Closes quote inner := by
  obtain ⟨plain, -⟩ := quote_plain isQuote
  constructor
  · rintro open_ inner rest rfl closes
    obtain ⟨body, quoted⟩ := closes.quoted plain
    rw [stringBody_of_quoted isQuote quoted] at open_
    cases open_
  · intro never
    cases read : stringBody quote cs with
    | none => rfl
    | some pair =>
      obtain ⟨inner, rest, split, quoted, -⟩ := (stringBody_eq_some_iff isQuote).mp read
      exact absurd (quoted.closes plain) (never inner rest split)

end Scanner

end Stepwise
