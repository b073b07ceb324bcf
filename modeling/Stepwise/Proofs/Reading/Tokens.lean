import Stepwise.Proofs.Shape
import Stepwise.Token.Scan

/-!
Tokens of a text carry the literals that their kinds promise. A concrete text is best scanned from the
characters of its literal: those of any other text have to be decoded, each from the start of the text.
-/
namespace Stepwise

/-- A check of what a computation gives also says that it gives something. -/
theorem exists_ok {ε α : Type} {x : Except ε α} {check : α → Bool}
    (checked : x.toOption.any check = true) : ∃ a, x = .ok a ∧ check a = true := by
  cases x with
  | error e => cases checked
  | ok a => exact ⟨a, rfl, checked⟩

/-- A text that is put together from literals. -/
theorem append_eq_ofList {first rest : String} {cs ds : List Char} (chars : first = String.ofList cs)
    (chars' : rest = String.ofList ds) : first ++ rest = String.ofList (cs ++ ds) := by
  rw [chars, chars', String.ofList_append]

/-- The tokens of a text from its characters. -/
def Token.ofChars (cs : List Char) (filename : String) : Except Failure (List Token) :=
  let lines := Text.normalizeBreaks cs
  let s := { Scanner.start "" filename with
    rest := if lines.getLast? = some '\n' then lines else lines ++ ['\n'] }
  match s.run s.moves [] with
  | (tokens, none) => .ok tokens
  | (_, some failure) => .error failure

theorem Token.tokenize_eq_ofChars {source : String} {cs : List Char}
    (chars : source = String.ofList cs) (filename : String) :
    tokenize source filename = ofChars cs filename := by
  subst chars
  unfold tokenize scan ofChars Scanner.start Text.normalized
  rewrite [String.toList_ofList]
  rfl

/-- Names, numbers and strings carry a literal of their kind. -/
structure Token.Sound (token : Token) : Prop where
  name : token.kind = .identifier → token.literal.IsName
  number : token.kind = .number → ∃ n, token.literal = .scalar (.number n)
  string : token.kind = .string → token.literal.IsText

namespace Scanner

open Token (Kind)

theorem tokenAt_sound {place : Place} {kind : Kind} {literal : Scalar}
    (name : kind ≠ .identifier) (number : kind ≠ .number) (string : kind ≠ .string) :
    (tokenAt place kind literal).Sound :=
  ⟨fun same => absurd same name, fun same => absurd same number, fun same => absurd same string⟩

theorem layout_sound {s next : Scanner} {tokens : List Token}
    (read : s.layout = .ok (tokens, next)) : ∀ token ∈ tokens, token.Sound := by
  unfold layout at read
  dsimp only at read
  split at read
  · cases read
    simp
  split at read
  · cases read
    intro token member
    rw [List.mem_singleton.mp member]
    exact tokenAt_sound (by decide) (by decide) (by decide)
  split at read
  · cases read
    intro token member
    rw [List.eq_of_mem_replicate member]
    exact tokenAt_sound (by decide) (by decide) (by decide)
  · cases read

theorem take_sound {s next : Scanner} {length : Nat} {kind : Kind} {literal : Scalar}
    {tokens : List Token} (read : s.take length kind literal = .ok (tokens, next))
    (sound : (tokenAt s.place kind literal).Sound) : ∀ token ∈ tokens, token.Sound := by
  cases read
  intro token member
  rwa [List.mem_singleton.mp member]

theorem skip_sound {s next : Scanner} {length : Nat} {tokens : List Token}
    (read : s.skip length = .ok (tokens, next)) : ∀ token ∈ tokens, token.Sound := by
  cases read
  simp

theorem number_sound {s next : Scanner} {tokens : List Token}
    (read : s.number = .ok (tokens, next)) : ∀ token ∈ tokens, token.Sound := by
  have sound (n : Number) : (tokenAt s.place .number (.number n)).Sound :=
    ⟨(by intro same; cases same), fun _ => ⟨n, rfl⟩, (by intro same; cases same)⟩
  unfold number at read
  dsimp only at read
  split at read
  · split at read
    · cases read
    · exact take_sound read (sound _)
  · exact take_sound read (sound _)

theorem string_sound {s next : Scanner} {quote : Char} {cs : List Char} {tokens : List Token}
    (read : s.string quote cs = .ok (tokens, next)) : ∀ token ∈ tokens, token.Sound := by
  unfold string at read
  split at read
  · exact take_sound read
      ⟨(by intro same; cases same), (by intro same; cases same), fun _ => ⟨_, rfl⟩⟩
  · cases read

/-- No operator, delimiter or keyword has a kind with a literal of its own. -/
theorem twoCharOperators_plain : ∀ entry ∈ Token.twoCharOperators,
    entry.2 ≠ .identifier ∧ entry.2 ≠ .number ∧ entry.2 ≠ .string := by decide

theorem oneCharSigns_plain : ∀ entry ∈ Token.oneCharSigns,
    entry.2 ≠ .identifier ∧ entry.2 ≠ .number ∧ entry.2 ≠ .string := by decide

theorem keywords_plain : ∀ entry ∈ Token.keywords,
    entry.2 ≠ .number ∧ entry.2 ≠ .string := by decide

theorem mem_of_lookup {α β : Type} [BEq α] [LawfulBEq α] {key : α} {value : β}
    {entries : List (α × β)} (found : entries.lookup key = some value) :
    (key, value) ∈ entries := by
  obtain ⟨before, after, rfl, -⟩ := List.lookup_eq_some_iff.mp found
  simp

theorem name_sound (place : Place) (cs : List Char) :
    (tokenAt place (Token.wordKind (String.ofList (cs.takeWhile Token.isNamePart)))
      (.text (String.ofList (cs.takeWhile Token.isNamePart)))).Sound := by
  have parts : ∀ c ∈ (String.ofList (cs.takeWhile Token.isNamePart)).toList,
      Token.isNamePart c = true := by
    intro c member
    rw [String.toList_ofList] at member
    exact List.all_eq_true.mp List.all_takeWhile c member
  have plain : ∀ word, Token.wordKind word ≠ .number ∧ Token.wordKind word ≠ .string := by
    intro word
    unfold Token.wordKind
    cases found : Token.keywords.lookup word with
    | none => decide
    | some kind => exact keywords_plain _ (mem_of_lookup found)
  exact ⟨fun _ => ⟨_, rfl, parts⟩, fun same => absurd same (plain _).1,
    fun same => absurd same (plain _).2⟩

theorem word_sound {s next : Scanner} {c : Char} {cs : List Char} {tokens : List Token}
    (read : s.word c cs = .ok (tokens, next)) : ∀ token ∈ tokens, token.Sound := by
  unfold word at read
  split at read
  · exact skip_sound read
  split at read
  · exact skip_sound read
  split at read
  · dsimp only at read
    split at read
    · cases read
      simp
    · cases read
      intro token member
      rw [List.mem_singleton.mp member]
      exact tokenAt_sound (by decide) (by decide) (by decide)
  split at read
  · next kind found =>
    obtain ⟨d, -, found⟩ := Option.bind_eq_some_iff.mp found
    have plain := twoCharOperators_plain _ (mem_of_lookup found)
    exact take_sound read (tokenAt_sound plain.1 plain.2.1 plain.2.2)
  split at read
  · next kind found =>
    have plain := oneCharSigns_plain _ (mem_of_lookup found)
    exact take_sound read (tokenAt_sound plain.1 plain.2.1 plain.2.2)
  split at read
  · exact number_sound read
  split at read
  · exact string_sound read
  split at read
  · exact take_sound read (name_sound _ _)
  · cases read

theorem finish_sound (s : Scanner) : ∀ token ∈ s.finish, token.Sound := by
  intro token member
  unfold finish at member
  rcases List.mem_append.mp member with closing | last
  · rw [List.eq_of_mem_replicate closing]
    exact tokenAt_sound (by decide) (by decide) (by decide)
  · rw [List.mem_singleton.mp last]
    exact tokenAt_sound (by decide) (by decide) (by decide)

theorem advance_sound {s : Scanner} {next : Option Scanner} {tokens : List Token}
    (read : s.advance = .ok (tokens, next)) : ∀ token ∈ tokens, token.Sound := by
  unfold advance at read
  split at read
  · cases result : s.layout with
    | error failure => simp [result, Except.map] at read
    | ok pair =>
      simp only [result, Except.map, Except.ok.injEq, Prod.mk.injEq] at read
      obtain ⟨rfl, -⟩ := read
      exact layout_sound result
  split at read
  · cases read
    exact finish_sound s
  · next c cs _ =>
    cases result : s.word c cs with
    | error failure => simp [result, Except.map] at read
    | ok pair =>
      simp only [result, Except.map, Except.ok.injEq, Prod.mk.injEq] at read
      obtain ⟨rfl, -⟩ := read
      exact word_sound result

theorem run_sound (fuel : Nat) : ∀ (s : Scanner) (found : List Token),
    (∀ token ∈ found, token.Sound) → ∀ token ∈ (run fuel s found).1, token.Sound := by
  induction fuel with
  | zero =>
    intro s found sound token member
    exact sound token (List.mem_reverse.mp member)
  | succ fuel ih =>
    intro s found sound
    have grown {tokens : List Token} (new : ∀ token ∈ tokens, token.Sound) :
        ∀ token ∈ tokens.reverse ++ found, token.Sound := by
      intro token member
      rcases List.mem_append.mp member with here | there
      · exact new token (List.mem_reverse.mp here)
      · exact sound token there
    unfold run
    split
    · intro token member
      exact sound token (List.mem_reverse.mp member)
    · next tokens result =>
      intro token member
      exact grown (advance_sound result) token (List.mem_reverse.mp member)
    · next tokens s' result => exact ih s' _ (grown (advance_sound result))

end Scanner

theorem Token.tokenize_sound {source filename : String} {tokens : List Token}
    (read : Token.tokenize source filename = .ok tokens) : ∀ token ∈ tokens, token.Sound := by
  have sound := Scanner.run_sound (Scanner.start source filename).moves
    (Scanner.start source filename) [] (by simp)
  unfold Token.tokenize Token.scan at read
  dsimp only at read
  split at read
  · next found same =>
    cases read
    rwa [same] at sound
  · cases read

end Stepwise
