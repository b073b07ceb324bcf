import Stepwise.Proofs.Code.Operand
import Stepwise.Proofs.Printing.Printer
import Stepwise.Proofs.Reading.Tokens
import Stepwise.Proofs.Scanning.Spellings

/-!
Scanning a word. A word is scanned as it was meant when the character behind it cannot belong to it:
`advance_lexeme`.
-/
namespace Stepwise

namespace Printing

open Token (Kind)

namespace Lexeme

/-- A word that can be scanned. -/
def Valid : Lexeme → Prop
  | word s => ∃ first rest, s.toList = first :: rest ∧ Token.isNameStart first = true ∧
      ∀ c ∈ rest, Token.isNamePart c = true
  | sign s kind => (∃ c, s.toList = [c] ∧ Token.oneCharSigns.lookup c = some kind) ∨
      ∃ c d, s.toList = [c, d] ∧ Token.twoCharOperators.lookup (c, d) = some kind
  | whole n => (Nat.toDigits 10 n).length ≤ Decimal.digitLimit
  | decimal digits x => Spells digits x
  | quoted s => '\r' ∉ s.toList

/-- The text behind a word does not go on with it. -/
def Ends : Lexeme → List Char → Prop
  | word _, rest => ∀ c ∈ rest.head?, Token.isNamePart c = false
  | sign s _, rest => ∀ c, s.toList = [c] →
      ∀ d ∈ rest.head?, Token.twoCharOperators.lookup (c, d) = none
  | whole _, rest => (∀ c ∈ rest.head?, c.isDigit = false) ∧
      ∀ d cs, rest = '.' :: d :: cs → d.isDigit = false
  | decimal _ _, rest => ∀ c ∈ rest.head?, c.isDigit = false
  | quoted _, _ => True

end Lexeme

/-- Characters that words of letters, numbers and strings start with; no operator starts with one. -/
def Leads (c : Char) : Prop := Token.isNameStart c = true ∨ c.isDigit = true ∨ c = '"'

theorem leads_blank {c : Char} (leads : Leads c) :
    (c ≠ ' ' ∧ c ≠ '\t') ∧ c ≠ '#' ∧ c ≠ '\n' := by
  refine ⟨⟨?_, ?_⟩, ?_, ?_⟩ <;>
  · rintro rfl
    revert leads
    unfold Leads
    decide

theorem lookup_eq_none {α β : Type} [BEq α] [LawfulBEq α] {table : List (α × β)} {key : α}
    (apart : ∀ entry ∈ table, entry.1 ≠ key) : table.lookup key = none := by
  rw [List.lookup_eq_none_iff]
  intro entry member
  rw [bne_iff_ne]
  exact (apart entry member).symm

theorem isDigit_of_isNameStart {c : Char} (start : Token.isNameStart c = true) :
    c.isDigit = false := by
  simp only [Token.isNameStart, Bool.or_eq_true, decide_eq_true_eq, Bool.and_eq_true] at start
  have apart : ¬ (48 ≤ c.toNat ∧ c.toNat ≤ 57) := by
    rcases start with (rfl | alpha) | ⟨low, -⟩
    · decide
    · have alpha : (decide (c.val ≥ 'A'.val ∧ c.val ≤ 'Z'.val) ||
          decide (c.val ≥ 'a'.val) && decide (c.val ≤ 'z'.val)) = true := alpha
      simp only [Bool.or_eq_true, Bool.and_eq_true, decide_eq_true_eq, ge_iff_le,
        UInt32.le_iff_toNat_le] at alpha
      change ((65 ≤ c.toNat ∧ c.toNat ≤ 90) ∨ (97 ≤ c.toNat ∧ c.toNat ≤ 122)) at alpha
      omega
    · omega
  by_contra digit
  simp only [Bool.not_eq_false, Char.isDigit, Bool.and_eq_true, decide_eq_true_eq, ge_iff_le,
    UInt32.le_iff_toNat_le] at digit
  exact apart digit

theorem not_leads {c : Char} (start : Token.isNameStart c = false) (digit : c.isDigit = false)
    (quote : c ≠ '"') : ¬ Leads c := by
  simp [Leads, start, digit, quote]

theorem leads_operator {c : Char} (leads : Leads c) (d : Char) :
    Token.twoCharOperators.lookup (c, d) = none := by
  have apart : ∀ entry ∈ Token.twoCharOperators, Token.isNameStart entry.1.1 = false ∧
      entry.1.1.isDigit = false ∧ entry.1.1 ≠ '"' := by decide
  apply lookup_eq_none
  intro entry member same
  obtain ⟨start, digit, quote⟩ := apart entry member
  rw [same] at start digit quote
  exact not_leads start digit quote leads

theorem leads_sign {c : Char} (leads : Leads c) : Token.oneCharSigns.lookup c = none := by
  have apart : ∀ entry ∈ Token.oneCharSigns, Token.isNameStart entry.1 = false ∧
      entry.1.isDigit = false ∧ entry.1 ≠ '"' := by decide
  apply lookup_eq_none
  intro entry member same
  obtain ⟨start, digit, quote⟩ := apart entry member
  rw [same] at start digit quote
  exact not_leads start digit quote leads

/-- A character that leads a word is neither layout nor part of an operator. -/
theorem word_of_leads {s : Scanner} {c : Char} {cs : List Char} (leads : Leads c) :
    s.word c cs =
      if c.isDigit then s.number
      else if c = '"' || c = '\'' then s.string c cs
      else if Token.isNameStart c then
        let name := s.rest.takeWhile Token.isNamePart
        s.take name.length (Token.wordKind (String.ofList name)) (.text (String.ofList name))
      else .error (s.stranger c) := by
  obtain ⟨⟨blank, tab⟩, comment, feed⟩ := leads_blank leads
  have operator : (cs.head?.bind fun d => Token.twoCharOperators.lookup (c, d)) = none := by
    cases cs.head? with
    | none => rfl
    | some d => exact leads_operator leads d
  unfold Scanner.word
  simp [blank, tab, comment, feed, operator, leads_sign leads]

theorem takeWhile_append_of_head {p : Char → Bool} {cs rest : List Char} (all : ∀ c ∈ cs, p c = true)
    (ends : ∀ c ∈ rest.head?, p c = false) : (cs ++ rest).takeWhile p = cs := by
  rw [List.takeWhile_append_of_pos all]
  cases rest with
  | nil => simp
  | cons c rest =>
    have stop := ends c (by simp)
    simp [stop]

/-- What the scanner gives for a word. -/
def scanned (s : Scanner) (x : Lexeme) (rest : List Char) : Except Failure (List Token × Scanner) :=
  .ok ([Scanner.tokenAt s.place x.kind x.literal],
    { s with rest, place := s.place.afterAll x.chars, last := some x.kind })

theorem take_lexeme {s : Scanner} {x : Lexeme} {rest : List Char} (here : s.rest = x.chars ++ rest) :
    s.take x.chars.length x.kind x.literal = scanned s x rest := by
  unfold Scanner.take scanned
  simp [here]

theorem word_name {s : Scanner} {name : String} {rest cs : List Char} {c : Char}
    (valid : (Lexeme.word name).Valid) (ends : (Lexeme.word name).Ends rest)
    (here : s.rest = (Lexeme.word name).chars ++ rest) (first : s.rest = c :: cs) :
    s.word c cs = scanned s (.word name) rest := by
  obtain ⟨start, tail, letters, isStart, parts⟩ := valid
  have same : start = c := by
    rw [here, Lexeme.chars, letters] at first
    exact (List.cons.inj first).1
  subst same
  have all : ∀ ch ∈ name.toList, Token.isNamePart ch = true := by
    intro ch member
    rw [letters] at member
    rcases List.mem_cons.mp member with rfl | member
    · simp [Token.isNamePart, isStart]
    · exact parts ch member
  have quotes : (start = '"' || start = '\'') = false := by
    by_contra quote
    simp only [Bool.not_eq_false, Bool.or_eq_true, decide_eq_true_eq] at quote
    rcases quote with rfl | rfl <;> exact absurd isStart (by decide)
  have taken : s.rest.takeWhile Token.isNamePart = name.toList := by
    rw [here]
    exact takeWhile_append_of_head all ends
  rw [word_of_leads (.inl isStart), isDigit_of_isNameStart isStart, if_neg (by decide), quotes,
    if_neg (by decide), if_pos isStart, taken]
  dsimp only
  rw [String.ofList_toList]
  exact take_lexeme here

/-- The digits of a numeral without a fraction. -/
theorem numeral_whole {cs rest : List Char} (digits : ∀ c ∈ cs, c.isDigit = true)
    (ends : ∀ c ∈ rest.head?, c.isDigit = false)
    (pointed : ∀ d ds, rest = '.' :: d :: ds → d.isDigit = false) :
    Scanner.numeral (cs ++ rest) = (cs, []) := by
  have taken : (cs ++ rest).takeWhile Char.isDigit = cs := takeWhile_append_of_head digits ends
  unfold Scanner.numeral
  simp only [taken, List.drop_left]
  split
  · next tail =>
    cases tail with
    | nil => rfl
    | cons d ds => simp [pointed d ds rfl]
  · rfl

theorem numeral_decimal {whole fraction rest : List Char}
    (digits : ∀ c ∈ whole ++ fraction, c.isDigit = true)
    (ends : ∀ c ∈ rest.head?, c.isDigit = false) :
    Scanner.numeral ((whole ++ '.' :: fraction) ++ rest) = (whole, fraction) := by
  have taken : (whole ++ '.' :: (fraction ++ rest)).takeWhile Char.isDigit = whole :=
    takeWhile_append_of_head (fun c member => digits c (by simp [member])) (by simp [Char.isDigit])
  unfold Scanner.numeral
  simp only [List.append_assoc, List.cons_append, taken, List.drop_left]
  rw [takeWhile_append_of_head (fun c member => digits c (by simp [member])) ends]

theorem word_whole {s : Scanner} {n : Nat} {rest cs : List Char} {c : Char}
    (valid : (Lexeme.whole n).Valid) (ends : (Lexeme.whole n).Ends rest)
    (here : s.rest = (Lexeme.whole n).chars ++ rest) (first : s.rest = c :: cs) :
    s.word c cs = scanned s (.whole n) rest := by
  have digits : ∀ d ∈ Nat.toDigits 10 n, d.isDigit = true :=
    fun d member => Nat.isDigit_of_mem_toDigits (by decide) (by decide) member
  have digit : c.isDigit = true := by
    apply digits
    rw [here, Lexeme.chars] at first
    cases written : Nat.toDigits 10 n with
    | nil => exact absurd written (Nat.toDigits_ne_nil)
    | cons d ds =>
      rw [written] at first
      simp [(List.cons.inj first).1]
  have read : Scanner.numeral s.rest = (Nat.toDigits 10 n, []) := by
    rw [here]
    exact numeral_whole digits ends.1 ends.2
  rw [word_of_leads (.inr (.inl digit)), if_pos digit]
  unfold Scanner.number
  rw [read]
  simp only [List.isEmpty_nil, if_true]
  rw [if_neg (Nat.not_lt.mpr valid), Decimal.numeral_toDigits]
  exact take_lexeme here

theorem word_decimal {s : Scanner} {written : List Char × List Char} {x : Float}
    {rest cs : List Char} {c : Char} (valid : (Lexeme.decimal written x).Valid)
    (ends : (Lexeme.decimal written x).Ends rest)
    (here : s.rest = (Lexeme.decimal written x).chars ++ rest) (first : s.rest = c :: cs) :
    s.word c cs = scanned s (.decimal written x) rest := by
  have digit : c.isDigit = true := by
    rw [here, Lexeme.chars] at first
    cases digits : written.1 with
    | nil => exact absurd digits valid.whole
    | cons d ds =>
      rw [digits] at first
      apply valid.digits
      simp [digits, (List.cons.inj first).1]
  have read : Scanner.numeral s.rest = written := by
    rw [here]
    exact numeral_decimal valid.digits ends
  have length : written.1.length + 1 + written.2.length = (Lexeme.decimal written x).chars.length := by
    simp only [Lexeme.chars, List.length_append, List.length_cons]
    omega
  rw [word_of_leads (.inr (.inl digit)), if_pos digit]
  unfold Scanner.number
  rw [read]
  dsimp only
  rw [if_neg (by simpa using valid.fraction), valid.reads, length]
  exact take_lexeme here

theorem escaped_eq (c : Char) : escaped c = Token.escapeIn '"' c := by
  unfold escaped Token.escapeIn
  split
  · rfl
  · rfl
  · rfl
  · rfl
  · next slash quote feed tab => rw [if_neg slash, if_neg quote, if_neg feed, if_neg tab]

theorem word_quoted {s : Scanner} {t : String} {rest cs : List Char} {c : Char}
    (here : s.rest = (Lexeme.quoted t).chars ++ rest) (first : s.rest = c :: cs) :
    s.word c cs = scanned s (.quoted t) rest := by
  have parts := here.symm.trans first
  simp only [Lexeme.chars, List.cons_append, List.append_assoc, List.nil_append] at parts
  obtain ⟨rfl, rfl⟩ := List.cons.inj parts
  rw [word_of_leads (.inr (.inr rfl)), if_neg (by decide), if_pos (by decide)]
  unfold Scanner.string
  rw [funext escaped_eq, Scanner.stringBody_escaped (.inl rfl), ← funext escaped_eq]
  simp only [String.ofList_toList]
  have length : (t.toList.flatMap escaped).length + 1 + 1 = (Lexeme.quoted t).chars.length := by
    simp [Lexeme.chars]
  rw [length]
  exact take_lexeme here

/-- No sign is layout. -/
theorem signs_blank : (∀ entry ∈ Token.oneCharSigns, entry.1 ≠ ' ' ∧ entry.1 ≠ '\t' ∧ entry.1 ≠ '#' ∧
    entry.1 ≠ '\n') ∧ ∀ entry ∈ Token.twoCharOperators, entry.1.1 ≠ ' ' ∧ entry.1.1 ≠ '\t' ∧
    entry.1.1 ≠ '#' ∧ entry.1.1 ≠ '\n' := by decide

theorem word_sign {s : Scanner} {sign : String} {kind : Kind} {rest cs : List Char} {c : Char}
    (valid : (Lexeme.sign sign kind).Valid) (ends : (Lexeme.sign sign kind).Ends rest)
    (here : s.rest = (Lexeme.sign sign kind).chars ++ rest) (first : s.rest = c :: cs) :
    s.word c cs = scanned s (.sign sign kind) rest := by
  have parts := here.symm.trans first
  have taken := take_lexeme here
  rcases valid with ⟨d, letters, found⟩ | ⟨d, d', letters, found⟩
  · simp only [Lexeme.chars, letters, List.cons_append, List.nil_append] at parts
    obtain ⟨rfl, rfl⟩ := List.cons.inj parts
    obtain ⟨blank, tab, comment, feed⟩ := signs_blank.1 _ (Scanner.mem_of_lookup found)
    have single : (rest.head?.bind fun e => Token.twoCharOperators.lookup (d, e)) = none := by
      cases same : rest.head? with
      | none => rfl
      | some e => exact ends d letters e same
    have text : String.ofList [d] = sign := by rw [← letters, String.ofList_toList]
    unfold Scanner.word
    simp only [blank, tab, comment, feed, single, found, text, Bool.or_self, decide_false,
      Bool.false_eq_true, if_false]
    rw [show (Lexeme.sign sign kind).chars.length = 1 by simp [Lexeme.chars, letters]] at taken
    exact taken
  · simp only [Lexeme.chars, letters, List.cons_append, List.nil_append] at parts
    obtain ⟨rfl, rfl⟩ := List.cons.inj parts
    obtain ⟨blank, tab, comment, feed⟩ := signs_blank.2 _ (Scanner.mem_of_lookup found)
    have double : ((d' :: rest).head?.bind fun e => Token.twoCharOperators.lookup (d, e)) =
        some kind := found
    have text : String.ofList (s.rest.take 2) = sign := by
      rw [first]
      simp only [List.take_succ_cons, List.take_zero]
      rw [← letters, String.ofList_toList]
    unfold Scanner.word
    simp only [blank, tab, comment, feed, double, text, Bool.or_self, decide_false,
      Bool.false_eq_true, if_false]
    rw [show (Lexeme.sign sign kind).chars.length = 2 by simp [Lexeme.chars, letters]] at taken
    exact taken

theorem chars_of_valid {x : Lexeme} (valid : x.Valid) : ∃ c cs, x.chars = c :: cs := by
  cases x with
  | word name =>
    obtain ⟨c, cs, letters, -⟩ := valid
    exact ⟨c, cs, letters⟩
  | sign sign kind =>
    rcases valid with ⟨c, letters, -⟩ | ⟨c, d, letters, -⟩
    · exact ⟨c, [], letters⟩
    · exact ⟨c, [d], letters⟩
  | whole n => exact List.exists_cons_of_ne_nil Nat.toDigits_ne_nil
  | decimal written x =>
    obtain ⟨c, cs, digits⟩ := List.exists_cons_of_ne_nil valid.whole
    exact ⟨c, _, by rw [Lexeme.chars, digits]; rfl⟩
  | quoted t => exact ⟨'"', _, rfl⟩

/-- No word starts like layout does. -/
theorem visible_of_valid {x : Lexeme} (valid : x.Valid) {c : Char} {cs : List Char}
    (letters : x.chars = c :: cs) : c ≠ ' ' ∧ c ≠ '\t' ∧ c ≠ '#' ∧ c ≠ '\n' := by
  have leading (leads : Leads c) : c ≠ ' ' ∧ c ≠ '\t' ∧ c ≠ '#' ∧ c ≠ '\n' := by
    obtain ⟨⟨blank, tab⟩, comment, feed⟩ := leads_blank leads
    exact ⟨blank, tab, comment, feed⟩
  cases x with
  | word name =>
    obtain ⟨d, ds, same, start, -⟩ := valid
    obtain ⟨rfl, -⟩ := List.cons.inj (letters.symm.trans same)
    exact leading (.inl start)
  | sign sign kind =>
    rcases valid with ⟨d, same, found⟩ | ⟨d, d', same, found⟩
    · obtain ⟨rfl, -⟩ := List.cons.inj (letters.symm.trans same)
      exact signs_blank.1 _ (Scanner.mem_of_lookup found)
    · obtain ⟨rfl, -⟩ := List.cons.inj (letters.symm.trans same)
      exact signs_blank.2 _ (Scanner.mem_of_lookup found)
  | whole n =>
    refine leading (.inr (.inl ?_))
    have inside : c ∈ Nat.toDigits 10 n := by
      change Nat.toDigits 10 n = c :: cs at letters
      simp [letters]
    exact Nat.isDigit_of_mem_toDigits (by decide) (by decide) inside
  | decimal written y =>
    refine leading (.inr (.inl ?_))
    obtain ⟨d, ds, digits⟩ := List.exists_cons_of_ne_nil valid.whole
    change written.1 ++ '.' :: written.2 = c :: cs at letters
    rw [digits] at letters
    obtain ⟨rfl, -⟩ := List.cons.inj letters
    exact valid.digits d (by simp [digits])
  | quoted t =>
    obtain ⟨rfl, -⟩ := List.cons.inj letters
    exact leading (.inr (.inr rfl))

theorem return_escaped {c : Char} (other : c ≠ '\r') : '\r' ∉ escaped c := by
  unfold escaped
  split
  · decide
  · decide
  · decide
  · decide
  · simpa using other.symm

/-- No word holds a carriage return. -/
theorem return_free {x : Lexeme} (valid : x.Valid) : '\r' ∉ x.chars := by
  have signs : (∀ entry ∈ Token.oneCharSigns, entry.1 ≠ '\r') ∧
      ∀ entry ∈ Token.twoCharOperators, entry.1.1 ≠ '\r' ∧ entry.1.2 ≠ '\r' := by decide
  cases x with
  | word name =>
    obtain ⟨c, cs, letters, start, parts⟩ := valid
    change '\r' ∉ name.toList
    rw [letters, List.mem_cons]
    rintro (rfl | member)
    · exact absurd start (by decide)
    · exact absurd (parts _ member) (by decide)
  | sign sign kind =>
    change '\r' ∉ sign.toList
    rcases valid with ⟨c, letters, found⟩ | ⟨c, d, letters, found⟩
    · rw [letters]
      simpa using (signs.1 _ (Scanner.mem_of_lookup found)).symm
    · rw [letters]
      simpa using And.imp Ne.symm Ne.symm (signs.2 _ (Scanner.mem_of_lookup found))
  | whole n =>
    intro member
    exact absurd (Nat.isDigit_of_mem_toDigits (by decide) (by decide) member) (by decide)
  | decimal written y =>
    change '\r' ∉ written.1 ++ '.' :: written.2
    intro member
    rw [List.mem_append, List.mem_cons] at member
    have digit : '\r' ∈ written.1 ++ written.2 := by
      rcases member with inside | same | inside
      · exact List.mem_append_left _ inside
      · exact absurd same (by decide)
      · exact List.mem_append_right _ inside
    exact absurd (valid.digits _ digit) (by decide)
  | quoted t =>
    change '\r' ∉ '"' :: t.toList.flatMap escaped ++ ['"']
    have inner : '\r' ∉ t.toList.flatMap escaped := by
      intro member
      obtain ⟨c, inside, escape⟩ := List.mem_flatMap.mp member
      refine return_escaped ?_ escape
      rintro rfl
      exact valid inside
    simpa using inner

/-- A word is scanned as it was meant, wherever the text behind it does not go on with it. -/
theorem advance_lexeme {s : Scanner} {x : Lexeme} {rest : List Char} (valid : x.Valid)
    (ends : x.Ends rest) (inLine : s.atLineStart = false) (here : s.rest = x.chars ++ rest) :
    s.advance = .ok ([Scanner.tokenAt s.place x.kind x.literal],
      some { s with rest, place := s.place.afterAll x.chars, last := some x.kind }) := by
  obtain ⟨c, ds, letters⟩ := chars_of_valid valid
  have first : s.rest = c :: (ds ++ rest) := by
    rw [here, letters]
    rfl
  have read : s.word c (ds ++ rest) = scanned s x rest := by
    cases x with
    | word name => exact word_name valid ends here first
    | sign sign kind => exact word_sign valid ends here first
    | whole n => exact word_whole valid ends here first
    | decimal written x => exact word_decimal valid ends here first
    | quoted t => exact word_quoted here first
  unfold Scanner.advance
  rw [if_neg (by simp [inLine]), first]
  dsimp only
  rw [read]
  rfl

end Printing

end Stepwise
