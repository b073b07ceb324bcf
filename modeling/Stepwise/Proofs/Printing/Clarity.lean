import Stepwise.Proofs.Printing.Lines

/-!
Printed lines can be scanned: behind every word stands something that cannot go on with it. Names
and numbers end at a gap, a bracket or a point; a minus sign ends because no expression starts with
an equals sign.
-/
namespace Stepwise

namespace Printing

open Token (Kind)
open Grammar

variable {spell : Spelling} {gs hs : List Glyph} {rest : List Char}

theorem scannable_append (first : Scannable gs (text hs ++ rest)) (second : Scannable hs rest) :
    Scannable (gs ++ hs) rest := by
  induction gs with
  | nil => exact second
  | cons g gs ih =>
    cases g with
    | gap => exact ih first
    | lexeme x =>
      obtain ⟨valid, ends, tail⟩ := first
      exact ⟨valid, by simpa using ends, ih tail⟩

/-- Characters that end names and numbers. -/
def separators : List Char := [' ', '(', ')', '[', ']', '\x7b', '\x7d', ':', ',']

theorem quiet_separator {c : Char} (separates : c ∈ separators) (cs : List Char) :
    Quiet (c :: cs) := by
  have all : separators.all (fun c => !Token.isNamePart c && c != '.') = true := by decide
  have other := List.all_eq_true.mp all c separates
  rw [Bool.and_eq_true, Bool.not_eq_true', bne_iff_ne] at other
  obtain ⟨apart, other⟩ := other
  exact ⟨by simpa using apart, fun d ds same => absurd (List.cons.inj same).1 other⟩

theorem quiet_dot {c : Char} {cs : List Char} (start : Token.isNameStart c = true) :
    Quiet ('.' :: c :: cs) := by
  refine ⟨by simp; decide, fun d ds same => ?_⟩
  rw [← (List.cons.inj (List.cons.inj same).2).1]
  exact isDigit_of_isNameStart start

theorem isDigit_of_isNamePart {c : Char} (apart : Token.isNamePart c = false) :
    c.isDigit = false := (Bool.or_eq_false_iff.mp apart).2

/-- A word that is no sign ends where the text is quiet. -/
theorem ends_of_quiet {x : Lexeme} (plain : ∀ s k, x ≠ .sign s k) (quiet : Quiet rest) :
    x.Ends rest := by
  cases x with
  | word name => exact quiet.apart
  | sign s k => exact absurd rfl (plain s k)
  | whole n => exact ⟨fun c head => isDigit_of_isNamePart (quiet.apart c head), quiet.point⟩
  | decimal written y => exact fun c head => isDigit_of_isNamePart (quiet.apart c head)
  | quoted t => exact trivial

theorem scannable_plain {x : Lexeme} (valid : x.Valid) (plain : ∀ s k, x ≠ .sign s k)
    (quiet : Quiet (text gs ++ rest)) (tail : Scannable gs rest) : Scannable (.lexeme x :: gs) rest :=
  ⟨valid, ends_of_quiet plain quiet, tail⟩

/-- Every word ends at a gap. -/
theorem scannable_spaced {x : Lexeme} (valid : x.Valid) (tail : Scannable gs rest) :
    Scannable (.lexeme x :: .gap :: gs) rest := by
  refine ⟨valid, ?_, tail⟩
  have quiet : Quiet (text (.gap :: gs) ++ rest) := quiet_separator (c := ' ') (by decide) _
  cases x with
  | sign s k =>
    have blank : ∀ entry ∈ Token.twoCharOperators, entry.1.2 ≠ ' ' := by decide
    intro c _ d head
    cases head
    apply lookup_eq_none
    intro entry member same
    exact blank entry member (by rw [same])
  | word name | whole n | decimal written y | quoted t => exact ends_of_quiet nofun quiet

/-- Signs that no operator starts with, and a point is none of the first. -/
def brackets : List (Char × Kind) :=
  [('(', .lparen), (')', .rparen), ('[', .lbracket), (']', .rbracket), ('\x7b', .lbrace),
   ('\x7d', .rbrace), (':', .colon), (',', .comma)]

def delimiters : List (Char × Kind) := ('.', .dot) :: brackets

theorem scannable_delimiter {s : String} {c : Char} {k : Kind} (letters : s.toList = [c])
    (delimits : (c, k) ∈ delimiters) (tail : Scannable gs rest) : Scannable (sign s k :: gs) rest := by
  have all : ∀ entry ∈ delimiters, Token.oneCharSigns.lookup entry.1 = some entry.2 ∧
      ∀ operator ∈ Token.twoCharOperators, operator.1.1 ≠ entry.1 := by decide
  obtain ⟨found, alone⟩ := all _ delimits
  refine ⟨.inl ⟨c, letters, found⟩, ?_, tail⟩
  intro d same e _
  apply lookup_eq_none
  intro operator member key
  rw [letters, List.singleton_inj] at same
  exact alone operator member (by rw [key, same])

/-- Words and gaps that end a name or a number in front of them. -/
def Fenced (gs : List Glyph) : Prop := ∀ rest, Quiet rest → Quiet (text gs ++ rest)

theorem fenced_nil : Fenced [] := fun _ quiet => quiet

theorem fenced_gap (gs : List Glyph) : Fenced (.gap :: gs) :=
  fun _ _ => quiet_separator (c := ' ') (by decide) _

/-- Brackets, colons and commas end what stands in front of them. -/
theorem fenced_bracket {s : String} {c : Char} {k : Kind} (letters : s.toList = [c])
    (closes : (c, k) ∈ brackets) (gs : List Glyph) : Fenced (sign s k :: gs) := by
  have all : ∀ entry ∈ brackets, entry.1 ∈ separators := by decide
  intro rest _
  have split : text (sign s k :: gs) ++ rest = c :: (text gs ++ rest) := by
    simp [sign, Glyph.chars, Lexeme.chars, letters]
  rw [split]
  exact quiet_separator (all _ closes) _

theorem fenced_member {v : Constant} (good : IsIdentifier v) (gs : List Glyph) :
    Fenced (dot :: name v :: gs) := by
  intro rest _
  obtain ⟨s, c, cs, rfl, letters, start, -⟩ := good
  have split : text (dot :: name (.scalar (.text s)) :: gs) ++ rest =
      '.' :: c :: (cs ++ text gs ++ rest) := by
    simp [dot, sign, name, word, nameText, Glyph.chars, Lexeme.chars, letters]
  rw [split]
  exact quiet_dot start

theorem clear_nil : Clear [] := fun _ _ => trivial

theorem clear_gap (tail : Clear gs) : Clear (.gap :: gs) := tail

theorem clear_append (first : Clear gs) (fenced : Fenced hs) (second : Clear hs) :
    Clear (gs ++ hs) :=
  fun rest quiet => scannable_append (first _ (fenced rest quiet)) (second rest quiet)

theorem clear_delimiter {s : String} {c : Char} {k : Kind} (letters : s.toList = [c])
    (delimits : (c, k) ∈ delimiters) (tail : Clear gs) : Clear (sign s k :: gs) :=
  fun rest quiet => scannable_delimiter letters delimits (tail rest quiet)

theorem clear_spaced {x : Lexeme} (valid : x.Valid) (tail : Clear gs) :
    Clear (.lexeme x :: .gap :: gs) := fun rest quiet => scannable_spaced valid (tail rest quiet)

theorem clear_plain {x : Lexeme} (valid : x.Valid) (plain : ∀ s k, x ≠ .sign s k)
    (fenced : Fenced gs) (tail : Clear gs) : Clear (.lexeme x :: gs) :=
  fun rest quiet => scannable_plain valid plain (fenced rest quiet) (tail rest quiet)

theorem clear_name {v : Constant} (good : IsIdentifier v) (fenced : Fenced gs) (tail : Clear gs) :
    Clear (name v :: gs) := by
  obtain ⟨s, c, cs, rfl, letters, start, parts, -⟩ := good
  exact clear_plain ⟨c, cs, letters, start, parts⟩ nofun fenced tail

/-- The words of the language. -/
def reserved : List String :=
  ["or", "and", "in", "not", "True", "False", "if", "elif", "else", "repeat", "times", "while",
   "for", "range", "break", "continue", "pass", "def", "class", "return"]

theorem valid_reserved {s : String} (known : s ∈ reserved) : (Lexeme.word s).Valid := by
  have all : ∀ s ∈ reserved, s.toList.head?.any Token.isNameStart = true ∧
      s.toList.tail.all Token.isNamePart = true := by decide
  obtain ⟨start, parts⟩ := all s known
  cases letters : s.toList with
  | nil =>
    rw [letters] at start
    cases start
  | cons c cs =>
    rw [letters] at start parts
    exact ⟨c, cs, letters, start, List.all_eq_true.mp parts⟩

theorem clear_reserved {s : String} (known : s ∈ reserved) (fenced : Fenced gs) (tail : Clear gs) :
    Clear (word s :: gs) := clear_plain (valid_reserved known) nofun fenced tail

theorem clear_operator {op : BinaryOp} (known : op.IsKnown) (tail : Clear gs) :
    Clear (operator op :: .gap :: gs) := by
  cases op with
  | or | and | isIn => exact clear_spaced (valid_reserved (by decide)) tail
  | lt | gt | add | sub | mul | div | mod => exact clear_spaced (.inl ⟨_, rfl, rfl⟩) tail
  | eq | ne | le | ge | floorDiv | pow => exact clear_spaced (.inr ⟨_, _, rfl, rfl⟩) tail
  | unknown _ => exact absurd known id

theorem clear_update {op : UpdateOp} (known : op.IsKnown) (tail : Clear gs) :
    Clear (updateSign op :: .gap :: gs) := by
  cases op with
  | add | sub | mul | div => exact clear_spaced (.inr ⟨_, _, rfl, rfl⟩) tail
  | unknown _ => exact absurd known id

/-- A line or an expression starts with a word that does not start like an equals sign. -/
def Opens (gs : List Glyph) : Prop := ∃ x hs, gs = .lexeme x :: hs ∧ x.chars.head? ≠ some '='

/-- A minus sign in front of an expression is a word of its own. -/
theorem clear_minus (opens : Opens gs) (tail : Clear gs) : Clear (minus :: gs) := by
  intro rest quiet
  refine ⟨.inl ⟨'-', rfl, rfl⟩, ?_, tail rest quiet⟩
  obtain ⟨x, hs, rfl, other⟩ := opens
  obtain ⟨c, cs, letters⟩ := chars_of_valid (tail rest quiet).1
  have only : ∀ entry ∈ Token.twoCharOperators, entry.1.1 = '-' → entry.1.2 = '=' := by decide
  intro d same e head
  have minus : '-' = d := List.singleton_inj.mp same
  have first : c = e := by simpa [Glyph.chars, letters] using head
  apply lookup_eq_none
  intro entry member key
  apply other
  rw [letters, List.head?_cons, first, ← only entry member (by rw [key, minus]), key]

theorem opens_append (opens : Opens gs) (hs : List Glyph) : Opens (gs ++ hs) := by
  obtain ⟨x, tail, rfl, other⟩ := opens
  exact ⟨x, tail ++ hs, rfl, other⟩

theorem opens_name {v : Constant} (good : IsIdentifier v) (gs : List Glyph) :
    Opens (name v :: gs) := by
  obtain ⟨s, c, cs, rfl, letters, start, -⟩ := good
  refine ⟨_, gs, rfl, ?_⟩
  intro head
  have same : c = '=' := by simpa [nameText, Lexeme.chars, letters] using head
  rw [same] at start
  exact absurd start (by decide)

theorem opens_bracketed {l m : Level} (opens : Opens gs) : Opens (bracketed l m gs) := by
  unfold bracketed
  split
  · exact opens
  · exact ⟨_, _, rfl, by decide⟩

theorem clear_bracketed {l m : Level} (clear : Clear gs) : Clear (bracketed l m gs) := by
  unfold bracketed
  split
  · exact clear
  · exact clear_append (clear_delimiter rfl (by decide) clear) (fenced_bracket rfl (by decide) _)
      (clear_delimiter rfl (by decide) clear_nil)

theorem literal_opens {form : LiteralForm} {value : Constant}
    (fits : LiteralWritable spell form value) : Opens (literal spell value) := by
  unfold LiteralWritable at fits
  split at fits
  · next n =>
    refine ⟨_, [], rfl, fun head => ?_⟩
    have digit := Nat.isDigit_of_mem_toDigits (by decide) (by decide) (List.mem_of_mem_head? head)
    exact absurd digit (by decide)
  · next x =>
    refine ⟨_, [], rfl, fun head => ?_⟩
    obtain ⟨d, ds, digits⟩ := List.exists_cons_of_ne_nil fits.whole
    have same : d = '=' := by simpa [Lexeme.chars, digits] using head
    have digit := fits.digits d (by simp [digits])
    rw [same] at digit
    exact absurd digit (by decide)
  · obtain ⟨s, rfl, -⟩ := fits
    exact ⟨_, [], rfl, by simp [Lexeme.chars]⟩
  · obtain ⟨b, rfl⟩ := fits
    cases b with
    | true => exact ⟨_, [], rfl, by decide⟩
    | false => exact ⟨_, [], rfl, by decide⟩
  · exact absurd fits id

theorem literal_clear {form : LiteralForm} {value : Constant}
    (fits : LiteralWritable spell form value) : Clear (literal spell value) := by
  unfold LiteralWritable at fits
  split at fits
  · exact clear_plain fits.2 nofun fenced_nil clear_nil
  · exact clear_plain fits nofun fenced_nil clear_nil
  · obtain ⟨s, rfl, free⟩ := fits
    exact clear_plain free nofun fenced_nil clear_nil
  · obtain ⟨b, rfl⟩ := fits
    cases b with
    | true => exact clear_reserved (by decide) fenced_nil clear_nil
    | false => exact clear_reserved (by decide) fenced_nil clear_nil
  · exact absurd fits id

/-- A printed expression starts with a word, and not with an equals sign. -/
theorem expression_opens (spell : Spelling) : ∀ e : Expr, e.Every (ExprWritable spell) → ∀ l,
    Opens (expression spell l e)
  | .literal _ _ _, good, _ => literal_opens good
  | .var _ v, good, _ => opens_name good []
  | .binary _ op a _, ⟨_, left, _⟩, l =>
    opens_bracketed (opens_append (expression_opens spell a left _) _)
  | .unary _ .not _, _, l => opens_bracketed ⟨_, _, rfl, by decide⟩
  | .unary _ .neg _, _, l => opens_bracketed ⟨_, _, rfl, by decide⟩
  | .unary _ (.unknown _) _, ⟨known, _⟩, _ => absurd known id
  | .call _ _ _, ⟨good, _⟩, _ => opens_name good _
  | .new _ _ _, ⟨good, _⟩, _ => absurd good id
  | .invoke _ object _ _, ⟨_, inside, _⟩, l =>
    opens_bracketed (opens_append (opens_append (expression_opens spell object inside _) _) _)
  | .list _ _, _, _ => ⟨_, _, rfl, by decide⟩
  | .record _ _, _, _ => ⟨_, _, rfl, by decide⟩
  | .index _ object _, ⟨_, inside, _⟩, l =>
    opens_bracketed (opens_append (opens_append (expression_opens spell object inside _) _) _)
  | .slice _ object _ _, ⟨_, inside, _⟩, l =>
    opens_bracketed (opens_append (opens_append (opens_append
      (expression_opens spell object inside _) _) _) _)
  | .member _ object _, ⟨_, inside⟩, l =>
    opens_bracketed (opens_append (expression_opens spell object inside _) _)
  | .alien _, good, _ => absurd good id

theorem expressionsAfter_fenced (es : List Expr) : Fenced (expressionsAfter spell es) := by
  cases es with
  | nil => exact fenced_nil
  | cons e es => exact fenced_bracket rfl (by decide) _

theorem entriesAfter_fenced (fields : List (Constant × Expr)) :
    Fenced (entriesAfter spell fields) := by
  cases fields with
  | nil => exact fenced_nil
  | cons field fields => exact fenced_bracket rfl (by decide) _

theorem clear_key {k : Constant} (good : IsText k) (fenced : Fenced gs) (tail : Clear gs) :
    Clear (key k :: gs) := by
  obtain ⟨s, rfl, free⟩ := good
  exact clear_plain free nofun fenced tail

/-- What stands in brackets, with the closing one. -/
theorem clear_closed {s : String} {c : Char} {k : Kind} (letters : s.toList = [c])
    (closes : (c, k) ∈ brackets) (inside : Clear gs) : Clear (gs ++ [sign s k]) :=
  clear_append inside (fenced_bracket letters closes [])
    (clear_delimiter letters (List.mem_cons_of_mem _ closes) clear_nil)

mutual

/-- A printed expression can be scanned. -/
theorem expression_clear (spell : Spelling) : ∀ e : Expr, e.Every (ExprWritable spell) → ∀ l,
    Clear (expression spell l e)
  | .literal _ _ _, good, _ => literal_clear good
  | .var _ v, good, _ => clear_name good fenced_nil clear_nil
  | .binary _ op a b, ⟨known, left, right⟩, l => by
    apply clear_bracketed
    exact clear_append (expression_clear spell a left _) (fenced_gap _)
      (clear_operator known (expression_clear spell b right _))
  | .unary _ .not e, ⟨_, operand⟩, l =>
    clear_bracketed (clear_spaced (valid_reserved (by decide)) (expression_clear spell e operand _))
  | .unary _ .neg e, ⟨_, operand⟩, l =>
    clear_bracketed (clear_minus (expression_opens spell e operand _)
      (expression_clear spell e operand _))
  | .unary _ (.unknown _) _, ⟨known, _⟩, _ => absurd known id
  | .call _ callee args, ⟨good, each⟩, _ =>
    clear_closed rfl (by decide) (clear_name good (fenced_bracket rfl (by decide) _)
      (clear_delimiter rfl (by decide) (expressions_clear spell args each)))
  | .new _ _ _, ⟨good, _⟩, _ => absurd good id
  | .invoke _ object method args, ⟨good, inside, each⟩, l => by
    apply clear_bracketed
    apply clear_closed rfl (by decide)
    apply clear_append (expression_clear spell object inside _) (fenced_member good _)
    exact clear_delimiter rfl (by decide) (clear_name good (fenced_bracket rfl (by decide) _)
      (clear_delimiter rfl (by decide) (expressions_clear spell args each)))
  | .list _ elements, ⟨_, each⟩, _ =>
    clear_closed rfl (by decide) (clear_delimiter rfl (by decide) (expressions_clear spell elements each))
  | .record _ fields, ⟨keys, each⟩, _ =>
    clear_closed rfl (by decide) (clear_delimiter rfl (by decide) (entries_clear spell fields keys each))
  | .index _ object position, ⟨_, inside, within⟩, l => by
    apply clear_bracketed
    apply clear_closed rfl (by decide)
    exact clear_append (expression_clear spell object inside _) (fenced_bracket rfl (by decide) _)
      (clear_delimiter rfl (by decide) (expression_clear spell position within _))
  | .slice _ object start stop, ⟨_, inside, lower, upper⟩, l => by
    apply clear_bracketed
    apply clear_closed rfl (by decide)
    apply clear_append ?_ (fenced_bracket rfl (by decide) _)
      (clear_delimiter rfl (by decide) (bound_clear spell stop upper))
    exact clear_append (expression_clear spell object inside _) (fenced_bracket rfl (by decide) _)
      (clear_delimiter rfl (by decide) (bound_clear spell start lower))
  | .member _ object property, ⟨good, inside⟩, l => by
    apply clear_bracketed
    exact clear_append (expression_clear spell object inside _) (fenced_member good _)
      (clear_delimiter rfl (by decide) (clear_name good fenced_nil clear_nil))
  | .alien _, good, _ => absurd good id

theorem expressions_clear (spell : Spelling) : ∀ es : List Expr,
    Expr.EveryIn (ExprWritable spell) es → Clear (expressions spell es)
  | [], _ => clear_nil
  | e :: es, ⟨first, others⟩ =>
    clear_append (expression_clear spell e first _) (expressionsAfter_fenced es)
      (expressionsAfter_clear spell es others)

theorem expressionsAfter_clear (spell : Spelling) : ∀ es : List Expr,
    Expr.EveryIn (ExprWritable spell) es → Clear (expressionsAfter spell es)
  | [], _ => clear_nil
  | e :: es, ⟨first, others⟩ =>
    clear_append (clear_delimiter rfl (by decide) (clear_gap (expression_clear spell e first _)))
      (expressionsAfter_fenced es) (expressionsAfter_clear spell es others)

theorem bound_clear (spell : Spelling) : ∀ b : Option Expr,
    Expr.EveryBound (ExprWritable spell) b → Clear (bound spell b)
  | none, _ => clear_nil
  | some e, good => expression_clear spell e good _

theorem entries_clear (spell : Spelling) : ∀ fields : List (Constant × Expr),
    (∀ field ∈ fields, IsText field.1) → Expr.EveryEntry (ExprWritable spell) fields →
      Clear (entries spell fields)
  | [], _, _ => clear_nil
  | (k, e) :: fields, keys, ⟨first, others⟩ => by
    apply clear_append ?_ (entriesAfter_fenced fields)
      (entriesAfter_clear spell fields (fun field member => keys field (by simp [member])) others)
    exact clear_key (keys (k, e) (by simp)) (fenced_bracket rfl (by decide) _)
      (clear_delimiter rfl (by decide) (clear_gap (expression_clear spell e first _)))

theorem entriesAfter_clear (spell : Spelling) : ∀ fields : List (Constant × Expr),
    (∀ field ∈ fields, IsText field.1) → Expr.EveryEntry (ExprWritable spell) fields →
      Clear (entriesAfter spell fields)
  | [], _, _ => clear_nil
  | (k, e) :: fields, keys, ⟨first, others⟩ => by
    apply clear_append ?_ (entriesAfter_fenced fields)
      (entriesAfter_clear spell fields (fun field member => keys field (by simp [member])) others)
    apply clear_delimiter rfl (by decide)
    exact clear_key (keys (k, e) (by simp)) (fenced_bracket rfl (by decide) _)
      (clear_delimiter rfl (by decide) (clear_gap (expression_clear spell e first _)))

end

/-- A line that can be scanned starts with a word. -/
def Legible (heading : List Glyph) : Prop := (∃ x gs, heading = .lexeme x :: gs) ∧ Clear heading

theorem legible_word {s : String} (known : s ∈ reserved) (fenced : Fenced gs) (tail : Clear gs) :
    Legible (word s :: gs) := ⟨⟨_, _, rfl⟩, clear_reserved known fenced tail⟩

theorem legible_name {v : Constant} (good : IsIdentifier v) (tail : Clear gs) :
    Legible (name v :: .gap :: gs) := ⟨⟨_, _, rfl⟩, clear_name good (fenced_gap _) (clear_gap tail)⟩

theorem legible_expression {e : Expr} (good : e.Every (ExprWritable spell)) :
    Legible (expression spell .or e) := by
  obtain ⟨x, gs, same, -⟩ := expression_opens spell e good .or
  exact ⟨⟨x, gs, same⟩, expression_clear spell e good .or⟩

/-- What stands behind the target of an assignment. -/
theorem clear_value {value : Expr} (good : value.Every (ExprWritable spell)) :
    Clear (sign "=" .assign :: .gap :: expression spell .or value) :=
  clear_spaced (.inl ⟨'=', rfl, rfl⟩) (expression_clear spell value good .or)

theorem legible_assigned {target value : Expr} (good : target.Every (ExprWritable spell))
    (good' : value.Every (ExprWritable spell)) :
    Legible (assigned spell (expression spell .or target) value) := by
  obtain ⟨⟨x, gs, same⟩, clear⟩ := legible_expression good
  exact ⟨⟨x, _, by rw [assigned, same]; rfl⟩,
    clear_append clear (fenced_gap _) (clear_gap (clear_value good'))⟩

/-- The first line of a block that a word opens, with something behind the word. -/
theorem legible_heading {s : String} (known : s ∈ reserved) (inside : Clear gs) :
    Legible (word s :: .gap :: gs ++ [colon]) :=
  legible_word known (fenced_gap _) (clear_gap (clear_closed rfl (by decide) inside))

theorem names_clear {cs : List Constant} (good : ∀ c ∈ cs, IsIdentifier c) : Clear (names cs) := by
  induction cs with
  | nil => exact clear_nil
  | cons c cs ih =>
    have first := good c (by simp)
    have rest := ih fun c member => good c (by simp [member])
    cases cs with
    | nil => exact clear_name first fenced_nil clear_nil
    | cons c' cs =>
      exact clear_name first (fenced_bracket rfl (by decide) _)
        (clear_delimiter rfl (by decide) (clear_gap rest))

theorem readableAll_append {rows others : List Row} (first : Row.ReadableAll rows)
    (second : Row.ReadableAll others) : Row.ReadableAll (rows ++ others) := by
  induction rows with
  | nil => exact second
  | cons row rows ih => exact ⟨first.1, ih first.2⟩

/-- A line without a block. -/
theorem readable_line {heading : List Glyph} (legible : Legible heading) :
    Row.ReadableAll [.mk heading []] := ⟨⟨legible.1, legible.2, trivial⟩, trivial⟩

theorem readable_block {heading : List Glyph} {block : List Row} (legible : Legible heading)
    (inside : Row.ReadableAll block) : Row.ReadableAll [.mk heading block] :=
  ⟨⟨legible.1, legible.2, inside⟩, trivial⟩

theorem range_legible {v : Constant} {start stop : Expr} {step : Option Expr}
    (named : IsIdentifier v) (first : start.Every (ExprWritable spell))
    (second : stop.Every (ExprWritable spell)) (third : Expr.EveryBound (ExprWritable spell) step) :
    Legible (rangeHeading spell v start stop step) := by
  have bounds : Expr.EveryIn (ExprWritable spell) (start :: stop :: step.toList) := by
    refine ⟨first, second, ?_⟩
    cases step with
    | none => trivial
    | some e => exact ⟨third, trivial⟩
  have call : Clear (word "range" :: lparen :: expressions spell (start :: stop :: step.toList) ++
      [rparen, colon]) := by
    refine clear_reserved (by decide) (fenced_bracket rfl (by decide) _)
      (clear_delimiter rfl (by decide) ?_)
    exact clear_append (expressions_clear spell _ bounds) (fenced_bracket rfl (by decide) _)
      (clear_delimiter rfl (by decide) (clear_delimiter rfl (by decide) clear_nil))
  exact legible_word (by decide) (fenced_gap _) (clear_gap (clear_name named (fenced_gap _)
    (clear_gap (clear_reserved (by decide) (fenced_gap _) (clear_gap call)))))

mutual

/-- The lines of a printed statement can be scanned. -/
theorem statement_readable (spell : Spelling) : ∀ s : Stmt,
    s.Every (ExprWritable spell) StmtWritable → Row.ReadableAll (statement spell s)
  | .expr _ _, ⟨_, value⟩ => readable_line (legible_expression value)
  | .assign _ _ _, ⟨named, value⟩ => readable_line (legible_name named (clear_value value))
  | .update _ _ _ _, ⟨⟨named, known⟩, value⟩ =>
    readable_line (legible_name named (clear_update known (expression_clear spell _ value .or)))
  | .setIndex _ _ _ _, ⟨_, object, position, value⟩ =>
    readable_line (legible_assigned ⟨trivial, object, position⟩ value)
  | .setMember _ _ _ _, ⟨named, object, value⟩ =>
    readable_line (legible_assigned ⟨named, object⟩ value)
  | .branch _ _ body elifs otherwise, ⟨_, test, inside, others, last⟩ => by
    have first := legible_heading (s := "if") (by decide) (expression_clear spell _ test .or)
    exact ⟨⟨first.1, first.2, statements_readable spell body inside⟩,
      readableAll_append (elifs_readable spell elifs others)
        (otherwise_readable spell otherwise last)⟩
  | .loopTimes _ _ body, ⟨_, count, inside⟩ => by
    refine readable_block ?_ (statements_readable spell body inside)
    have behind : Clear [.gap, word "times", colon] :=
      clear_gap (clear_reserved (by decide) (fenced_bracket rfl (by decide) _)
        (clear_delimiter rfl (by decide) clear_nil))
    exact legible_word (by decide) (fenced_gap _) (clear_gap
      (clear_append (expression_clear spell _ count .or) (fenced_gap _) behind))
  | .loopWhile _ _ body, ⟨_, test, inside⟩ =>
    readable_block (legible_heading (by decide) (expression_clear spell _ test .or))
      (statements_readable spell body inside)
  | .loopRange _ _ _ _ _ body, ⟨⟨named, _⟩, start, stop, step, inside⟩ =>
    readable_block (range_legible named start stop step) (statements_readable spell body inside)
  | .loopEach _ _ items body, ⟨⟨named, _⟩, good, inside⟩ => by
    refine readable_block ?_ (statements_readable spell body inside)
    have behind : Clear (word "in" :: .gap :: expression spell .or items) :=
      clear_reserved (by decide) (fenced_gap _) (clear_gap (expression_clear spell _ good .or))
    exact legible_heading (by decide) (clear_name named (fenced_gap _) (clear_gap behind))
  | .leave _, _ | .again _, _ | .pass _, _ | .give _ none, _ =>
    readable_line (legible_word (by decide) fenced_nil clear_nil)
  | .define f, ⟨good, inside⟩ => ⟨function_readable spell f good inside, trivial⟩
  | .defineClass _ _ methods, ⟨⟨named, good⟩, inside⟩ => by
    refine readable_block (legible_heading (by decide) (clear_name named fenced_nil clear_nil)) ?_
    split
    · exact readable_line (legible_word (by decide) fenced_nil clear_nil)
    · exact functions_readable spell methods good inside
  | .give _ (some _), ⟨_, value⟩ =>
    readable_line (legible_word (by decide) (fenced_gap _)
      (clear_gap (expression_clear spell _ value .or)))
  | .alien _, good => absurd good id

theorem statements_readable (spell : Spelling) : ∀ ss : List Stmt,
    Stmt.EveryIn (ExprWritable spell) StmtWritable ss → Row.ReadableAll (statements spell ss)
  | [], _ => trivial
  | s :: ss, ⟨first, others⟩ =>
    readableAll_append (statement_readable spell s first) (statements_readable spell ss others)

theorem elifs_readable (spell : Spelling) : ∀ elifs : List Elif,
    Stmt.EveryElif (ExprWritable spell) StmtWritable elifs → Row.ReadableAll (elifRows spell elifs)
  | [], _ => trivial
  | .mk _ _ body :: elifs, ⟨⟨test, inside⟩, others⟩ => by
    have heading := legible_heading (s := "elif") (by decide) (expression_clear spell _ test .or)
    exact ⟨⟨heading.1, heading.2, statements_readable spell body inside⟩,
      elifs_readable spell elifs others⟩

theorem otherwise_readable (spell : Spelling) : ∀ otherwise : Option (List Stmt),
    Stmt.EveryOtherwise (ExprWritable spell) StmtWritable otherwise →
      Row.ReadableAll (otherwiseRows spell otherwise)
  | none, _ => trivial
  | some body, inside =>
    readable_block (legible_word (by decide) (fenced_bracket rfl (by decide) _)
      (clear_delimiter rfl (by decide) clear_nil)) (statements_readable spell body inside)

theorem function_readable (spell : Spelling) : ∀ f : Func, FuncWritable f →
    Func.Every (ExprWritable spell) StmtWritable f → (function spell f).Readable
  | .mk _ f params body, good, inside => by
    have behind : Clear (lparen :: names params ++ [rparen, colon]) :=
      clear_delimiter rfl (by decide) (clear_append (names_clear good.params)
        (fenced_bracket rfl (by decide) _)
        (clear_delimiter rfl (by decide) (clear_delimiter rfl (by decide) clear_nil)))
    have heading := legible_word (s := "def") (by decide) (fenced_gap _)
      (clear_gap (clear_name good.name (fenced_bracket rfl (by decide) _) behind))
    exact ⟨heading.1, heading.2, statements_readable spell body inside⟩

theorem functions_readable (spell : Spelling) : ∀ fs : List Func, (∀ f ∈ fs, FuncWritable f) →
    Func.EveryIn (ExprWritable spell) StmtWritable fs → Row.ReadableAll (functions spell fs)
  | [], _, _ => trivial
  | f :: fs, good, ⟨first, others⟩ =>
    ⟨function_readable spell f (good f (by simp)) first,
      functions_readable spell fs (fun f member => good f (by simp [member])) others⟩

end

end Printing

end Stepwise
