import Stepwise.Tree.Unplaced
import Stepwise.Token

/-!
The grammar of expressions, as a relation between sequences of tokens and trees without positions.
It is a ladder of levels: an expression of one level is built from those of the next, and brackets
start again at the loosest one. `Reads.opening` says with which tokens the expressions of a level
start; it is what the readers look at to choose between the forms.
-/
namespace Stepwise

namespace Grammar

open Token (Kind)

/-- The levels, from the loosest binding to the tightest. -/
inductive Level where
  | or | and | not | comparison | sum | term | unary | power | suffixed | atom
  deriving DecidableEq

namespace Level

/-- The level that binds tighter by one. -/
def next? : Level → Option Level
  | or => some and
  | and => some not
  | not => some comparison
  | comparison => some sum
  | sum => some term
  | term => some unary
  | unary => some power
  | power => some suffixed
  | suffixed => some atom
  | atom => none

/-- The operators of a level that group to the left. -/
def operators : Level → List (Kind × BinaryOp)
  | or => [(.kwOr, .or)]
  | and => [(.kwAnd, .and)]
  | comparison =>
    [(.eq, .eq), (.neq, .ne), (.lt, .lt), (.gt, .gt), (.lte, .le), (.gte, .ge), (.kwIn, .isIn)]
  | sum => [(.plus, .add), (.minus, .sub)]
  | term => [(.multiply, .mul), (.divide, .div), (.modulo, .mod), (.floorDiv, .floorDiv)]
  | not | unary | power | suffixed | atom => []

/-- No operator marks the end. -/
theorem operator_ne_eof {l : Level} {k : Kind} {op : BinaryOp} (known : (k, op) ∈ l.operators) :
    k ≠ .eof := by
  rintro rfl
  cases l <;> simp [operators] at known

end Level

/-- Sequences of tokens with a comma between each two. -/
inductive Separated : List (List Token) → List Token → Prop
  | none : Separated [] []
  | one (w : List Token) : Separated [w] w
  | more {w v rest : List Token} {ws : List (List Token)} {comma : Token}
      (sign : comma.kind = .comma) (others : Separated (v :: ws) rest) :
      Separated (w :: v :: ws) (w ++ comma :: rest)

/-- A value under a key, as it is written in a record. -/
structure Labelled where
  key : Token
  colon : Token
  words : List Token
  value : Expr
  deriving Inhabited

def Labelled.all (entry : Labelled) : List Token := entry.key :: entry.colon :: entry.words

/-- A key is a name or a string. -/
structure Labelled.Signed (entry : Labelled) : Prop where
  key : entry.key.kind = .identifier ∨ entry.key.kind = .string
  colon : entry.colon.kind = .colon

/-- A pair of brackets of some sort. -/
structure Bracketed (opening closing : Kind) (left right : Token) : Prop where
  left : left.kind = opening
  right : right.kind = closing

/-- The tokens of a bound that may be left out. -/
def boundWords (bound : Option (List Token × Expr)) : List Token := (bound.map Prod.fst).getD []

/-- `Reads l w e`: the tokens `w` are an expression of level `l`, and `e` is its tree. -/
inductive Reads : Level → List Token → Expr → Prop
  | number {t : Token} (kind : t.kind = .number) : Reads .atom [t] (.literal {} .number t.literal)
  | string {t : Token} (kind : t.kind = .string) : Reads .atom [t] (.literal {} .string t.literal)
  | yes {t : Token} (kind : t.kind = .kwTrue) :
      Reads .atom [t] (.literal {} .boolean (.scalar (.bool true)))
  | no {t : Token} (kind : t.kind = .kwFalse) :
      Reads .atom [t] (.literal {} .boolean (.scalar (.bool false)))
  | var {t : Token} (kind : t.kind = .identifier) : Reads .atom [t] (.var {} t.literal)
  | group {l r : Token} {w : List Token} {e : Expr} (pair : Bracketed .lparen .rparen l r)
      (inner : Reads .or w e) : Reads .atom (l :: w ++ [r]) e
  | call {t l r : Token} {w : List Token} {args : List (List Token × Expr)}
      (kind : t.kind = .identifier) (pair : Bracketed .lparen .rparen l r)
      (each : ∀ arg ∈ args, Reads .or arg.1 arg.2) (joined : Separated (args.map Prod.fst) w) :
      Reads .atom (t :: l :: w ++ [r]) (.call {} t.literal (args.map Prod.snd))
  | list {l r : Token} {w : List Token} {elements : List (List Token × Expr)}
      (pair : Bracketed .lbracket .rbracket l r)
      (each : ∀ element ∈ elements, Reads .or element.1 element.2)
      (joined : Separated (elements.map Prod.fst) w) :
      Reads .atom (l :: w ++ [r]) (.list {} (elements.map Prod.snd))
  | record {l r : Token} {w : List Token} {entries : List Labelled}
      (pair : Bracketed .lbrace .rbrace l r) (signed : ∀ entry ∈ entries, entry.Signed)
      (each : ∀ entry ∈ entries, Reads .or entry.words entry.value)
      (joined : Separated (entries.map Labelled.all) w) :
      Reads .atom (l :: w ++ [r])
        (.record {} (entries.map fun entry => (entry.key.literal, entry.value)))
  | index {l r : Token} {v w : List Token} {a b : Expr} (object : Reads .suffixed v a)
      (pair : Bracketed .lbracket .rbracket l r) (position : Reads .or w b) :
      Reads .suffixed (v ++ l :: w ++ [r]) (.index {} a b)
  | slice {l r colon : Token} {v : List Token} {a : Expr} {start stop : Option (List Token × Expr)}
      (object : Reads .suffixed v a) (pair : Bracketed .lbracket .rbracket l r)
      (lower : ∀ bound ∈ start, Reads .or bound.1 bound.2) (sign : colon.kind = .colon)
      (upper : ∀ bound ∈ stop, Reads .or bound.1 bound.2) :
      Reads .suffixed (v ++ l :: boundWords start ++ colon :: boundWords stop ++ [r])
        (.slice {} a (start.map Prod.snd) (stop.map Prod.snd))
  | member {dot t : Token} {v : List Token} {a : Expr} (object : Reads .suffixed v a)
      (sign : dot.kind = .dot) (kind : t.kind = .identifier) :
      Reads .suffixed (v ++ [dot, t]) (.member {} a t.literal)
  | invoke {dot t l r : Token} {v w : List Token} {a : Expr} {args : List (List Token × Expr)}
      (object : Reads .suffixed v a) (sign : dot.kind = .dot) (kind : t.kind = .identifier)
      (pair : Bracketed .lparen .rparen l r) (each : ∀ arg ∈ args, Reads .or arg.1 arg.2)
      (joined : Separated (args.map Prod.fst) w) :
      Reads .suffixed (v ++ dot :: t :: l :: w ++ [r])
        (.invoke {} a t.literal (args.map Prod.snd))
  /-- The exponent may carry a sign and be a power itself, so powers group to the right. -/
  | power {sign : Token} {v w : List Token} {a b : Expr} (base : Reads .suffixed v a)
      (kind : sign.kind = .power) (exponent : Reads .unary w b) :
      Reads .power (v ++ sign :: w) (.binary {} .pow a b)
  | negative {sign : Token} {w : List Token} {e : Expr} (kind : sign.kind = .minus)
      (operand : Reads .unary w e) : Reads .unary (sign :: w) (.unary {} .neg e)
  | negation {sign : Token} {w : List Token} {e : Expr} (kind : sign.kind = .kwNot)
      (operand : Reads .not w e) : Reads .not (sign :: w) (.unary {} .not e)
  | binary {l m : Level} {sign : Token} {op : BinaryOp} {v w : List Token} {a b : Expr}
      (next : l.next? = some m) (known : (sign.kind, op) ∈ l.operators) (left : Reads l v a)
      (right : Reads m w b) : Reads l (v ++ sign :: w) (.binary {} op a b)
  /-- An expression of a tighter level stands for itself. -/
  | lift {l m : Level} {w : List Token} {e : Expr} (next : l.next? = some m) (inner : Reads m w e) :
      Reads l w e

/-- The kinds that may follow an expression in a program. -/
def followers : List Kind :=
  [.newline, .dedent, .eof, .rparen, .rbracket, .rbrace, .colon, .comma, .assign, .plusAssign,
   .minusAssign, .multiplyAssign, .divideAssign, .kwTimes, .kwDo]

/-- The kinds that an expression of a level starts with: those of an atom, and a sign where the
level, or a tighter one, has one. -/
def Level.Opens (l : Level) (k : Kind) : Prop :=
  k ∈ [.number, .string, .kwTrue, .kwFalse, .identifier, .lparen, .lbracket, .lbrace] ∨
    (k = .minus ∧ l ∉ [.power, .suffixed, .atom]) ∨ (k = .kwNot ∧ l ∈ [.or, .and, .not])

theorem Level.Opens.loosen {l m : Level} {k : Kind} (opens : m.Opens k) (next : l.next? = some m) :
    l.Opens k := by
  rcases opens with atom | ⟨minus, above⟩ | ⟨negated, above⟩
  · exact .inl atom
  · refine .inr (.inl ⟨minus, ?_⟩)
    revert above
    cases l <;> cases next <;> decide
  · refine .inr (.inr ⟨negated, ?_⟩)
    revert above
    cases l <;> cases next <;> decide

theorem Reads.opening {l : Level} {w : List Token} {e : Expr} (reads : Reads l w e) :
    ∃ t u, w = t :: u ∧ l.Opens t.kind := by
  induction reads with
  | number kind | string kind | yes kind | no kind | var kind =>
    exact ⟨_, _, rfl, .inl (by simp [kind])⟩
  | group pair _ _ | list pair _ _ _ | record pair _ _ _ _ =>
    exact ⟨_, _, rfl, .inl (by simp [pair.left])⟩
  | call kind _ _ _ _ => exact ⟨_, _, rfl, .inl (by simp [kind])⟩
  | index _ _ _ ih _ | slice _ _ _ _ _ ih _ _ | member _ _ _ ih | invoke _ _ _ _ _ _ ih _ =>
    obtain ⟨t, u, rfl, opens⟩ := ih
    exact ⟨t, _, rfl, opens⟩
  | power _ _ _ ih _ =>
    obtain ⟨t, u, rfl, opens⟩ := ih
    exact ⟨t, _, rfl, opens.loosen rfl⟩
  | negative kind _ _ => exact ⟨_, _, rfl, .inr (.inl ⟨kind, by decide⟩)⟩
  | negation kind _ _ => exact ⟨_, _, rfl, .inr (.inr ⟨kind, by decide⟩)⟩
  | binary _ _ _ _ ih _ =>
    obtain ⟨t, u, rfl, opens⟩ := ih
    exact ⟨t, _, rfl, opens⟩
  | lift next _ ih =>
    obtain ⟨t, u, rfl, opens⟩ := ih
    exact ⟨t, u, rfl, opens.loosen next⟩

theorem Reads.length_pos {l : Level} {w : List Token} {e : Expr} (reads : Reads l w e) :
    0 < w.length := by
  obtain ⟨t, u, rfl, -⟩ := reads.opening
  simp

/-- No expression starts with a token that closes or separates. -/
theorem Reads.head_ne {l : Level} {w : List Token} {e : Expr} (reads : Reads l w e) {t : Token}
    {u : List Token} (same : w = t :: u) :
    t.kind ∉ [.rparen, .rbracket, .rbrace, .colon, .comma, .eof] := by
  obtain ⟨s, v, rfl, opens⟩ := reads.opening
  obtain ⟨rfl, rfl⟩ := List.cons.inj same
  rcases opens with atom | ⟨minus, -⟩ | ⟨negated, -⟩
  · revert atom
    generalize s.kind = k
    intro atom closing
    simp only [List.mem_cons, List.not_mem_nil, or_false] at atom closing
    rcases atom with rfl | rfl | rfl | rfl | rfl | rfl | rfl | rfl <;> simp at closing
  · simp [minus]
  · simp [negated]

end Grammar

end Stepwise
