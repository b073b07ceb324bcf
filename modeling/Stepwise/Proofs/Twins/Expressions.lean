import Stepwise.Proofs.Grammar.Expressions
import Stepwise.Proofs.Shape
import Stepwise.Proofs.Twins.Cursors
import Stepwise.Tree.Expression

/-!
Reading expressions from two sequences of tokens that are the same to a reader. The trees are equal but for
their positions, and their operators are known, whatever the tokens are.
-/
namespace Stepwise

open Token (Kind)

/-- What reading any tokens guarantees of an expression, apart from those inside it. -/
def Expr.Sturdy : Expr → Prop
  | .binary _ op _ _ => op.IsKnown
  | .unary _ op _ => op.IsKnown
  | .new _ _ _ | .alien _ => False
  | .literal _ _ _ | .var _ _ | .call _ _ _ | .invoke _ _ _ _ | .list _ _ | .record _ _ | .index _ _ _
  | .slice _ _ _ _ | .member _ _ _ => True

namespace Twins

/-- Two trees that are equal but for what `erase` takes away, the first of which is good. -/
structure Related {α γ : Type} (T : Twins) (erase : α → γ) (good : α → Prop) (a b : α) : Prop where
  same : T.same → a = b
  erased : erase a = erase b
  good : good a

/-- The same name in both, as the literal of tokens. -/
structure Named (T : Twins) (a b : Constant) : Prop where
  eq : a = b
  first : ∃ t ∈ T.first, t.literal = a
  second : ∃ u ∈ T.second, u.literal = b

abbrev Exprs (T : Twins) : Expr → Expr → Prop := T.Related Expr.unplaced (Expr.Every Expr.Sturdy)

abbrev ExprLists (T : Twins) : List Expr → List Expr → Prop :=
  T.Related Expr.unplacedAll (Expr.EveryIn Expr.Sturdy)

abbrev ExprOptions (T : Twins) : Option Expr → Option Expr → Prop :=
  T.Related Expr.unplacedOption (Expr.EveryBound Expr.Sturdy)

abbrev Entries (T : Twins) : List (Constant × Expr) → List (Constant × Expr) → Prop :=
  T.Related Expr.unplacedEntries (Expr.EveryEntry Expr.Sturdy)

/-- Two readers that come to the same where at most `n` tokens are in front, and pass one at least. -/
def Reads {α β : Type} (T : Twins) (n : Nat) (R : α → β → Prop) (p : Parser α) (q : Parser β) : Prop :=
  ∀ m, m ≤ n → T.Accords (T.Ahead m) (T.Ahead (m - 1)) R p q

variable {T : Twins} {n m : Nat} {k : Kind}

theorem At.pos {t u : Token} (twins : T.At t u) (same : T.same) :
    Parser.tokenPos t = Parser.tokenPos u := by
  rw [twins.eq same]

theorem At.named {t u : Token} (twins : T.At t u) (kind : t.kind ∈ [.identifier, .number, .string]) :
    T.Named t.literal u.literal :=
  ⟨twins.alike.literal kind, ⟨t, twins.mem.1, rfl⟩, ⟨u, twins.mem.2, rfl⟩⟩

section Readers

open Stepwise.Parser

theorem reads_expect {suggestion : Option String} (inside : k ≠ .eof) :
    T.Reads n (fun t u => T.At t u ∧ t.kind = k) (expect k suggestion) (expect k suggestion) := by
  intro m le
  refine accords_at (accords_advance inside) ?_
  refine accords_current fun t u twins => .on ?_
  exact accords_complaint (names_describe twins.mem.1) (names_describe twins.mem.2) fun same => by
    rw [twins.eq same]

theorem reads_expectName {suggestion : Option String} :
    T.Reads n T.Named (expectName suggestion) (expectName suggestion) := by
  intro m le
  refine (reads_expect (by decide) m le).bind fun t u twins => .pure (fun _ _ => id) ?_
  exact twins.1.named (by simp [twins.2])

/-- The token that closes what was read. -/
theorem accords_close {α β : Type} {R : α → β → Prop} {suggestion : Option String} (inside : k ≠ .eof)
    {a : α} {b : β} (related : R a b) (le : m ≤ n) :
    T.Accords (T.Ahead m) (T.Ahead (n - 1)) R
      (do let _ ← expect k suggestion; return a) (do let _ ← expect k suggestion; return b) :=
  (reads_expect inside m (Nat.le_refl _)).bind fun _ _ _ =>
    .pure (fun _ _ ahead => ahead.mono (by omega)) related

section Lists

variable {α β : Type} {R : α → β → Prop} {item : Parser α} {item' : Parser β}
  (reads : T.Reads n R item item')
include reads

theorem accords_commaSeparated (fuel : Nat) : ∀ m fuel', m ≤ n → m ≤ fuel → m ≤ fuel' →
    T.Accords (T.Ahead m) (T.Ahead (m - 1)) (List.Forall₂ R) (commaSeparated item fuel)
      (commaSeparated item' fuel') := by
  induction fuel with
  | zero => exact fun m fuel' _ none _ => accords_none none
  | succ fuel ih =>
    intro m fuel' le enough enough'
    cases fuel' with
    | zero => exact accords_none enough'
    | succ fuel' =>
      refine (reads m le).bind fun a b related => accords_accept (by decide) ?_ ?_
      · refine (ih (m - 1 - 1) fuel' (by omega) (by omega) (by omega)).bind fun as bs all => ?_
        exact .pure (fun _ _ ahead => ahead.mono (by omega)) (.cons related all)
      · exact .pure (fun _ _ => id) (.cons related .nil)

theorem reads_listUntil {close : Kind} {suggestion : Option String} (inside : close ≠ .eof) :
    T.Reads n (List.Forall₂ R) (listUntil close suggestion item) (listUntil close suggestion item') := by
  intro m le
  refine accords_at ?_ ?_
  · exact .on (.bind (.pure (fun _ _ => id) .nil) fun _ _ all => accords_close inside all (Nat.le_refl _))
  · refine accords_remaining fun m' le' => ?_
    exact (accords_commaSeparated reads m' m' m' (by omega) (Nat.le_refl _) (Nat.le_refl _)).bind
      fun _ _ all => accords_close inside all (by omega)

end Lists

section Left

variable {op? : Kind → Option BinaryOp} {operand operand' : Parser Expr}
  (known : ∀ k op, op? k = some op → k ≠ .eof ∧ op.IsKnown) (reads : T.Reads n T.Exprs operand operand')
include known reads

theorem accords_leftTail (fuel : Nat) : ∀ m fuel' left left', m ≤ n → m ≤ fuel → m ≤ fuel' →
    T.Exprs left left' → T.Accords (T.Ahead m) (T.Ahead m) T.Exprs (leftTail op? operand fuel left)
      (leftTail op? operand' fuel' left') := by
  induction fuel with
  | zero => exact fun m fuel' left left' _ none _ _ => accords_none none
  | succ fuel ih =>
    intro m fuel' left left' le enough enough' related
    cases fuel' with
    | zero => exact accords_none enough'
    | succ fuel' =>
      refine accords_kind fun k => ?_
      cases found : op? k with
      | none => exact .on (.pure (fun _ _ => id) related)
      | some op =>
        obtain ⟨inside, known⟩ := known k op found
        refine (accords_advance inside).bind fun t u twins => ?_
        refine (reads (m - 1) (by omega)).bind fun right right' related' => ?_
        refine (ih (m - 1 - 1) fuel' _ _ (by omega) (by omega) (by omega) ?_).looser (by omega)
        refine ⟨fun same => ?_, ?_, known, related.good, related'.good⟩
        · rw [related.same same, related'.same same]
        · rw [Expr.unplaced, Expr.unplaced, related.erased, related'.erased]

theorem reads_leftLevel : T.Reads n T.Exprs (leftLevel op? operand) (leftLevel op? operand') := by
  intro m le
  refine (reads m le).bind fun left left' related => accords_remaining fun m' le' => ?_
  exact (accords_leftTail known reads m' m' m' left left' (by omega) (Nat.le_refl _) (Nat.le_refl _)
    related).looser le'

end Left

theorem operators_known : (∀ k op, orOp k = some op → k ≠ .eof ∧ op.IsKnown) ∧
    (∀ k op, andOp k = some op → k ≠ .eof ∧ op.IsKnown) ∧
    (∀ k op, comparisonOp k = some op → k ≠ .eof ∧ op.IsKnown) ∧
    (∀ k op, sumOp k = some op → k ≠ .eof ∧ op.IsKnown) ∧
    ∀ k op, termOp k = some op → k ≠ .eof ∧ op.IsKnown := by
  refine ⟨?_, ?_, ?_, ?_, ?_⟩ <;> intro k op found <;> cases k <;> cases found <;>
    exact ⟨by decide, trivial⟩

theorem Related.all {es es' : List Expr} (all : List.Forall₂ T.Exprs es es') : T.ExprLists es es' := by
  induction all with
  | nil => exact ⟨fun _ => rfl, rfl, trivial⟩
  | cons first _ rest =>
    refine ⟨fun same => ?_, ?_, first.good, rest.good⟩
    · rw [first.same same, rest.same same]
    · rw [Expr.unplacedAll, Expr.unplacedAll, first.erased, rest.erased]

/-- Entries of a record with the same key. -/
def Entry (T : Twins) (entry entry' : Constant × Expr) : Prop :=
  entry.1 = entry'.1 ∧ T.Exprs entry.2 entry'.2

theorem Related.entries {entries entries' : List (Constant × Expr)}
    (all : List.Forall₂ T.Entry entries entries') : T.Entries entries entries' := by
  induction all with
  | nil => exact ⟨fun _ => rfl, rfl, trivial⟩
  | @cons entry entry' _ _ first _ rest =>
    obtain ⟨key, e⟩ := entry
    obtain ⟨key', e'⟩ := entry'
    obtain ⟨rfl, first⟩ := first
    dsimp only at first
    refine ⟨fun same => ?_, ?_, first.good, rest.good⟩
    · rw [first.same same, rest.same same]
    · rw [Expr.unplacedEntries, Expr.unplacedEntries, first.erased, rest.erased]

theorem Related.present {e e' : Expr} (related : T.Exprs e e') : T.ExprOptions (some e) (some e') := by
  refine ⟨fun same => congrArg some (related.same same), ?_, related.good⟩
  rw [Expr.unplacedOption, Expr.unplacedOption, related.erased]

theorem Related.absent : T.ExprOptions none none := ⟨fun _ => rfl, rfl, trivial⟩

section Expressions

variable {whole whole' : Parser Expr} (reads : T.Reads n T.Exprs whole whole')
include reads

theorem reads_arguments : T.Reads n T.ExprLists (arguments whole) (arguments whole') := fun m le =>
  (reads_listUntil reads (by decide) m le).weaken (fun _ _ => id) (fun _ _ => id) fun _ _ all => .all all

theorem reads_recordEntry : T.Reads n T.Entry (recordEntry whole) (recordEntry whole') := by
  intro m le
  refine accords_current fun t u twins => ?_
  have kind := twins.kind
  by_cases named : t.kind = .identifier || t.kind = .string
  · rw [if_pos named, if_pos (by rwa [kind] at named)]
    have inside : t.kind ≠ .eof := by
      intro mark
      simp [mark] at named
    refine (accords_advance inside).bind fun _ _ _ => ?_
    refine (reads_expect (by decide) (m - 1) (Nat.le_refl _)).bind fun _ _ _ => ?_
    refine (reads (m - 1 - 1) (by omega)).bind fun e e' related => ?_
    refine .pure (fun _ _ ahead => ahead.mono (by omega)) ⟨twins.alike.literal ?_, related⟩
    simp only [Bool.or_eq_true, decide_eq_true_eq] at named
    rcases named with kind | kind <;> simp [kind]
  · rw [if_neg named, if_neg (by rwa [kind] at named)]
    exact .on (accords_fail fun _ => rfl)

theorem reads_atom : T.Reads (n + 1) T.Exprs (atom whole) (atom whole') := by
  intro m le
  refine accords_current fun t u twins => ?_
  have literal (form : LiteralForm) {value value' : Constant} (same : value = value')
      (inside : t.kind ≠ .eof) : T.Accords (T.On t.kind m) (T.Ahead (m - 1)) T.Exprs
        (do let _ ← advance; return .literal (tokenPos t) form value)
        (do let _ ← advance; return .literal (tokenPos u) form value') := by
    refine (accords_advance inside).bind fun _ _ _ => .pure (fun _ _ => id) ⟨fun equal => ?_, ?_, trivial⟩
    · rw [twins.eq equal, same]
    · rw [Expr.unplaced, Expr.unplaced, same]
  have kind := twins.kind
  rw [← kind]
  dsimp only
  split
  · next number => exact literal .number (twins.alike.literal (by simp [number])) (by simp [number])
  · next string => exact literal .string (twins.alike.literal (by simp [string])) (by simp [string])
  · next here => exact literal .boolean rfl (by simp [here])
  · next here => exact literal .boolean rfl (by simp [here])
  · next here =>
    refine (accords_advance (by simp [here])).bind fun _ _ _ => ?_
    refine (reads (m - 1) (by omega)).bind fun e e' related => ?_
    refine (reads_expect (by decide) (m - 1 - 1) (Nat.le_refl _)).bind fun _ _ _ => ?_
    exact .pure (fun _ _ ahead => ahead.mono (by omega)) related
  · next here =>
    refine (accords_advance (by simp [here])).bind fun _ _ _ => ?_
    refine (reads_listUntil reads (by decide) (m - 1) (by omega)).bind fun es es' all => ?_
    have related := Related.all all
    refine .pure (fun _ _ ahead => ahead.mono (by omega)) ⟨fun same => ?_, ?_, trivial, related.good⟩
    · rw [twins.eq same, related.same same]
    · rw [Expr.unplaced, Expr.unplaced, related.erased]
  · next here =>
    refine (accords_advance (by simp [here])).bind fun _ _ _ => ?_
    refine (reads_listUntil (reads_recordEntry reads) (by decide) (m - 1) (by omega)).bind
      fun entries entries' all => ?_
    have related := Related.entries all
    refine .pure (fun _ _ ahead => ahead.mono (by omega)) ⟨fun same => ?_, ?_, trivial, related.good⟩
    · rw [twins.eq same, related.same same]
    · rw [Expr.unplaced, Expr.unplaced, related.erased]
  · next here =>
    have name := twins.alike.literal (by simp [here])
    refine (accords_advance (by simp [here])).bind fun _ _ _ => accords_accept (by decide) ?_ ?_
    · refine (reads_arguments reads (m - 1 - 1) (by omega)).bind fun args args' related => ?_
      refine .pure (fun _ _ ahead => ahead.mono (by omega)) ⟨fun same => ?_, ?_, trivial, related.good⟩
      · rw [twins.eq same, related.same same]
      · rw [Expr.unplaced, Expr.unplaced, name, related.erased]
    · refine .pure (fun _ _ => id) ⟨fun same => ?_, ?_, trivial⟩
      · rw [twins.eq same]
      · rw [Expr.unplaced, Expr.unplaced, name]
  · exact .on (accords_fail fun _ => rfl)
  · refine .on (accords_complaint (names_describe twins.mem.1) (names_describe twins.mem.2) fun same => ?_)
    rw [twins.eq same]

/-- An expression that may be left out. -/
theorem reads_present : T.Reads n T.ExprOptions (some <$> whole : Parser (Option Expr))
    (some <$> whole' : Parser (Option Expr)) :=
  fun m le => (reads m le).map fun _ _ related => related.present

theorem reads_subscript {object object' : Expr} (related : T.Exprs object object') :
    T.Reads n T.Exprs (subscript whole object) (subscript whole' object') := by
  intro m le
  have slices {start start' stop stop' : Option Expr} (starts : T.ExprOptions start start')
      (stops : T.ExprOptions stop stop') :
      T.Exprs (.slice object.pos object start stop) (.slice object'.pos object' start' stop') := by
    refine ⟨fun same => ?_, ?_, trivial, related.good, starts.good, stops.good⟩
    · rw [related.same same, starts.same same, stops.same same]
    · rw [Expr.unplaced, Expr.unplaced, related.erased, starts.erased, stops.erased]
  have slice {start start' : Option Expr} (starts : T.ExprOptions start start') :
      T.Accords (T.Ahead m) (T.Ahead (m - 1)) T.Exprs
      (do
        let _ ← expect .colon
        let stop ← if ← at? .rbracket then pure none else some <$> whole
        let _ ← expect .rbracket (some "Close the index with ']'.")
        return .slice object.pos object start stop)
      (do
        let _ ← expect .colon
        let stop ← if ← at? .rbracket then pure none else some <$> whole'
        let _ ← expect .rbracket (some "Close the index with ']'.")
        return .slice object'.pos object' start' stop) := by
    refine (reads_expect (by decide) m le).bind fun _ _ _ => accords_at ?_ ?_
    · exact .on (.bind (.pure (fun _ _ => id) Related.absent) fun _ _ stops =>
        accords_close (by decide) (slices starts stops) (by omega))
    · exact (reads_present reads (m - 1) (by omega)).bind fun _ _ stops =>
        accords_close (by decide) (slices starts stops) (by omega)
  refine accords_at (.on (slice .absent)) ?_
  refine (reads m le).bind fun position position' inside => accords_accept (by decide) ?_ ?_
  · refine .pure (fun _ _ ahead => ahead.mono (by omega)) ⟨fun same => ?_, ?_, trivial, related.good,
      inside.good⟩
    · rw [related.same same, inside.same same]
    · rw [Expr.unplaced, Expr.unplaced, related.erased, inside.erased]
  · exact (slice inside.present).weaken (fun _ _ ahead => ahead.mono (by omega)) (fun _ _ => id)
      fun _ _ => id

theorem accords_suffixes (fuel : Nat) : ∀ m fuel' e e', m ≤ n + 1 → m ≤ fuel → m ≤ fuel' →
    T.Exprs e e' → T.Accords (T.Ahead m) (T.Ahead m) T.Exprs (suffixes whole fuel e)
      (suffixes whole' fuel' e') := by
  induction fuel with
  | zero => exact fun m fuel' e e' _ none _ _ => accords_none none
  | succ fuel ih =>
    intro m fuel' e e' le enough enough' related
    cases fuel' with
    | zero => exact accords_none enough'
    | succ fuel' =>
      refine accords_accept (by decide) ?_ (accords_accept (by decide) ?_ (.pure (fun _ _ => id) related))
      · refine (reads_subscript reads related (m - 1) (by omega)).bind fun e e' related => ?_
        exact (ih (m - 1 - 1) fuel' e e' (by omega) (by omega) (by omega) related).looser (by omega)
      · refine (reads_expectName (n := n) (m - 1) (by omega)).bind fun name name' named => ?_
        refine accords_accept (by decide) ?_ ?_
        · refine (reads_arguments reads (m - 1 - 1 - 1) (by omega)).bind fun args args' others => ?_
          refine (ih (m - 1 - 1 - 1 - 1) fuel' _ _ (by omega) (by omega) (by omega) ?_).looser (by omega)
          refine ⟨fun same => ?_, ?_, trivial, related.good, others.good⟩
          · rw [related.same same, others.same same, named.eq]
          · rw [Expr.unplaced, Expr.unplaced, related.erased, others.erased, named.eq]
        · refine (ih (m - 1 - 1) fuel' _ _ (by omega) (by omega) (by omega) ?_).looser (by omega)
          refine ⟨fun same => ?_, ?_, trivial, related.good⟩
          · rw [related.same same, named.eq]
          · rw [Expr.unplaced, Expr.unplaced, related.erased, named.eq]

theorem reads_suffixed : T.Reads (n + 1) T.Exprs (suffixed whole) (suffixed whole') := by
  intro m le
  refine (reads_atom reads m le).bind fun e e' related => accords_remaining fun m' le' => ?_
  exact (accords_suffixes reads m' m' m' e e' (by omega) (Nat.le_refl _) (Nat.le_refl _)
    related).looser le'

theorem accords_signed (fuel : Nat) : ∀ m fuel', m ≤ n + 1 → m ≤ fuel → m ≤ fuel' →
    T.Accords (T.Ahead m) (T.Ahead (m - 1)) T.Exprs (signed whole fuel) (signed whole' fuel') := by
  induction fuel with
  | zero => exact fun m fuel' _ none _ => accords_none none
  | succ fuel ih =>
    intro m fuel' le enough enough'
    cases fuel' with
    | zero => exact accords_none enough'
    | succ fuel' =>
      refine accords_at ?_ ?_
      · refine (accords_advance (by decide)).bind fun t u twins => ?_
        refine (ih (m - 1) fuel' (by omega) (by omega) (by omega)).bind fun e e' related => ?_
        refine .pure (fun _ _ ahead => ahead.mono (by omega)) ⟨fun same => ?_, ?_, trivial, related.good⟩
        · rw [twins.1.eq same, related.same same]
        · rw [Expr.unplaced, Expr.unplaced, related.erased]
      · refine (reads_suffixed reads m le).bind fun base base' related => ?_
        refine accords_accept (by decide) ?_ (.pure (fun _ _ => id) related)
        refine (ih (m - 1 - 1) fuel' (by omega) (by omega) (by omega)).bind fun e e' exponent => ?_
        refine .pure (fun _ _ ahead => ahead.mono (by omega))
          ⟨fun same => ?_, ?_, trivial, related.good, exponent.good⟩
        · rw [related.same same, exponent.same same]
        · rw [Expr.unplaced, Expr.unplaced, related.erased, exponent.erased]

theorem reads_comparison : T.Reads (n + 1) T.Exprs (comparison whole) (comparison whole') := by
  obtain ⟨-, -, comparing, summing, scaling⟩ := operators_known
  refine reads_leftLevel comparing (reads_leftLevel summing (reads_leftLevel scaling fun m le => ?_))
  refine accords_remaining fun m' le' => ?_
  exact (accords_signed reads m' m' m' (by omega) (Nat.le_refl _) (Nat.le_refl _)).looser (by omega)

theorem accords_negation (fuel : Nat) : ∀ m fuel', m ≤ n + 1 → m ≤ fuel → m ≤ fuel' →
    T.Accords (T.Ahead m) (T.Ahead (m - 1)) T.Exprs (negation whole fuel) (negation whole' fuel') := by
  induction fuel with
  | zero => exact fun m fuel' _ none _ => accords_none none
  | succ fuel ih =>
    intro m fuel' le enough enough'
    cases fuel' with
    | zero => exact accords_none enough'
    | succ fuel' =>
      refine accords_at ?_ (reads_comparison reads m le)
      refine (accords_advance (by decide)).bind fun t u twins => ?_
      refine (ih (m - 1) fuel' (by omega) (by omega) (by omega)).bind fun e e' related => ?_
      refine .pure (fun _ _ ahead => ahead.mono (by omega)) ⟨fun same => ?_, ?_, trivial, related.good⟩
      · rw [twins.1.eq same, related.same same]
      · rw [Expr.unplaced, Expr.unplaced, related.erased]

theorem reads_disjunction : T.Reads (n + 1) T.Exprs (disjunction whole) (disjunction whole') := by
  obtain ⟨either, both, -⟩ := operators_known
  refine reads_leftLevel either (reads_leftLevel both fun m le => accords_remaining fun m' le' => ?_)
  exact (accords_negation reads m' m' m' (by omega) (Nat.le_refl _) (Nat.le_refl _)).looser (by omega)

end Expressions

theorem reads_none {α β : Type} {R : α → β → Prop} {p : Parser α} {q : Parser β} : T.Reads 0 R p q :=
  fun _ none => accords_none none

/-- Every level of brackets takes a token, so levels for all tokens in front are enough. -/
theorem reads_nested : ∀ (n levels levels' : Nat), n ≤ levels → n ≤ levels' →
    T.Reads n T.Exprs (nested levels) (nested levels')
  | 0, _, _, _, _ => reads_none
  | n + 1, levels + 1, levels' + 1, enough, enough' =>
    reads_disjunction (reads_nested n levels levels' (Nat.le_of_succ_le_succ enough)
      (Nat.le_of_succ_le_succ enough'))

theorem reads_expression : T.Reads n T.Exprs expression expression := fun m _ =>
  accords_remaining fun m' le' =>
    (reads_nested m' m' m' (Nat.le_refl _) (Nat.le_refl _) m' (Nat.le_refl _)).looser (by omega)

end Readers

end Twins

end Stepwise
