import Stepwise.Proofs.Twins.Statements

/-!
Reading programs from tokens alone. Any tokens give a program or a fault at one of them, and two sequences
of tokens that are the same to the reader give the same program but for the positions, or faults at tokens
in the same place. The bounds of the repetitions are never reached.
-/
namespace Stepwise

open Cursor (marked)

theorem Cursor.marked_alike {tokens tokens' : List Token}
    (alike : List.Forall₂ Token.Alike tokens tokens') :
    List.Forall₂ Token.Alike (marked tokens) (marked tokens') := by
  induction alike with
  | nil => exact .cons (.refl _) .nil
  | @cons t t' rest rest' first others ih =>
    cases others with
    | nil =>
      unfold marked
      simp only [List.getLast?_singleton, first.kind]
      split
      · exact .cons first .nil
      · exact .cons first (.cons ⟨rfl, fun _ => rfl⟩ .nil)
    | @cons u u' rest rest' second others =>
      have one := marked_append [t] (List.cons_ne_nil u rest)
      have other := marked_append [t'] (List.cons_ne_nil u' rest')
      rw [List.singleton_append] at one other
      rw [one, other]
      exact .cons first ih

/-- Two sequences of tokens that agree where a reader looks. -/
def Twins.between {tokens tokens' : List Token} (alike : List.Forall₂ Token.Alike tokens tokens') : Twins :=
  ⟨marked tokens, marked tokens', Cursor.marked_alike alike, False, False.elim⟩

/-- A sequence of tokens beside itself. -/
def Twins.double (tokens : List Token) : Twins :=
  ⟨tokens, tokens, List.forall₂_same.mpr fun t _ => .refl t, True, fun _ => rfl⟩

theorem Twins.double_ahead {c : Cursor} {n : Nat} (closed : c.Closed) (enough : c.tokens.length ≤ n) :
    (Twins.double c.tokens).Ahead n c c :=
  ⟨⟨0, rfl, rfl, closed, fun _ => rfl⟩, enough⟩

theorem Twins.Agree.double {α : Type} {tokens : List Token} {R : α → α → Prop}
    {x y : Except Failure (α × Cursor)} {n : Nat}
    (agree : (Twins.double tokens).Agree ((Twins.double tokens).Ahead n) R x y)
    (same : ∀ a b, R a b → a = b) : x = y := by
  cases agree with
  | done related ahead => rw [same _ _ related, ahead.eq trivial]
  | stopped _ _ _ equal => rw [equal trivial]

namespace Parser

variable {c : Cursor} {n m : Nat}

/-- More levels of brackets than there are tokens in front make no difference. -/
theorem nested_enough (closed : c.Closed) (enough : c.tokens.length ≤ n) :
    nested n c = nested c.tokens.length c :=
  (Twins.reads_nested _ n c.tokens.length enough (Nat.le_refl _) _ (Nat.le_refl _) c c
    (Twins.double_ahead closed (Nat.le_refl _))).double fun _ _ related => related.same trivial

/-- More levels of blocks than there are tokens in front make no difference. -/
theorem statementUpTo_enough (closed : c.Closed) (enough : c.tokens.length ≤ n) :
    statementUpTo n c = statementUpTo c.tokens.length c :=
  (Twins.reads_statementUpTo _ n c.tokens.length enough (Nat.le_refl _) _ (Nat.le_refl _) c c
    (Twins.double_ahead closed (Nat.le_refl _))).double fun _ _ related => related.same trivial

/-- More statements than there are tokens in front make no difference. -/
theorem statementsUpTo_enough (closed : c.Closed) (enough : c.tokens.length ≤ n) :
    statementsUpTo n c = statementsUpTo c.tokens.length c :=
  (Twins.accords_statementsUpTo n _ c.tokens.length enough (Nat.le_refl _) c c
    (Twins.double_ahead closed (Nat.le_refl _))).double fun _ _ related => related.same trivial

end Parser

namespace Program

/-- Tokens that agree in their kinds and in the literals of names, numbers and strings give programs that
are equal but for the positions, or reading them stops at the token in the same place. -/
theorem ofTokens_alike {tokens tokens' : List Token} (alike : List.Forall₂ Token.Alike tokens tokens')
    (filename filename' : String) :
    (∃ program program', ofTokens tokens filename = .ok program ∧
        ofTokens tokens' filename' = .ok program' ∧ program.unplaced = program'.unplaced) ∨
      ∃ (e e' : Failure) (i : Nat) (t t' : Token), ofTokens tokens filename = .error e ∧
        ofTokens tokens' filename' = .error e' ∧ (marked tokens)[i]? = some t ∧
        (marked tokens')[i]? = some t' ∧ e.StopsAt (marked tokens) t ∧ e'.StopsAt (marked tokens') t' := by
  obtain ⟨first, -⟩ := Cursor.start_tokens tokens filename
  obtain ⟨second, -⟩ := Cursor.start_tokens tokens' filename'
  have start : (Twins.between alike).Ahead (marked tokens).length (Cursor.start tokens filename)
      (Cursor.start tokens' filename') :=
    ⟨⟨0, first, second, Cursor.start_closed tokens filename, False.elim⟩, first ▸ Nat.le_refl _⟩
  have agree := Twins.accords_program _ _ start
  unfold ofTokens
  change Twins.Agree _ _ _ (Parser.program.run _) (Parser.program.run _) at agree
  generalize Parser.program.run (Cursor.start tokens filename) = x,
    Parser.program.run (Cursor.start tokens' filename') = y at agree ⊢
  cases agree with
  | done related _ => exact .inl ⟨_, _, rfl, rfl, related.erased⟩
  | stopped twins stops stops' _ =>
    obtain ⟨i, here, here'⟩ := twins
    exact .inr ⟨_, _, i, _, _, rfl, rfl, here, here', stops, stops'⟩

/-- Any tokens give a program without an empty block, a parameter that appears twice or an unknown
operator, or reading stops at one of them. -/
theorem ofTokens_sturdy (tokens : List Token) (filename : String) :
    (∃ program, ofTokens tokens filename = .ok program ∧ program.Every Expr.Sturdy Stmt.Sturdy) ∨
      ∃ e, ofTokens tokens filename = .error e ∧ ∃ t ∈ marked tokens, e.StopsAt (marked tokens) t := by
  obtain ⟨same, -⟩ := Cursor.start_tokens tokens filename
  have agree := Twins.accords_program _ _
    (Twins.double_ahead (Cursor.start_closed tokens filename) (Nat.le_refl _))
  rw [same] at agree
  unfold ofTokens
  change Twins.Agree _ _ _ (Parser.program.run _) (Parser.program.run _) at agree
  generalize Parser.program.run (Cursor.start tokens filename) = x at agree ⊢
  cases agree with
  | done related _ => exact .inl ⟨_, rfl, related.good⟩
  | stopped twins stops _ _ => exact .inr ⟨_, rfl, _, twins.mem.1, stops⟩

end Program

end Stepwise
