import Mathlib.Data.List.Forall2
import Stepwise.Proofs.Grammar.Cursors

/-!
Reading two sequences of tokens that agree in their kinds and in the literals of names, numbers and
strings. Two cursors move along them side by side (`Beside`), and a reader gives trees that are related at
both, or stops at both at the same token (`Accords`); one rule for each of the smallest readers. The
bounds of the repetitions may differ as long as both are as large as the number of tokens in front.
-/
namespace Stepwise

open Token (Kind)

/-- Tokens that are the same to a reader. -/
structure Token.Alike (t u : Token) : Prop where
  kind : t.kind = u.kind
  literal : t.kind ∈ [.identifier, .number, .string] → t.literal = u.literal

theorem Token.Alike.refl (t : Token) : t.Alike t := ⟨rfl, fun _ => rfl⟩

theorem Cursor.next_filename (c : Cursor) : c.next.filename = c.filename := by
  unfold Cursor.next
  split
  · rfl
  · split <;> rfl

/-- Two sequences of tokens that are the same to a reader. Where `same` holds they are the same
altogether. -/
structure Twins where
  first : List Token
  second : List Token
  alike : List.Forall₂ Token.Alike first second
  same : Prop
  eq : same → first = second

/-- Stops at a token of some sequence: with a fault in its place, or because the literal of some token
cannot be written into the fault. -/
def Failure.StopsAt (failure : Failure) (tokens : List Token) (t : Token) : Prop :=
  (∃ fault : Fault, failure = .fault fault ∧ fault.phase = .reading ∧ fault.line = t.line ∧
    fault.column = t.column) ∨
  failure = .host .digitLimit ∧ ∃ u ∈ tokens, u.literal.plain? = none

namespace Parser

theorem bind_of_error {α β : Type} {p : Parser α} {f : α → Parser β} {c : Cursor} {failure : Failure}
    (stops : p c = .error failure) : (p >>= f) c = .error failure := by
  change (p c >>= fun s => f s.1 s.2) = _
  rw [stops]
  rfl

/-- Gives a text without moving, unless it would have to write out the literal of a token that cannot
be written. -/
def Names (p : Parser String) (tokens : List Token) : Prop :=
  (∃ text, ∀ c, p c = .ok (text, c)) ∨
    (∃ t ∈ tokens, t.literal.plain? = none) ∧ ∀ c, p c = .error (.host .digitLimit)

theorem names_written {tokens : List Token} {t : Token} (member : t ∈ tokens) :
    Names (liftM (written t.literal.plain?)) tokens := by
  cases plain : t.literal.plain? with
  | none => exact .inr ⟨⟨t, member, plain⟩, fun c => rfl⟩
  | some text => exact .inl ⟨text, fun c => rfl⟩

theorem names_describe {tokens : List Token} {t : Token} (member : t ∈ tokens) :
    Names (describe t) tokens := by
  unfold describe
  split
  · exact .inl ⟨_, fun c => rfl⟩
  · exact .inl ⟨_, fun c => rfl⟩
  · exact .inl ⟨_, fun c => rfl⟩
  · exact .inl ⟨_, fun c => rfl⟩
  split
  · exact .inl ⟨_, fun c => rfl⟩
  · next _ literal _ same =>
    rcases names_written member with ⟨text, writes⟩ | ⟨missing, stops⟩
    · refine .inl ⟨s!"'{text}'", fun c => ?_⟩
      rw [bind_of_ok (writes c)]
      rfl
    · exact .inr ⟨missing, fun c => bind_of_error (stops c)⟩

end Parser

namespace Twins

variable {T : Twins} {t u : Token} {i n : Nat} {c d : Cursor} {k : Kind}

/-- Tokens in the same place of both sequences. -/
def At (T : Twins) (t u : Token) : Prop := ∃ i : Nat, T.first[i]? = some t ∧ T.second[i]? = some u

theorem At.alike (twins : T.At t u) : t.Alike u := by
  obtain ⟨i, first, second⟩ := twins
  obtain ⟨within, rfl⟩ := List.getElem?_eq_some_iff.mp first
  obtain ⟨within', rfl⟩ := List.getElem?_eq_some_iff.mp second
  exact (List.forall₂_iff_get.mp T.alike).2 i within within'

theorem At.kind (twins : T.At t u) : t.kind = u.kind := twins.alike.kind

theorem At.eq (twins : T.At t u) (same : T.same) : t = u := by
  obtain ⟨i, first, second⟩ := twins
  rw [T.eq same, second] at first
  cases first
  rfl

theorem At.mem (twins : T.At t u) : t ∈ T.first ∧ u ∈ T.second := by
  obtain ⟨i, first, second⟩ := twins
  exact ⟨List.mem_of_getElem? first, List.mem_of_getElem? second⟩

/-- Two cursors in the same place of both sequences. -/
structure Beside (T : Twins) (i : Nat) (c d : Cursor) : Prop where
  first : c.tokens = T.first.drop i
  second : d.tokens = T.second.drop i
  closed : c.Closed
  filename : T.same → c.filename = d.filename

/-- Two cursors with at most `n` tokens in front of them. -/
def Ahead (T : Twins) (n : Nat) (c d : Cursor) : Prop := (∃ i, T.Beside i c d) ∧ c.tokens.length ≤ n

/-- Two cursors on tokens of this kind. -/
def On (T : Twins) (k : Kind) (n : Nat) (c d : Cursor) : Prop := T.Ahead n c d ∧ c.current.kind = k

theorem Ahead.current (ahead : T.Ahead n c d) : T.At c.current d.current := by
  obtain ⟨⟨i, beside⟩, -⟩ := ahead
  have here {tokens : List Token} {c : Cursor} (there : c.tokens = tokens.drop i) :
      tokens[i]? = some c.current := by
    rw [← List.head?_drop, ← there]
    rfl
  exact ⟨i, here beside.first, here beside.second⟩

theorem Ahead.filled (ahead : T.Ahead n c d) : n ≠ 0 := by
  have := c.length_pos
  have := ahead.2
  omega

theorem Ahead.mono {m : Nat} (ahead : T.Ahead n c d) (le : n ≤ m) : T.Ahead m c d :=
  ⟨ahead.1, Nat.le_trans ahead.2 le⟩

theorem Ahead.filename (ahead : T.Ahead n c d) (same : T.same) : c.filename = d.filename := by
  obtain ⟨⟨i, beside⟩, -⟩ := ahead
  exact beside.filename same

theorem Ahead.eq (ahead : T.Ahead n c d) (same : T.same) : c = d := by
  obtain ⟨⟨i, beside⟩, -⟩ := ahead
  have tokens : c.tokens = d.tokens := by rw [beside.first, beside.second, T.eq same]
  exact Cursor.Passes.eq ⟨tokens, beside.filename same⟩

theorem Ahead.length (ahead : T.Ahead n c d) : d.tokens.length = c.tokens.length := by
  obtain ⟨⟨i, beside⟩, -⟩ := ahead
  rw [beside.first, beside.second, List.length_drop, List.length_drop, T.alike.length_eq]

/-- Both cursors move on. -/
theorem Ahead.next (ahead : T.Ahead n c d) (inside : c.current.kind ≠ .eof) :
    T.Ahead (n - 1) c.next d.next := by
  have kind := ahead.current.kind
  have length := ahead.length
  obtain ⟨⟨i, beside⟩, bound⟩ := ahead
  have passes := beside.closed.passes_next inside
  have tokens : c.tokens.tail = c.next.tokens := by rw [passes.tokens]; rfl
  have tokens' : d.tokens.tail = d.next.tokens := by
    have more : d.rest ≠ [] := by
      intro none
      have one : d.tokens.length = 1 := by simp [Cursor.tokens, none]
      have := passes.length
      have := c.next.length_pos
      rw [List.length_singleton] at *
      omega
    obtain ⟨t, rest, more⟩ := List.exists_cons_of_ne_nil more
    simp [Cursor.tokens, Cursor.next, more, ← kind, inside]
  refine ⟨⟨i + 1, ?_, ?_, beside.closed.of_passes passes, fun same => ?_⟩, ?_⟩
  · rw [← tokens, beside.first, List.tail_drop]
  · rw [← tokens', beside.second, List.tail_drop]
  · rw [Cursor.next_filename, Cursor.next_filename, beside.filename same]
  · have := passes.length
    rw [List.length_singleton] at this
    omega

/-- What two readers come to: related results, or a stop at the same token. -/
inductive Agree {α β : Type} (T : Twins) (after : Cursor → Cursor → Prop) (R : α → β → Prop) :
    Except Failure (α × Cursor) → Except Failure (β × Cursor) → Prop where
  | done {a : α} {b : β} {c d : Cursor} : R a b → after c d → Agree T after R (.ok (a, c)) (.ok (b, d))
  | stopped {e e' : Failure} {t u : Token} : T.At t u → e.StopsAt T.first t → e'.StopsAt T.second u →
      (T.same → e = e') → Agree T after R (.error e) (.error e')

/-- Two readers that come to the same from cursors side by side. -/
def Accords {α β : Type} (T : Twins) (before after : Cursor → Cursor → Prop) (R : α → β → Prop)
    (p : Parser α) (q : Parser β) : Prop :=
  ∀ c d, before c d → T.Agree after R (p c) (q d)

section Rules

open Stepwise.Parser

variable {α β γ δ : Type} {before mid after : Cursor → Cursor → Prop} {R : α → β → Prop}
  {S : γ → δ → Prop}

theorem Accords.pure {a : α} {b : β} (weaker : ∀ c d, before c d → after c d) (related : R a b) :
    T.Accords before after R (pure a) (pure b) :=
  fun c d start => .done related (weaker c d start)

theorem Accords.bind {p : Parser α} {q : Parser β} {f : α → Parser γ} {g : β → Parser δ}
    (first : T.Accords before mid R p q)
    (then_ : ∀ a b, R a b → T.Accords mid after S (f a) (g b)) :
    T.Accords before after S (p >>= f) (q >>= g) := by
  intro c d start
  have run : (p >>= f) c = (p c >>= fun s => f s.1 s.2) := rfl
  have run' : (q >>= g) d = (q d >>= fun s => g s.1 s.2) := rfl
  have agree := first c d start
  rw [run, run']
  generalize p c = x, q d = y at agree ⊢
  cases agree with
  | done related between => exact then_ _ _ related _ _ between
  | stopped twins stops stops' same => exact .stopped twins stops stops' same

theorem Accords.weaken {p : Parser α} {q : Parser β} {before' after' : Cursor → Cursor → Prop}
    {R' : α → β → Prop} (accords : T.Accords before after R p q)
    (fewer : ∀ c d, before' c d → before c d) (weaker : ∀ c d, after c d → after' c d)
    (implied : ∀ a b, R a b → R' a b) : T.Accords before' after' R' p q := by
  intro c d start
  have agree := accords c d (fewer c d start)
  generalize p c = x, q d = y at agree ⊢
  cases agree with
  | done related between => exact .done (implied _ _ related) (weaker _ _ between)
  | stopped twins stops stops' same => exact .stopped twins stops stops' same

theorem Accords.looser {m : Nat} {p : Parser α} {q : Parser β}
    (accords : T.Accords before (T.Ahead m) R p q) (le : m ≤ n) :
    T.Accords before (T.Ahead n) R p q :=
  accords.weaken (fun _ _ => id) (fun _ _ ahead => ahead.mono le) fun _ _ => id

theorem Accords.map {p : Parser α} {q : Parser β} {f : α → γ} {g : β → δ}
    (accords : T.Accords before after R p q) (related : ∀ a b, R a b → S (f a) (g b)) :
    T.Accords before after S (f <$> p) (g <$> q) := by
  rw [map_eq_pure_bind, map_eq_pure_bind]
  exact accords.bind fun a b holds => .pure (fun _ _ => id) (related a b holds)

/-- Nothing is in front of cursors without tokens. -/
theorem accords_none {p : Parser α} {q : Parser β} (none : n ≤ 0) :
    T.Accords (T.Ahead n) after R p q :=
  fun _ _ ahead => absurd (Nat.le_zero.mp none) ahead.filled

theorem accords_current {f : Token → Parser α} {g : Token → Parser β}
    (then_ : ∀ t u, T.At t u → T.Accords (T.On t.kind n) after R (f t) (g u)) :
    T.Accords (T.Ahead n) after R (current >>= f) (current >>= g) :=
  fun c d ahead => then_ _ _ ahead.current c d ⟨ahead, rfl⟩

theorem accords_kind {f : Kind → Parser α} {g : Kind → Parser β}
    (then_ : ∀ k, T.Accords (T.On k n) after R (f k) (g k)) :
    T.Accords (T.Ahead n) after R (kind >>= f) (kind >>= g) := by
  intro c d ahead
  rw [bind_of_ok kind_run, bind_of_ok kind_run, ← ahead.current.kind]
  exact then_ _ c d ⟨ahead, rfl⟩

theorem accords_at {f : Bool → Parser α} {g : Bool → Parser β}
    (yes : T.Accords (T.On k n) after R (f true) (g true))
    (no : T.Accords (T.Ahead n) after R (f false) (g false)) :
    T.Accords (T.Ahead n) after R (at? k >>= f) (at? k >>= g) := by
  intro c d ahead
  rw [bind_of_ok (at_run k), bind_of_ok (at_run k), ← ahead.current.kind]
  by_cases here : c.current.kind = k
  · rw [beq_iff_eq.mpr here]
    exact yes c d ⟨ahead, here⟩
  · rw [beq_false_of_ne here]
    exact no c d ahead

theorem Accords.on {p : Parser α} {q : Parser β} (accords : T.Accords (T.Ahead n) after R p q) :
    T.Accords (T.On k n) after R p q :=
  accords.weaken (fun _ _ here => here.1) (fun _ _ => id) fun _ _ => id

theorem accords_advance (inside : k ≠ .eof) :
    T.Accords (T.On k n) (T.Ahead (n - 1)) (fun t u => T.At t u ∧ t.kind = k) advance advance := by
  rintro c d ⟨ahead, kind⟩
  rw [advance_run, advance_run]
  exact .done ⟨ahead.current, kind⟩ (ahead.next (by rwa [kind]))

theorem accords_accept {f : Bool → Parser α} {g : Bool → Parser β} (inside : k ≠ .eof)
    (yes : T.Accords (T.Ahead (n - 1)) after R (f true) (g true))
    (no : T.Accords (T.Ahead n) after R (f false) (g false)) :
    T.Accords (T.Ahead n) after R (accept k >>= f) (accept k >>= g) := by
  intro c d ahead
  have kind := ahead.current.kind
  by_cases here : c.current.kind = k
  · rw [bind_of_ok (accept_of_eq here), bind_of_ok (accept_of_eq (kind ▸ here))]
    exact yes _ _ (ahead.next (by rwa [here]))
  · rw [bind_of_ok (accept_of_ne here), bind_of_ok (accept_of_ne (kind ▸ here))]
    exact no c d ahead

/-- The number of tokens in front is the same at both. -/
theorem accords_remaining {f : Nat → Parser α} {g : Nat → Parser β}
    (then_ : ∀ m, m ≤ n → T.Accords (T.Ahead m) after R (f m) (g m)) :
    T.Accords (T.Ahead n) after R (remaining >>= f) (remaining >>= g) := by
  intro c d ahead
  rw [bind_of_ok remaining_run, bind_of_ok remaining_run, ahead.length]
  exact then_ _ ahead.2 c d ⟨ahead.1, Nat.le_refl _⟩

theorem accords_failAt (twins : T.At t u) {message : String} {suggestion : Option String} :
    T.Accords (T.Ahead n) after R (failAt t message suggestion) (failAt u message suggestion) := by
  intro c d ahead
  refine .stopped twins (.inl ⟨_, rfl, rfl, rfl, rfl⟩) (.inl ⟨_, rfl, rfl, rfl, rfl⟩) fun same => ?_
  rw [twins.eq same, ahead.filename same]

theorem accords_fail {message message' : String} {suggestion : Option String}
    (same : T.same → message = message') :
    T.Accords (T.Ahead n) after R (fail message suggestion) (fail message' suggestion) := by
  intro c d ahead
  refine .stopped ahead.current (.inl ⟨_, rfl, rfl, rfl, rfl⟩) (.inl ⟨_, rfl, rfl, rfl, rfl⟩)
    fun equal => ?_
  rw [ahead.eq equal, same equal]

/-- A fault that names something stops here, even where the name cannot be written. -/
theorem accords_complaint {p q : Parser String} (first : Names p T.first) (second : Names q T.second)
    (same : T.same → p = q) {message : String → String} {suggestion : Option String} :
    T.Accords (T.Ahead n) after R (p >>= fun text => fail (message text) suggestion)
      (q >>= fun text => fail (message text) suggestion) := by
  intro c d ahead
  have stops {tokens : List Token} {p : Parser String} (names : Names p tokens) (c : Cursor) :
      ∃ e : Failure, e.StopsAt tokens c.current ∧ ∀ {α : Type},
        (p >>= fun text => fail (message text) suggestion : Parser α) c = .error e := by
    rcases names with ⟨text, gives⟩ | ⟨missing, breaks⟩
    · exact ⟨_, .inl ⟨_, rfl, rfl, rfl, rfl⟩, bind_of_ok (gives c)⟩
    · exact ⟨_, .inr ⟨rfl, missing⟩, bind_of_error (breaks c)⟩
  obtain ⟨e, there, run⟩ := stops first c
  obtain ⟨e', there', run'⟩ := stops second d
  rw [run, run']
  refine .stopped ahead.current there there' fun equal => ?_
  have both := @run' α
  rw [← same equal, ← ahead.eq equal, run] at both
  exact Except.error.inj both

end Rules

end Twins

end Stepwise
