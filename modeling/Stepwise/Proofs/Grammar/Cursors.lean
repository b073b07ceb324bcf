import Stepwise.Tree.Cursor

/-!
Cursors along a sequence of tokens, and what the smallest readers do at one. A reader that succeeds
has passed some tokens: `Passes` relates the cursors before and behind them.
-/
namespace Stepwise

/-- The tokens from the current one on. -/
def Cursor.tokens (c : Cursor) : List Token := c.current :: c.rest

/-- The second cursor stands behind the tokens `w` that the first one stands before. -/
structure Cursor.Passes (c : Cursor) (w : List Token) (c' : Cursor) : Prop where
  tokens : c.tokens = w ++ c'.tokens
  filename : c.filename = c'.filename

/-- The last token marks the end. -/
def Cursor.Closed (c : Cursor) : Prop :=
  ∃ before mark, c.tokens = before ++ [mark] ∧ mark.kind = .eof

namespace Cursor

variable {c c' c'' : Cursor} {v w : List Token} {t : Token}

theorem Passes.refl (c : Cursor) : c.Passes [] c := ⟨rfl, rfl⟩

theorem Passes.trans (first : c.Passes v c') (second : c'.Passes w c'') : c.Passes (v ++ w) c'' :=
  ⟨by rw [first.tokens, second.tokens, List.append_assoc], first.filename.trans second.filename⟩

/-- Between two sequences that are passed one after the other stands a cursor. -/
theorem Passes.split (passes : c.Passes (v ++ w) c') : ∃ m, c.Passes v m ∧ m.Passes w c' := by
  have tokens := passes.tokens
  rw [List.append_assoc] at tokens
  cases rest : w ++ c'.tokens with
  | nil => simp [Cursor.tokens] at rest
  | cons t u =>
    rw [rest] at tokens
    exact ⟨⟨t, u, c.filename⟩, ⟨tokens, rfl⟩, ⟨rest.symm, passes.filename⟩⟩

theorem Passes.current (passes : c.Passes (t :: w) c') : c.current = t :=
  (List.cons.inj passes.tokens).1

theorem Passes.next (passes : c.Passes (t :: w) c') (inside : t.kind ≠ .eof) :
    c.next.Passes w c' := by
  have rest := (List.cons.inj passes.tokens).2
  cases following : w ++ c'.tokens with
  | nil => simp [Cursor.tokens] at following
  | cons s u =>
    have rest : c.rest = s :: u := rest.trans following
    have moved : c.next = ⟨s, u, c.filename⟩ := by
      simp [Cursor.next, passes.current, inside, rest]
    rw [moved]
    exact ⟨following.symm, passes.filename⟩

theorem Passes.length (passes : c.Passes w c') :
    c.tokens.length = w.length + c'.tokens.length := by
  rw [passes.tokens, List.length_append]

theorem length_pos (c : Cursor) : 0 < c.tokens.length := by simp [Cursor.tokens]

theorem Passes.eq (passes : c.Passes [] c') : c = c' := by
  obtain ⟨tokens, filename⟩ := passes
  obtain ⟨current, rest⟩ := List.cons.inj tokens
  cases c
  cases c'
  simp_all

theorem Closed.of_passes (closed : c.Closed) (passes : c.Passes w c') : c'.Closed := by
  obtain ⟨before, mark, tokens, kind⟩ := closed
  have last : (c'.current :: c'.rest).getLast (by simp) = mark := by
    have same : c.tokens.getLast? = some mark := by simp [tokens]
    rw [passes.tokens, List.getLast?_append] at same
    simpa [Cursor.tokens, List.getLast?_eq_some_getLast] using same
  exact ⟨_, mark, by
    rw [← last]
    exact (List.dropLast_concat_getLast (List.cons_ne_nil _ _)).symm, kind⟩

theorem Closed.passes_next (closed : c.Closed) (inside : c.current.kind ≠ .eof) :
    c.Passes [c.current] c.next := by
  obtain ⟨before, mark, tokens, kind⟩ := closed
  cases rest : c.rest with
  | nil =>
    cases before with
    | nil =>
      rw [(List.cons.inj tokens).1] at inside
      exact absurd kind inside
    | cons t before =>
      have none := (List.cons.inj tokens).2
      rw [rest] at none
      simp at none
  | cons t u => exact ⟨by simp [Cursor.tokens, Cursor.next, inside, rest], by
      simp [Cursor.next, inside, rest]⟩

/-- Tokens with an end mark behind those that lack one. -/
def marked (tokens : List Token) : List Token :=
  match tokens.getLast? with
  | none => [⟨.eof, .scalar .null, some 1, some 1⟩]
  | some last =>
    if last.kind = .eof then tokens else tokens ++ [⟨.eof, .scalar .null, last.line, last.column⟩]

theorem marked_append {r : List Token} (w : List Token) (behind : r ≠ []) :
    marked (w ++ r) = w ++ marked r := by
  obtain ⟨last, found⟩ : ∃ last, r.getLast? = some last :=
    ⟨_, List.getLast?_eq_some_getLast behind⟩
  have longer : (w ++ r).getLast? = some last := by
    rw [List.getLast?_append, found]
    rfl
  unfold marked
  rw [found, longer]
  by_cases kind : last.kind = .eof
  · simp only [kind, if_true]
  · simp only [kind, if_false, List.append_assoc]

/-- The first token stays first. -/
theorem marked_cons (t : Token) (r : List Token) : ∃ u, marked (t :: r) = t :: u := by
  unfold marked
  rw [List.getLast?_eq_some_getLast (List.cons_ne_nil t r)]
  dsimp only
  split
  · exact ⟨r, rfl⟩
  · exact ⟨_, rfl⟩

/-- What is in front of a cursor that was put at the head of some tokens. -/
theorem headed_tokens (filename : String) (closed : List Token) (filled : closed ≠ []) :
    (match closed with
      | [] => (⟨⟨.eof, .scalar .null, some 1, some 1⟩, [], filename⟩ : Cursor)
      | token :: rest => ⟨token, rest, filename⟩).tokens = closed ∧
    (match closed with
      | [] => (⟨⟨.eof, .scalar .null, some 1, some 1⟩, [], filename⟩ : Cursor)
      | token :: rest => ⟨token, rest, filename⟩).filename = filename := by
  cases closed with
  | nil => exact absurd rfl filled
  | cons t u => exact ⟨rfl, rfl⟩

theorem start_tokens (tokens : List Token) (filename : String) :
    (Cursor.start tokens filename).tokens = marked tokens ∧
      (Cursor.start tokens filename).filename = filename := by
  have headed := headed_tokens filename
  unfold Cursor.start marked
  cases found : tokens.getLast? with
  | none => exact headed [_] (List.cons_ne_nil _ _)
  | some last =>
    by_cases kind : last.kind = .eof
    · simp only [kind, if_true]
      refine headed tokens ?_
      rintro rfl
      cases found
    · simp only [kind, if_false]
      exact headed _ (by simp)

theorem start_closed (tokens : List Token) (filename : String) :
    (Cursor.start tokens filename).Closed := by
  unfold Closed
  rw [(start_tokens tokens filename).1]
  unfold marked
  cases found : tokens.getLast? with
  | none => exact ⟨[], _, rfl, rfl⟩
  | some last =>
    obtain ⟨before, rfl⟩ := List.getLast?_eq_some_iff.mp found
    dsimp only
    split
    · next kind => exact ⟨before, last, rfl, kind⟩
    · exact ⟨before ++ [last], _, rfl, rfl⟩

/-- The cursor on a longer sequence passes up to the one on what is behind. -/
theorem start_passes {r : List Token} (w : List Token) (filename : String) (behind : r ≠ []) :
    (Cursor.start (w ++ r) filename).Passes w (Cursor.start r filename) := by
  obtain ⟨tokens, name⟩ := start_tokens (w ++ r) filename
  obtain ⟨tokens', name'⟩ := start_tokens r filename
  exact ⟨by rw [tokens, tokens', marked_append w behind], name.trans name'.symm⟩

/-- The cursor at the start stands on the first token. -/
theorem start_current (t : Token) (r : List Token) (filename : String) :
    (Cursor.start (t :: r) filename).current = t := by
  obtain ⟨u, same⟩ := marked_cons t r
  have tokens := (start_tokens (t :: r) filename).1
  rw [same] at tokens
  exact (List.cons.inj tokens).1

end Cursor

namespace Parser

open Token (Kind)

variable {α β : Type} {c : Cursor}

theorem bind_eq_ok {p : Parser α} {f : α → Parser β} {b : β} {c' : Cursor} :
    (p >>= f) c = .ok (b, c') ↔ ∃ a m, p c = .ok (a, m) ∧ f a m = .ok (b, c') := by
  change (p c >>= fun s => f s.1 s.2) = .ok (b, c') ↔ _
  cases p c with
  | error failure =>
    constructor
    · intro same
      cases same
    · rintro ⟨a, m, same, -⟩
      cases same
  | ok pair =>
    constructor
    · exact fun same => ⟨pair.1, pair.2, rfl, same⟩
    · rintro ⟨a, m, same, read⟩
      cases same
      exact read

/-- Reading goes on where the first reader stopped. -/
theorem bind_of_ok {p : Parser α} {f : α → Parser β} {a : α} {m : Cursor}
    (read : p c = .ok (a, m)) : (p >>= f) c = f a m := by
  change (p c >>= fun s => f s.1 s.2) = _
  rw [read]
  rfl

@[simp] theorem pure_run (a : α) : (pure a : Parser α) c = .ok (a, c) := rfl

@[simp] theorem current_run : current c = .ok (c.current, c) := rfl

@[simp] theorem kind_run : kind c = .ok (c.current.kind, c) := rfl

@[simp] theorem at_run (k : Kind) : at? k c = .ok (c.current.kind == k, c) := rfl

@[simp] theorem remaining_run : remaining c = .ok (c.tokens.length, c) := rfl

@[simp] theorem advance_run : advance c = .ok (c.current, c.next) := rfl

theorem accept_run (k : Kind) :
    accept k c = .ok (c.current.kind == k, if c.current.kind == k then c.next else c) := by
  unfold accept
  rw [bind_of_ok (at_run k)]
  cases c.current.kind == k <;> rfl

theorem accept_of_eq {k : Kind} (here : c.current.kind = k) : accept k c = .ok (true, c.next) := by
  simp [accept_run, here]

theorem accept_of_ne {k : Kind} (elsewhere : c.current.kind ≠ k) :
    accept k c = .ok (false, c) := by
  simp [accept_run, elsewhere]

theorem accept_eq_ok {k : Kind} {b : Bool} {c' : Cursor} (read : accept k c = .ok (b, c')) :
    (b = true ∧ c.current.kind = k ∧ c' = c.next) ∨ (b = false ∧ c.current.kind ≠ k ∧ c' = c) := by
  by_cases here : c.current.kind = k
  · rw [accept_of_eq here] at read
    cases read
    exact .inl ⟨rfl, here, rfl⟩
  · rw [accept_of_ne here] at read
    cases read
    exact .inr ⟨rfl, here, rfl⟩

theorem fail_run (message : String) (suggestion : Option String) (a : α) (c' : Cursor) :
    (fail message suggestion : Parser α) c ≠ .ok (a, c') := nofun

theorem expect_of_eq {k : Kind} {suggestion : Option String} (here : c.current.kind = k) :
    expect k suggestion c = .ok (c.current, c.next) := by
  unfold expect
  rw [bind_of_ok (at_run k)]
  simp [here]

theorem expect_eq_ok {k : Kind} {suggestion : Option String} {t : Token} {c' : Cursor} :
    expect k suggestion c = .ok (t, c') ↔ c.current.kind = k ∧ t = c.current ∧ c' = c.next := by
  by_cases here : c.current.kind = k
  · rw [expect_of_eq here]
    simp [here, eq_comm]
  · simp only [here, false_and, iff_false]
    intro read
    unfold expect at read
    rw [bind_of_ok (at_run k), if_neg (by simpa using here)] at read
    obtain ⟨_, _, -, read⟩ := bind_eq_ok.mp read
    obtain ⟨_, _, -, read⟩ := bind_eq_ok.mp read
    exact fail_run _ _ _ _ read

end Parser

end Stepwise
