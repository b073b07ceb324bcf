import Stepwise.Proofs.Grammar.Cursors
import Stepwise.Proofs.Joining.Texts

/-!
Reading tokens that go on. A cursor stands on the tokens of a text, another one on the same tokens
further down in a longer text (`Alongside`). A reader that succeeds at the first one gives the same tree
at the other one, moved down (`Tracks`); one rule for each of the smallest readers. A reader must not look
for what follows while the first cursor is at its end, except for the few kinds that the longer text
cannot go on with there (`Seam.fresh`).
-/
namespace Stepwise

open Token (Kind)

/-- Where a text goes on in a longer one, so many lines further down. -/
structure Seam where
  lines : Nat
  first : Token
  others : List Token
  fresh : first.kind ∉ [.newline, .indent, .kwElif, .kwElse]

/-- Two sequences of tokens with the same blocks, `depth` of which are open. The second one is further
down, and goes on at the end of the first one. Only the marks that close blocks may stand elsewhere. -/
inductive Alongside (seam : Seam) : Nat → List Token → List Token → Prop
  | ends {mark : Token} : mark.kind = .eof →
      Alongside seam 0 [mark] (seam.first :: seam.others)
  | code {depth : Nat} {t u : Token} {ts us : List Token} : t.kind.IsCode →
      u.kind ∉ [.eof, .dedent] → Alongside seam depth (u :: ts) us →
      Alongside seam depth (t :: u :: ts) (t.down seam.lines :: us)
  | newline {depth : Nat} {t : Token} {ts us : List Token} : t.kind = .newline →
      Alongside seam depth ts us → Alongside seam depth (t :: ts) (t.down seam.lines :: us)
  | indent {depth : Nat} {t : Token} {ts us : List Token} : t.kind = .indent →
      Alongside seam (depth + 1) ts us → Alongside seam depth (t :: ts) (t.down seam.lines :: us)
  | dedent {depth : Nat} {t t' : Token} {ts us : List Token} : t.kind = .dedent → t'.kind = .dedent →
      Alongside seam depth ts us → Alongside seam (depth + 1) (t :: ts) (t' :: us)

theorem Alongside.filled {seam : Seam} {depth : Nat} {ts us : List Token} (along : Alongside seam depth ts us) :
    (∃ t ts', ts = t :: ts') ∧ ∃ u us', us = u :: us' := by
  cases along <;> exact ⟨⟨_, _, rfl⟩, _, _, rfl⟩

/-- What is written neither ends the text nor closes a block. -/
theorem Token.Kind.IsCode.inside {k : Kind} (code : k.IsCode) : k ∉ [.eof, .dedent] := by
  intro mark
  rcases List.mem_cons.mp mark with rfl | mark
  · exact code (by decide)
  · rw [List.mem_singleton.mp mark] at code
    exact code (by decide)

namespace Cursor

variable {seam : Seam} {depth n : Nat} {c d : Cursor}

/-- Two cursors on such tokens, of which there are at most `n`. -/
structure Even (seam : Seam) (depth n : Nat) (c d : Cursor) : Prop where
  tokens : Alongside seam depth c.tokens d.tokens
  bound : c.tokens.length ≤ n

/-- Two cursors in front of something that belongs to the block they are in. -/
structure Live (seam : Seam) (depth n : Nat) (c d : Cursor) : Prop extends Even seam depth n c d where
  inside : c.current.kind ∉ [.eof, .dedent]

/-- Two cursors on tokens of this kind. -/
structure Here (seam : Seam) (k : Kind) (depth n : Nat) (c d : Cursor) : Prop
    extends Even seam depth n c d where
  kind : c.current.kind = k

theorem Even.mono {m : Nat} (even : Even seam depth n c d) (le : n ≤ m) : Even seam depth m c d :=
  ⟨even.tokens, Nat.le_trans even.bound le⟩

theorem Live.mono {m : Nat} (live : Live seam depth n c d) (le : n ≤ m) : Live seam depth m c d :=
  ⟨live.toEven.mono le, live.inside⟩

theorem Live.here (live : Live seam depth n c d) : Here seam c.current.kind depth n c d :=
  ⟨live.toEven, rfl⟩

theorem Here.live {k : Kind} (here : Here seam k depth n c d) (inside : k ∉ [.eof, .dedent]) :
    Live seam depth n c d :=
  ⟨here.toEven, by rwa [here.kind]⟩

theorem Here.live_code {k : Kind} (here : Here seam k depth n c d) (code : k.IsCode) :
    Live seam depth n c d :=
  here.live code.inside

theorem Even.filled (even : Even seam depth n c d) : n ≠ 0 := by
  have := c.length_pos
  have := even.bound
  omega

/-- The second cursor has what follows the text in front of it as well. -/
theorem Even.length (even : Even seam depth n c d) :
    d.tokens.length = c.tokens.length + seam.others.length := by
  have length {depth : Nat} {ts us : List Token} (along : Alongside seam depth ts us) :
      us.length = ts.length + seam.others.length := by
    induction along with
    | ends => simp [Nat.add_comm]
    | code _ _ _ ih | newline _ _ ih | indent _ _ ih | dedent _ _ _ ih =>
      simp only [List.length_cons, ih] at *
      omega
  exact length even.tokens

theorem next_tokens {t : Token} {ts : List Token} (inside : c.current.kind ≠ .eof)
    (rest : c.rest = t :: ts) : c.next.tokens = c.rest := by
  unfold Cursor.next
  rw [if_neg inside, rest]
  rfl

/-- At the end of the first text no block is open, and the second one goes on. -/
theorem Even.over (even : Even seam depth n c d) (done : c.current.kind = .eof) :
    depth = 0 ∧ c.tokens.length = 1 ∧ d.tokens = seam.first :: seam.others := by
  obtain ⟨along, -⟩ := even
  obtain ⟨t, ts, filename⟩ := c
  change Alongside seam depth (t :: ts) d.tokens at along
  generalize d.tokens = us at along ⊢
  cases along with
  | ends => exact ⟨rfl, rfl, rfl⟩
  | code code => exact absurd (by simp [show t.kind = .eof from done]) code
  | newline kind | indent kind | dedent kind => cases kind.symm.trans done

/-- What a move past a token of some kind does to the number of open blocks. -/
def Turns (k : Kind) (depth depth' : Nat) : Prop :=
  match k with
  | .indent => depth' = depth + 1
  | .dedent => depth = depth' + 1
  | _ => depth' = depth

/-- Up to the end of the first text the same tokens stand in both, and moving on keeps it so. -/
theorem Even.step (even : Even seam depth n c d) (inside : c.current.kind ≠ .eof) :
    d.current.kind = c.current.kind ∧
      (c.current.kind ≠ .dedent → d.current = c.current.down seam.lines) ∧
      ∃ depth', Turns c.current.kind depth depth' ∧ Even seam depth' (n - 1) c.next d.next ∧
        (c.current.kind.IsCode → c.next.current.kind ∉ [.eof, .dedent]) := by
  obtain ⟨along, bound⟩ := even
  obtain ⟨t, ts, filename⟩ := c
  obtain ⟨t', us, filename'⟩ := d
  have moved {depth' : Nat} (same : t'.kind = t.kind) (rest : Alongside seam depth' ts us) :
      Even seam depth' (n - 1) (Cursor.next ⟨t, ts, filename⟩) (Cursor.next ⟨t', us, filename'⟩) := by
    obtain ⟨⟨u, vs, rfl⟩, u', vs', rfl⟩ := rest.filled
    refine ⟨?_, ?_⟩
    · rw [next_tokens inside rfl, next_tokens (show t'.kind ≠ .eof by rwa [same]) rfl]
      exact rest
    · rw [next_tokens inside rfl]
      exact Nat.le_sub_one_of_lt bound
  change Alongside seam depth (t :: ts) (t' :: us) at along
  cases along with
  | ends kind => exact absurd kind inside
  | @code _ _ u ts us code ahead rest =>
    refine ⟨rfl, fun _ => rfl, depth, ?_, moved rfl rest, fun _ => ?_⟩
    · dsimp only
      unfold Turns
      split <;> simp_all [Token.Kind.IsCode]
    · have tokens := @next_tokens ⟨t, u :: ts, filename⟩ _ _ inside rfl
      rw [(List.cons.inj tokens).1]
      exact ahead
  | newline kind rest =>
    refine ⟨rfl, fun _ => rfl, depth, ?_, moved rfl rest, fun code => ?_⟩
    · rw [kind]
      rfl
    · exact absurd (by simp [kind]) code
  | indent kind rest =>
    refine ⟨rfl, fun _ => rfl, depth + 1, ?_, moved rfl rest, fun code => ?_⟩
    · rw [kind]
      rfl
    · exact absurd (by simp [kind]) code
  | @dedent depth _ _ _ _ kind kind' rest =>
    have same : t'.kind = t.kind := kind'.trans kind.symm
    refine ⟨same, fun other => absurd kind other, depth, ?_, moved same rest, fun code => ?_⟩
    · rw [kind]
      rfl
    · exact absurd (by simp [kind]) code

end Cursor

namespace Parser

open Cursor (Even Live Here)

variable {α β γ δ : Type} {before mid after : Cursor → Cursor → Prop}

/-- What the first reader gives at one cursor, the second one gives at the other, but for `f`. -/
def Tracks (before after : Cursor → Cursor → Prop) (f : α → β) (p : Parser α) (p' : Parser β) : Prop :=
  ∀ c d, before c d → ∀ a c', p c = .ok (a, c') → ∃ d', p' d = .ok (f a, d') ∧ after c' d'

theorem Tracks.pure {f : α → β} {a : α} {b : β} (weaker : ∀ c d, before c d → after c d)
    (same : f a = b) : Tracks before after f (pure a) (pure b) := by
  rintro c d start _ _ ⟨⟩
  exact ⟨d, by rw [same]; rfl, weaker c d start⟩

theorem Tracks.bind {f : α → β} {g : γ → δ} {p : Parser α} {p' : Parser β} {q : α → Parser γ}
    {q' : β → Parser δ} (first : Tracks before mid f p p')
    (then_ : ∀ a, Tracks mid after g (q a) (q' (f a))) :
    Tracks before after g (p >>= q) (p' >>= q') := by
  intro c d start b c' read
  obtain ⟨a, m, read₁, read₂⟩ := bind_eq_ok.mp read
  obtain ⟨m', read₁', between⟩ := first c d start a m read₁
  obtain ⟨d', read₂', done⟩ := then_ a m m' between b c' read₂
  exact ⟨d', (bind_of_ok read₁').trans read₂', done⟩

theorem Tracks.weaken {f : α → β} {p : Parser α} {p' : Parser β}
    {before' after' : Cursor → Cursor → Prop} (tracks : Tracks before after f p p')
    (fewer : ∀ c d, before' c d → before c d) (weaker : ∀ c d, after c d → after' c d) :
    Tracks before' after' f p p' := by
  intro c d start a c' read
  obtain ⟨d', read', done⟩ := tracks c d (fewer c d start) a c' read
  exact ⟨d', read', weaker c' d' done⟩

theorem Tracks.map {f : α → β} {g : γ → δ} {h : α → γ} {h' : β → δ} {p : Parser α} {p' : Parser β}
    (tracks : Tracks before after f p p') (same : ∀ a, g (h a) = h' (f a)) :
    Tracks before after g (h <$> p) (h' <$> p') := by
  rw [map_eq_pure_bind, map_eq_pure_bind]
  exact tracks.bind fun a => .pure (fun _ _ => id) (same a)

/-- A reader that always fails is tracked by any. -/
theorem Tracks.of_fails {f : α → β} {p : Parser α} {p' : Parser β}
    (fails : ∀ c a c', p c ≠ .ok (a, c')) : Tracks before after f p p' :=
  fun c _ _ a c' read => absurd read (fails c a c')

theorem fails_bind {p : Parser α} {q : α → Parser β} (fails : ∀ a c b c', q a c ≠ .ok (b, c')) :
    ∀ c b c', (p >>= q) c ≠ .ok (b, c') := by
  intro c b c' read
  obtain ⟨a, m, -, read⟩ := bind_eq_ok.mp read
  exact fails a m b c' read

theorem tracks_fail {f : α → β} {message : String} {suggestion : Option String} {p' : Parser β} :
    Tracks before after f (fail message suggestion) p' :=
  .of_fails fun _ => fail_run message suggestion

section Rules

variable {seam : Seam} {depth n : Nat} {k : Kind} {f : α → β}

/-- Nothing is in front of a cursor that has no tokens. -/
theorem tracks_none {p : Parser α} {p' : Parser β} (none : n ≤ 0) :
    Tracks (Live seam depth n) after f p p' :=
  fun _ _ live => absurd (Nat.le_zero.mp none) live.filled

theorem Tracks.looser {m : Nat} {p : Parser α} {p' : Parser β}
    (tracks : Tracks before (Live seam depth m) f p p') (le : m ≤ n) :
    Tracks before (Live seam depth n) f p p' :=
  tracks.weaken (fun _ _ => id) fun _ _ live => live.mono le

theorem tracks_current {q : Token → Parser α} {q' : Token → Parser β}
    (then_ : ∀ t, Tracks (Here seam t.kind depth n) after f (q t) (q' (t.down seam.lines))) :
    Tracks (Live seam depth n) after f (current >>= q) (current >>= q') := by
  intro c d live a c' read
  obtain ⟨ahead, closed⟩ := not_or.mp (mt List.mem_cons.mpr live.inside)
  obtain ⟨-, same, -⟩ := live.step ahead
  rw [bind_of_ok current_run] at read ⊢
  rw [same fun kind => closed (by simp [kind])]
  exact then_ c.current c d live.here a c' read

theorem tracks_kind {q : Kind → Parser α} {q' : Kind → Parser β}
    (then_ : ∀ k, k ∉ [.eof, .dedent] → Tracks (Here seam k depth n) after f (q k) (q' k)) :
    Tracks (Live seam depth n) after f (kind >>= q) (kind >>= q') := by
  intro c d live a c' read
  obtain ⟨same, -⟩ := live.step fun kind => live.inside (by simp [kind])
  rw [bind_of_ok kind_run] at read ⊢
  rw [same]
  exact then_ c.current.kind live.inside c d live.here a c' read

theorem tracks_look {p q : Parser α} {p' q' : Parser β}
    (yes : Tracks (Here seam k depth n) after f p p') (no : Tracks (Live seam depth n) after f q q') :
    Tracks (Live seam depth n) after f (at? k >>= fun here => if here then p else q)
      (at? k >>= fun here => if here then p' else q') := by
  intro c d live a c' read
  obtain ⟨same, -⟩ := live.step fun kind => live.inside (by simp [kind])
  rw [bind_of_ok (at_run k)] at read ⊢
  rw [same]
  by_cases here : c.current.kind = k
  · rw [if_pos (by simpa using here)] at read ⊢
    exact yes c d ⟨live.toEven, here⟩ a c' read
  · rw [if_neg (by simpa using here)] at read ⊢
    exact no c d live a c' read

/-- At the end of the first text as well, no reader finds these kinds. -/
theorem tracks_look_even {p q : Parser α} {p' q' : Parser β}
    (fresh : k ∈ [.newline, .indent, .kwElif, .kwElse])
    (yes : Tracks (Here seam k depth n) after f p p') (no : Tracks (Even seam depth n) after f q q') :
    Tracks (Even seam depth n) after f (at? k >>= fun here => if here then p else q)
      (at? k >>= fun here => if here then p' else q') := by
  intro c d even a c' read
  have same : (d.current.kind == k) = (c.current.kind == k) := by
    by_cases done : c.current.kind = .eof
    · have other : seam.first.kind ≠ k := fun same => seam.fresh (same ▸ fresh)
      have first : d.current = seam.first := (List.cons.inj (even.over done).2.2).1
      have none : Kind.eof ≠ k := by
        rintro rfl
        simp at fresh
      rw [done, first, beq_false_of_ne other, beq_false_of_ne none]
    · rw [(even.step done).1]
  rw [bind_of_ok (at_run k)] at read ⊢
  rw [same]
  by_cases here : c.current.kind = k
  · rw [if_pos (by simpa using here)] at read ⊢
    exact yes c d ⟨even, here⟩ a c' read
  · rw [if_neg (by simpa using here)] at read ⊢
    exact no c d even a c' read

theorem tracks_advance (code : k.IsCode) :
    Tracks (Here seam k depth n) (Live seam depth (n - 1)) (Token.down seam.lines) advance advance := by
  rintro c d here _ _ ⟨⟩
  obtain ⟨even, rfl⟩ := here
  have inside : c.current.kind ≠ .eof := fun kind => code (by simp [kind])
  obtain ⟨-, same, depth', turns, step, ahead⟩ := even.step inside
  obtain rfl : depth' = depth := by
    unfold Cursor.Turns at turns
    split at turns
    next kind => exact absurd (by simp [kind]) code
    next kind => exact absurd (by simp [kind]) code
    next => exact turns
  exact ⟨_, by rw [advance_run, same fun kind => code (by simp [kind])], step, ahead code⟩

theorem tracks_pass {depth' : Nat} (mark : k ∈ [.newline, .indent, .dedent])
    (turns : Cursor.Turns k depth depth') {p : Parser α} {p' : Parser β}
    (then_ : Tracks (Even seam depth' (n - 1)) after f p p') :
    Tracks (Here seam k depth n) after f (advance >>= fun _ => p) (advance >>= fun _ => p') := by
  intro c d here a c' read
  obtain ⟨even, rfl⟩ := here
  obtain ⟨-, -, depth'', turns', step, -⟩ := even.step (by rintro kind; simp [kind] at mark)
  obtain rfl : depth'' = depth' := by
    unfold Cursor.Turns at turns turns'
    split at turns <;> simp_all
  rw [bind_of_ok advance_run] at read ⊢
  exact then_ _ _ step a c' read

/-- Moving over a token is looking at it first. -/
theorem accept_bind (k : Kind) (q : Bool → Parser α) :
    accept k >>= q = at? k >>= fun here => if here then advance >>= fun _ => q true else q false := by
  funext c
  rw [bind_of_ok (at_run k)]
  by_cases here : c.current.kind = k
  · rw [bind_of_ok (accept_of_eq here), if_pos (by simpa using here), bind_of_ok advance_run]
  · rw [bind_of_ok (accept_of_ne here), if_neg (by simpa using here)]

theorem tracks_accept {p q : Parser α} {p' q' : Parser β} (code : k.IsCode)
    (yes : Tracks (Live seam depth (n - 1)) after f p p')
    (no : Tracks (Live seam depth n) after f q q') :
    Tracks (Live seam depth n) after f (accept k >>= fun found => if found then p else q)
      (accept k >>= fun found => if found then p' else q') := by
  rw [accept_bind, accept_bind]
  exact tracks_look ((tracks_advance code).bind fun _ => yes) no

theorem tracks_accept_even {p q : Parser α} {p' q' : Parser β} (code : k.IsCode)
    (fresh : k ∈ [.newline, .indent, .kwElif, .kwElse])
    (yes : Tracks (Live seam depth (n - 1)) after f p p')
    (no : Tracks (Even seam depth n) after f q q') :
    Tracks (Even seam depth n) after f (accept k >>= fun found => if found then p else q)
      (accept k >>= fun found => if found then p' else q') := by
  rw [accept_bind, accept_bind]
  exact tracks_look_even fresh ((tracks_advance code).bind fun _ => yes) no

theorem tracks_accept_newline {p q : Parser α} {p' q' : Parser β}
    (yes : Tracks (Even seam depth (n - 1)) after f p p')
    (no : Tracks (Even seam depth n) after f q q') :
    Tracks (Even seam depth n) after f (accept .newline >>= fun found => if found then p else q)
      (accept .newline >>= fun found => if found then p' else q') := by
  rw [accept_bind, accept_bind]
  exact tracks_look_even (by decide) (tracks_pass (k := .newline) (by decide) (Eq.refl depth) yes) no

theorem tracks_expect {suggestion : Option String} (code : k.IsCode) :
    Tracks (Live seam depth n) (Live seam depth (n - 1)) (Token.down seam.lines) (expect k suggestion)
      (expect k suggestion) := by
  intro c d live t c' read
  obtain ⟨kind, rfl, rfl⟩ := expect_eq_ok.mp read
  obtain ⟨d', read', done⟩ := tracks_advance code c d ⟨live.toEven, kind⟩ _ _ advance_run
  refine ⟨d', ?_, done⟩
  obtain ⟨same, -⟩ := live.step fun kind => live.inside (by simp [kind])
  rw [expect_of_eq (same.trans kind)]
  exact read'

theorem tracks_expect_mark {suggestion : Option String} {depth' : Nat} {p : Parser α} {p' : Parser β}
    (mark : k ∈ [.newline, .indent]) (turns : Cursor.Turns k depth depth')
    (then_ : Tracks (Even seam depth' (n - 1)) after f p p') :
    Tracks (Even seam depth n) after f (expect k suggestion >>= fun _ => p)
      (expect k suggestion >>= fun _ => p') := by
  intro c d even a c' read
  obtain ⟨_, m, found, read⟩ := bind_eq_ok.mp read
  obtain ⟨kind, rfl, rfl⟩ := expect_eq_ok.mp found
  obtain ⟨same, -⟩ := even.step (by rw [kind]; rintro rfl; simp at mark)
  rw [bind_of_ok (expect_of_eq (same.trans kind))]
  have passes : Tracks (Here seam k depth n) after f (advance >>= fun _ => p)
      (advance >>= fun _ => p') := tracks_pass (List.mem_append_left [.dedent] mark) turns then_
  exact passes c d ⟨even, kind⟩ a c' read

/-- At the second cursor there are as many tokens more as follow the first text. -/
theorem tracks_remaining {q : Nat → Parser α} {q' : Nat → Parser β}
    (then_ : ∀ m, m ≤ n → Tracks (Live seam depth m) after f (q m) (q' (m + seam.others.length))) :
    Tracks (Live seam depth n) after f (remaining >>= q) (remaining >>= q') := by
  intro c d live a c' read
  rw [bind_of_ok remaining_run] at read ⊢
  rw [live.length]
  exact then_ _ live.bound c d ⟨⟨live.tokens, Nat.le_refl _⟩, live.inside⟩ a c' read

theorem tracks_remaining_even {q : Nat → Parser α} {q' : Nat → Parser β}
    (then_ : ∀ m, m ≤ n → Tracks (Even seam depth m) after f (q m) (q' (m + seam.others.length))) :
    Tracks (Even seam depth n) after f (remaining >>= q) (remaining >>= q') := by
  intro c d even a c' read
  rw [bind_of_ok remaining_run] at read ⊢
  rw [even.length]
  exact then_ _ even.bound c d ⟨even.tokens, Nat.le_refl _⟩ a c' read

end Rules

end Parser

end Stepwise
