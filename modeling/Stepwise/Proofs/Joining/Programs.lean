import Stepwise.Proofs.Grammar.Soundness
import Stepwise.Proofs.Joining.Statements

/-!
Texts that are put one behind the other. When both are programs, and the first one ends with a line feed
or is empty, they make up the program of the statements of both, those of the second one further down
(`parse_append`).
-/
namespace Stepwise

open Token (Kind)
open Token.Kind (Marks IsLine NeverOverdrawn)

section Lines

variable {seam : Seam} {depth : Nat} {rest rest' : List Token}

theorem alongside_closing {mark : Token} (done : mark.kind = .eof) {closing : List Token}
    (closes : ∀ t ∈ closing, t.kind = .dedent) : ∀ {closing' : List Token},
      closing'.length = closing.length → (∀ t ∈ closing', t.kind = .dedent) →
      Alongside seam closing.length (closing ++ [mark]) (closing' ++ seam.first :: seam.others) := by
  induction closing with
  | nil =>
    intro closing' same _
    rw [List.eq_nil_of_length_eq_zero same]
    exact .ends done
  | cons t closing ih =>
    intro closing' same closes'
    obtain ⟨t', closing', rfl⟩ := List.exists_cons_of_length_eq_add_one same
    exact .dedent (closes t List.mem_cons_self) (closes' t' List.mem_cons_self)
      (ih (fun t member => closes t (List.mem_cons_of_mem _ member)) (Nat.succ.inj same)
        fun t member => closes' t (List.mem_cons_of_mem _ member))

/-- What is written in a line, with its end. -/
theorem alongside_code {ts : List Token} {code : List Kind} (along : Alongside seam depth rest rest')
    (codes : ∀ k ∈ code, k.IsCode) (same : ts.map Token.kind = code ++ [.newline]) :
    Alongside seam depth (ts ++ rest) (ts.map (Token.down seam.lines) ++ rest') := by
  induction code generalizing ts with
  | nil =>
    obtain ⟨t, rfl, kind⟩ := List.map_eq_singleton_iff.mp same
    exact .newline kind along
  | cons k code ih =>
    obtain ⟨t, ts, rfl, rfl, tail⟩ := List.map_eq_cons_iff.mp same
    have further := ih (fun k member => codes k (List.mem_cons_of_mem _ member)) tail
    cases ts with
    | nil => simp at tail
    | cons u ts =>
      refine .code (codes _ List.mem_cons_self) ?_ further
      cases code with
      | nil =>
        rw [(List.cons.inj tail).1]
        decide
      | cons k code =>
        have code := codes k (List.mem_cons_of_mem _ List.mem_cons_self)
        rw [(List.cons.inj tail).1]
        exact code.inside

/-- The marks in front of a line. -/
theorem alongside_marks {ts : List Token} {marks : List Kind} (marked : Marks marks)
    (same : ts.map Token.kind = marks) 
    (owed : marks.count .dedent ≤ depth + marks.count .indent)
    (along : Alongside seam (depth + marks.count .indent - marks.count .dedent) rest rest') :
    Alongside seam depth (ts ++ rest) (ts.map (Token.down seam.lines) ++ rest') := by
  rcases marked with rfl | ⟨n, rfl⟩
  · obtain ⟨t, rfl, kind⟩ := List.map_eq_singleton_iff.mp same
    exact .indent kind along
  · rw [List.count_replicate_self, List.count_replicate, if_neg (by decide)] at owed along
    induction n generalizing ts depth with
    | zero =>
      rw [List.map_eq_nil_iff.mp same]
      exact along
    | succ n ih =>
      obtain ⟨t, ts, rfl, kind, tail⟩ := List.map_eq_cons_iff.mp same
      obtain ⟨depth, rfl⟩ : ∃ m, depth = m + 1 := ⟨depth - 1, by omega⟩
      refine .dedent kind (by rw [Token.down_kind, kind]) (ih tail (by omega) ?_)
      rwa [show depth + 0 - n = depth + 1 + 0 - (n + 1) by omega]

theorem alongside_lines {lines : List (List Kind)} : ∀ {depth depth' : Nat} {ts : List Token},
    (∀ line ∈ lines, IsLine line) → ts.map Token.kind = lines.flatten →
    (∀ n, (lines.flatten.take n).count .dedent ≤ depth + (lines.flatten.take n).count .indent) →
    depth + lines.flatten.count .indent = lines.flatten.count .dedent + depth' →
    Alongside seam depth' rest rest' →
    Alongside seam depth (ts ++ rest) (ts.map (Token.down seam.lines) ++ rest') := by
  induction lines with
  | nil =>
    intro depth depth' ts _ same _ balance along
    rw [List.map_eq_nil_iff.mp same]
    obtain rfl : depth = depth' := by simpa using balance
    exact along
  | cons line lines ih =>
    intro depth depth' ts each same never balance along
    obtain ⟨marks, code, marked, -, codes, rfl⟩ := each line List.mem_cons_self
    have flat (k : Kind) (mark : ¬ k.IsCode) (other : k ≠ .newline) :
        (code ++ [Kind.newline]).count k = 0 := by
      refine List.count_eq_zero.mpr fun member => ?_
      rcases List.mem_append.mp member with member | member
      · exact mark (codes k member)
      · exact other (List.mem_singleton.mp member)
    have opens := flat .indent (by decide) (by decide)
    have closes := flat .dedent (by decide) (by decide)
    rw [List.flatten_cons, List.append_assoc marks code, List.append_assoc marks] at same never balance
    obtain ⟨ts₁, ts', rfl, same₁, same'⟩ := List.map_eq_append_iff.mp same
    obtain ⟨ts₂, ts₃, rfl, same₂, same₃⟩ := List.map_eq_append_iff.mp same'
    have owed := never marks.length
    rw [List.take_left] at owed
    simp only [List.count_append, opens, closes] at balance
    rw [List.append_assoc, List.append_assoc, List.map_append, List.map_append, List.append_assoc,
      List.append_assoc]
    refine alongside_marks marked same₁ owed (alongside_code (ih ?_ same₃ ?_ ?_ along) codes same₂)
    · exact fun line member => each line (List.mem_cons_of_mem _ member)
    · intro n
      have later := never (marks.length + ((code ++ [Kind.newline]).length + n))
      rw [List.take_length_add_append, List.take_length_add_append] at later
      simp only [List.count_append, opens, closes] at later
      omega
    · omega

/-- The tokens of a text beside those of a longer one. -/
theorem alongside_arranged {ts closing closing' : List Token} {mark : Token}
    (arranged : Token.Arranged ts closing mark) (same : closing'.length = closing.length)
    (closes : ∀ t ∈ closing', t.kind = .dedent) :
    Alongside seam 0 (ts ++ closing ++ [mark])
      (ts.map (Token.down seam.lines) ++ closing' ++ seam.first :: seam.others) := by
  obtain ⟨lines, each, kinds⟩ := arranged.lines
  have never := arranged.never
  have balance := arranged.balance
  rw [kinds] at never balance
  rw [List.append_assoc, List.append_assoc]
  refine alongside_lines each kinds (fun n => ?_) ?_
    (alongside_closing arranged.mark arranged.closes same closes)
  · exact Nat.le_trans (never n) (Nat.le_add_left _ 0)
  · omega

end Lines

namespace Parser

open Cursor (Even Live Here)

/-- Behind the statements of the first text the second reader goes on with what follows, for which it has
tokens enough. -/
theorem statementsUpTo_along {seam : Seam} {following : List Stmt}
    (next : ∀ d m, d.tokens = seam.first :: seam.others → seam.others.length < m →
      ∃ d', statementsUpTo m d = .ok (following, d'))
    {more : Nat} (enough : seam.others.length ≤ more) (fuel : Nat) : ∀ c d, Even seam 0 fuel c d →
      ∀ body c', statementsUpTo fuel c = .ok (body, c') →
        ∃ d', statementsUpTo (fuel + more) d = .ok (body.map seam.placedStmt ++ following, d') := by
  induction fuel with
  | zero => exact fun _ _ even => absurd rfl even.filled
  | succ fuel ih =>
    intro c d even body c' read
    by_cases done : c.current.kind = .eof
    · obtain ⟨-, -, tokens⟩ := even.over done
      unfold statementsUpTo at read
      rw [bind_of_ok (at_run _), if_pos (by simp [done])] at read
      cases read
      exact next d _ tokens (by omega)
    · obtain ⟨kind, -, depth, turns, -⟩ := even.step done
      have inside : c.current.kind ≠ .dedent := by
        intro closes
        rw [closes] at turns
        cases turns
      rw [Nat.succ_add]
      unfold statementsUpTo at read ⊢
      rw [bind_of_ok (at_run _), if_neg (by simp [done]), bind_of_ok (at_run _)] at read
      rw [bind_of_ok (at_run _), if_neg (by simp [kind, done]), bind_of_ok (at_run _), kind]
      split at read
      · exact absurd read (fail_run _ _ _ _)
      next flush =>
        rw [if_neg flush]
        obtain ⟨first, m, readFirst, read⟩ := bind_eq_ok.mp read
        obtain ⟨_, m', skipped, read⟩ := bind_eq_ok.mp read
        obtain ⟨rest, m'', readRest, read⟩ := bind_eq_ok.mp read
        cases read
        obtain ⟨e, readFirst', even⟩ := resumes_statement 0 _ c d
          ⟨even, by simp [done, inside]⟩ first m readFirst
        obtain ⟨e', skipped', even⟩ := tracks_skipNewlines m e even _ m' skipped
        obtain ⟨e'', readRest'⟩ := ih m' e' even rest _ readRest
        refine ⟨e'', ?_⟩
        rw [bind_of_ok readFirst', bind_of_ok skipped', bind_of_ok readRest']
        rfl

/-- No statement starts with a word that goes on with a branch. -/
theorem opens_of_statement {c c' : Cursor} {s : Stmt} (closed : c.Closed)
    (read : statement c = .ok (s, c')) : c.current.kind ∉ [.kwElif, .kwElse] := by
  intro further
  have simple_ (inner : Parser Stmt) : statementWith inner c = simple c := by
    unfold statementWith
    rw [bind_of_ok kind_run]
    rcases List.mem_cons.mp further with kind | further
    · rw [kind]
    · rw [List.mem_singleton.mp further]
  have whole : simple c = .ok (s, c') := by
    unfold statement at read
    rw [bind_of_ok remaining_run] at read
    cases levels : c.tokens.length <;> rw [levels] at read <;> exact (simple_ _).symm.trans read
  obtain ⟨e, m, readLeft, -⟩ := bind_eq_ok.mp whole
  obtain ⟨w, passes, reads⟩ := follows_expression c closed e m readLeft
  obtain ⟨t, u, rfl, opens⟩ := reads.opening
  rw [passes.current] at further
  rcases List.mem_cons.mp further with kind | further
  · simp [Grammar.Level.Opens, kind] at opens
  · simp [Grammar.Level.Opens, List.mem_singleton.mp further] at opens

/-- A program is what stands behind the empty lines at its start. -/
theorem program_eq_ok {c c' : Cursor} {p : Program} : program c = .ok (p, c') ↔ ∃ m body,
    skipNewlines c = .ok ((), m) ∧ statementsUpTo m.tokens.length m = .ok (body, c') ∧ p = { body } := by
  constructor
  · intro read
    obtain ⟨_, m, skipped, read⟩ := bind_eq_ok.mp read
    rw [bind_of_ok remaining_run] at read
    obtain ⟨body, _, read, same⟩ := bind_eq_ok.mp read
    cases same
    exact ⟨m, body, skipped, read, rfl⟩
  · rintro ⟨m, body, skipped, read, rfl⟩
    unfold program
    rw [bind_of_ok skipped, bind_of_ok remaining_run, bind_of_ok read]
    rfl

end Parser

theorem Program.parse_eq_ok {source filename : String} {p : Program} :
    Program.parse source filename = .ok p ↔ ∃ tokens c', Token.tokenize source filename = .ok tokens ∧
      Parser.program (Cursor.start tokens filename) = .ok (p, c') := by
  constructor
  · intro read
    unfold Program.parse Program.ofTokens at read
    rcases tokenized : Token.tokenize source filename with failure | tokens
    · simp [tokenized, bind, Except.bind] at read
    · rw [tokenized] at read
      change (Parser.program (Cursor.start tokens filename)).map Prod.fst = .ok p at read
      rcases parsed : Parser.program (Cursor.start tokens filename) with failure | ⟨q, c'⟩
      · simp [parsed, Except.map] at read
      · simp only [parsed, Except.map, Except.ok.injEq] at read
        exact ⟨tokens, c', rfl, read ▸ parsed⟩
  · rintro ⟨tokens, c', tokenized, parsed⟩
    unfold Program.parse Program.ofTokens
    rw [tokenized]
    change (Parser.program (Cursor.start tokens filename)).map Prod.fst = .ok p
    rw [parsed]
    rfl

theorem Token.arranged_of_tokenize {source filename : String} {tokens : List Token}
    (read : Token.tokenize source filename = .ok tokens) : ∃ ts closing mark,
      tokens = ts ++ closing ++ [mark] ∧ Token.Arranged ts closing mark := by
  obtain ⟨ts, m, us, goes, last, rfl⟩ := Token.goes_of_tokenize read
  obtain ⟨arranged, rfl⟩ := Token.arranged_of_goes goes last
  exact ⟨ts, _, _, (List.append_assoc _ _ _).symm, arranged⟩

theorem Cursor.start_of_closed {ts : List Token} {mark : Token} (done : mark.kind = .eof)
    (filename : String) : (Cursor.start (ts ++ [mark]) filename).tokens = ts ++ [mark] := by
  rw [(Cursor.start_tokens _ filename).1]
  unfold Cursor.marked
  rw [List.getLast?_concat]
  exact if_pos done

/-- A line does not start with its end. -/
theorem Token.Arranged.head {ts closing us : List Token} {mark t : Token}
    (arranged : Token.Arranged ts closing mark) (same : ts ++ closing ++ [mark] = t :: us) :
    t.kind ≠ .newline := by
  obtain ⟨lines, each, kinds⟩ := arranged.lines
  cases ts with
  | nil =>
    cases closing with
    | nil =>
      rw [← (List.cons.inj same).1, arranged.mark]
      decide
    | cons d closing =>
      rw [← (List.cons.inj same).1, arranged.closes d List.mem_cons_self]
      decide
  | cons u ts =>
    rw [← (List.cons.inj same).1]
    cases lines with
    | nil => cases kinds
    | cons line lines =>
      obtain ⟨marks, code, marked, some_, codes, rfl⟩ := each line List.mem_cons_self
      obtain ⟨k, code, rfl⟩ := List.exists_cons_of_ne_nil some_
      have word : k ≠ .newline := by
        rintro rfl
        exact codes _ List.mem_cons_self (by decide)
      rcases marked with rfl | ⟨_ | n, rfl⟩
      · rw [(List.cons.inj kinds).1]
        decide
      · rwa [(List.cons.inj kinds).1]
      · rw [(List.cons.inj kinds).1]
        decide

/-- What a program starts with cannot go on with the program in front of it. -/
theorem Parser.fresh_of_program {ts closing us : List Token} {mark t : Token} {filename : String}
    (arranged : Token.Arranged ts closing mark) (same : ts ++ closing ++ [mark] = t :: us)
    {p : Program} {c' : Cursor}
    (read : Parser.program (Cursor.start (t :: us) filename) = .ok (p, c')) :
    t.kind ∉ [.newline, .indent, .kwElif, .kwElse] ∧
      Parser.statementsUpTo (Cursor.start (t :: us) filename).tokens.length
        (Cursor.start (t :: us) filename) = .ok (p.body, c') := by
  have inner := arranged.head same
  have tokens : (Cursor.start (t :: us) filename).tokens = t :: us := by
    rw [← same]
    exact Cursor.start_of_closed arranged.mark filename
  have here : (Cursor.start (t :: us) filename).current = t := (List.cons.inj tokens).1
  have closed := Cursor.start_closed (t :: us) filename
  generalize Cursor.start (t :: us) filename = c at read tokens here closed ⊢
  obtain ⟨m, body, skipped, parsed, rfl⟩ := program_eq_ok.mp read
  have stays : skipNewlines c = .ok ((), c) := by
    unfold skipNewlines
    rw [bind_of_ok remaining_run, tokens, List.length_cons]
    unfold skipNewlinesUpTo
    rw [bind_of_ok (accept_of_ne (by rwa [here]))]
    rfl
  cases stays.symm.trans skipped
  refine ⟨fun member => ?_, parsed⟩
  rw [tokens, List.length_cons] at parsed
  rcases List.mem_cons.mp member with kind | member
  · exact inner kind
  have done : t.kind ≠ .eof := by
    intro done
    rw [done] at member
    simp at member
  unfold statementsUpTo at parsed
  rw [bind_of_ok (at_run _), if_neg (by simp [here, done]), bind_of_ok (at_run _)] at parsed
  rcases List.mem_cons.mp member with kind | further
  · rw [if_pos (by simp [here, kind])] at parsed
    exact fail_run _ _ _ _ parsed
  · rw [if_neg (by rw [here]; rintro same; simp [beq_iff_eq.mp same] at further)] at parsed
    obtain ⟨s, _, parsed, -⟩ := bind_eq_ok.mp parsed
    exact opens_of_statement closed parsed (by rwa [here])

/-- The statements of a text are read further down as they are by themselves. -/
theorem Parser.statementsUpTo_down (n : Nat) {ts closing : List Token} {mark : Token}
    (arranged : Token.Arranged ts closing mark) {c c' : Cursor}
    (tokens : c.tokens = ts ++ closing ++ [mark]) {body : List Stmt}
    (read : statementsUpTo c.tokens.length c = .ok (body, c')) (d : Cursor) (m : Nat)
    (down : d.tokens = c.tokens.map (Token.down n)) (enough : c.tokens.length ≤ m) :
    ∃ d', statementsUpTo m d = .ok (body.map (·.moved (Pos.down n)), d') := by
  have done : (mark.down n).kind = .eof := arranged.mark
  let seam : Seam := ⟨n, mark.down n, [], by rw [done]; decide⟩
  have along : Alongside seam 0 c.tokens d.tokens := by
    have along := @alongside_arranged seam _ _ _ _ arranged (List.length_map (Token.down n)) (by
      intro t member
      obtain ⟨t, inside, rfl⟩ := List.mem_map.mp member
      exact arranged.closes t inside)
    rw [down, tokens]
    simpa [seam] using along
  have next (d : Cursor) (m : Nat) (there : d.tokens = [mark.down n]) (some_ : 0 < m) :
      ∃ d', statementsUpTo m d = .ok ([], d') := by
    obtain ⟨m, rfl⟩ := Nat.exists_eq_succ_of_ne_zero (Nat.ne_of_gt some_)
    refine ⟨d, ?_⟩
    unfold statementsUpTo
    rw [bind_of_ok (at_run _), if_pos (by rw [(List.cons.inj there).1, done]; rfl)]
    rfl
  obtain ⟨more, rfl⟩ := Nat.exists_eq_add_of_le enough
  have read' := statementsUpTo_along next (Nat.zero_le more) _ c d ⟨along, Nat.le_refl _⟩ body c' read
  rwa [List.append_nil] at read'

/-- Putting one text behind another one puts their programs one behind the other. -/
theorem Program.parse_append {source text filename : String} {p q : Program}
    (free : '\r' ∉ source.toList) (ended : source = "" ∨ source.toList.getLast? = some '\n')
    (first : Program.parse source filename = .ok p) (second : Program.parse text filename = .ok q) :
    Program.parse (source ++ text) filename = .ok { p with
      body := p.body ++ q.body.map (·.moved (Pos.down (source.toList.count '\n'))) } := by
  have empty : Program.parse "" filename = .ok { body := [] } := rfl
  obtain ⟨tokens, c', tokenized, parsed⟩ := Program.parse_eq_ok.mp first
  obtain ⟨us, e', tokenized', parsed'⟩ := Program.parse_eq_ok.mp second
  obtain ⟨m, body, skipped, read, rfl⟩ := Parser.program_eq_ok.mp parsed
  obtain ⟨_, following, -, -, rfl⟩ := Parser.program_eq_ok.mp parsed'
  rcases ended with rfl | fed
  · cases empty.symm.trans first
    have still : following.map (·.moved (Pos.down 0)) = following := by
      rw [Pos.down_zero, List.map_id'' Stmt.moved_id]
    rw [String.empty_append]
    change _ = Except.ok ({ body := following.map (·.moved (Pos.down 0)) } : Program)
    rw [still]
    exact second
  by_cases filled : text = ""
  · subst filled
    cases empty.symm.trans second
    rw [String.append_empty, first, List.map_nil, List.append_nil]
  obtain ⟨ts₂, closing₂, mark₂, same₂, arranged₂⟩ := Token.arranged_of_tokenize tokenized'
  obtain ⟨t, others, rfl⟩ : ∃ t others, us = t :: others := by
    rw [same₂]
    exact List.exists_cons_of_ne_nil (by simp)
  obtain ⟨fresh, read₂⟩ := Parser.fresh_of_program arranged₂ same₂.symm parsed'
  obtain ⟨ts, closing, mark, closing', rfl, arranged, same, closes, joined⟩ :=
    Token.tokenize_append free fed filled tokenized tokenized' (by
      rintro _ ⟨⟩ kind
      exact fresh (by simp [kind]))
  generalize source.toList.count '\n' = n at joined ⊢
  have there : (Cursor.start (t :: others) filename).tokens = t :: others := by
    rw [same₂]
    exact Cursor.start_of_closed arranged₂.mark filename
  have next (d : Cursor) (m : Nat) (down : d.tokens = (t :: others).map (Token.down n))
      (enough : (others.map (Token.down n)).length < m) : ∃ d', Parser.statementsUpTo m d =
        .ok (following.map (·.moved (Pos.down n)), d') := by
    refine Parser.statementsUpTo_down n arranged₂ (there.trans same₂) read₂ d m ?_ ?_
    · rwa [there]
    · rw [there]
      exact Nat.succ_le_of_lt (by simpa using enough)
  let seam : Seam := ⟨0, t.down n, others.map (Token.down n), fresh⟩
  have start : (Cursor.start (ts ++ closing ++ [mark]) filename).tokens = ts ++ closing ++ [mark] :=
    Cursor.start_of_closed arranged.mark filename
  have start' : (Cursor.start (ts ++ closing' ++ (t :: others).map (Token.down n)) filename).tokens =
      ts ++ closing' ++ (t :: others).map (Token.down n) := by
    rw [same₂, List.map_append, List.map_singleton, ← List.append_assoc]
    exact Cursor.start_of_closed (show (mark₂.down n).kind = .eof from arranged₂.mark) filename
  have along : Alongside seam 0 (ts ++ closing ++ [mark])
      (ts ++ closing' ++ (t :: others).map (Token.down n)) := by
    have along := @alongside_arranged seam _ _ _ _ arranged same closes
    rwa [List.map_id'' Token.down_zero] at along
  rw [← start, ← start'] at along
  obtain ⟨d, skipped', even⟩ := Parser.tracks_skipNewlines _ _ ⟨along, Nat.le_refl _⟩ _ m skipped
  obtain ⟨d', read'⟩ := @Parser.statementsUpTo_along seam _ next _ (Nat.le_refl _) _ m d
    ⟨even.tokens, Nat.le_refl _⟩ body c' read
  have still : body.map seam.placedStmt = body := by
    refine List.map_id'' (fun s => ?_) body
    rw [Seam.placedStmt, Pos.down_zero, Stmt.moved_id]
  rw [still, ← even.length] at read'
  exact Program.parse_eq_ok.mpr ⟨_, d', joined, Parser.program_eq_ok.mpr ⟨d, _, skipped', read', rfl⟩⟩

/-- The first text ends inside a block, and the second one starts with a comment and lacks a last line
feed. -/
theorem Program.parse_append_open : ∃ p q,
    Program.parse "if x:\n    y = 1\n" "<stdin>" = .ok p ∧
      Program.parse "# next\nif y:\n  x = 2\nz = -1" "<stdin>" = .ok q ∧
      Program.parse ("if x:\n    y = 1\n" ++ "# next\nif y:\n  x = 2\nz = -1") "<stdin>" =
        .ok { p with body := p.body ++ q.body.map (·.moved (Pos.down 2)) } ∧
      (p.body ++ q.body.map (·.moved (Pos.down 2))).map Stmt.line = [some 1, some 4, some 6] := by
  have checked : (Program.parse "if x:\n    y = 1\n" "<stdin>").toOption.any (fun p =>
      (Program.parse "# next\nif y:\n  x = 2\nz = -1" "<stdin>").toOption.any fun q =>
        (p.body ++ q.body.map (·.moved (Pos.down 2))).map Stmt.line = [some 1, some 4, some 6]) = true := by
    unfold Program.parse
    rw [@Token.tokenize_eq_ofChars "if x:\n    y = 1\n" _ rfl,
      @Token.tokenize_eq_ofChars "# next\nif y:\n  x = 2\nz = -1" _ rfl]
    decide +kernel
  obtain ⟨p, first, checked⟩ := exists_ok checked
  obtain ⟨q, second, checked⟩ := exists_ok checked
  exact ⟨p, q, first, second, Program.parse_append (by decide) (.inr (by decide)) first second,
    of_decide_eq_true checked⟩

end Stepwise
