import Stepwise.Proofs.Twins.Expressions
import Stepwise.Tree.Parse

/-!
Reading statements from two sequences of tokens that are the same to a reader. The trees are equal but for
their positions; whatever the tokens are, no block is empty and no parameter appears twice.
-/
namespace Stepwise

open Token (Kind)

/-- No two parameters are the same. -/
def Func.Distinct (f : Func) : Prop := f.params.Pairwise fun earlier later => later.same earlier = false

/-- What reading any tokens guarantees of a statement, apart from what is inside it. -/
def Stmt.Sturdy (s : Stmt) : Prop :=
  s.Filled ∧ match s with
    | .update _ _ op _ => op.IsKnown
    | .define f => f.Distinct
    | .defineClass _ _ methods => ∀ f ∈ methods, f.Distinct
    | .alien _ => False
    | _ => True

namespace Twins

abbrev Stmts (T : Twins) : Stmt → Stmt → Prop :=
  T.Related Stmt.unplaced (Stmt.Every Expr.Sturdy Stmt.Sturdy)

abbrev StmtLists (T : Twins) : List Stmt → List Stmt → Prop :=
  T.Related Stmt.unplacedAll (Stmt.EveryIn Expr.Sturdy Stmt.Sturdy)

abbrev Blocks (T : Twins) : List Stmt → List Stmt → Prop :=
  T.Related Stmt.unplacedAll fun body => body ≠ [] ∧ Stmt.EveryIn Expr.Sturdy Stmt.Sturdy body

abbrev Elifs (T : Twins) : List Elif → List Elif → Prop :=
  T.Related Stmt.unplacedElifs fun elifs =>
    (∀ e ∈ elifs, e.body ≠ []) ∧ Stmt.EveryElif Expr.Sturdy Stmt.Sturdy elifs

abbrev Funcs (T : Twins) : Func → Func → Prop :=
  T.Related Stmt.unplacedFunc fun f =>
    f.Distinct ∧ f.body ≠ [] ∧ Func.Every Expr.Sturdy Stmt.Sturdy f

abbrev FuncLists (T : Twins) : List Func → List Func → Prop :=
  T.Related Stmt.unplacedFuncs fun fs =>
    (∀ f ∈ fs, f.Distinct) ∧ (∀ f ∈ fs, f.body ≠ []) ∧ Func.EveryIn Expr.Sturdy Stmt.Sturdy fs

variable {T : Twins} {n m : Nat} {k : Kind}

theorem Related.statements {ss ss' : List Stmt} (all : List.Forall₂ T.Stmts ss ss') :
    T.StmtLists ss ss' := by
  induction all with
  | nil => exact ⟨fun _ => rfl, rfl, trivial⟩
  | cons first _ rest =>
    refine ⟨fun same => ?_, ?_, first.good, rest.good⟩
    · rw [first.same same, rest.same same]
    · rw [Stmt.unplacedAll, Stmt.unplacedAll, first.erased, rest.erased]

section Readers

open Stepwise.Parser

variable {α β : Type} {R : α → β → Prop}

/-- Both readers go on in the same way behind a look at the next token. -/
theorem accords_test {f : Bool → Parser α} {g : Bool → Parser β} {after : Cursor → Cursor → Prop}
    (then_ : ∀ b, T.Accords (T.Ahead n) after R (f b) (g b)) :
    T.Accords (T.Ahead n) after R (at? k >>= f) (at? k >>= g) :=
  accords_at (.on (then_ true)) (then_ false)

theorem accords_endOfStatement :
    T.Accords (T.Ahead n) (T.Ahead n) (fun _ _ => True) endOfStatement endOfStatement := by
  refine accords_test fun a => accords_test fun b => ?_
  cases a || b with
  | true => exact .pure (fun _ _ => id) trivial
  | false =>
    refine accords_accept (by decide) (.pure (fun _ _ ahead => ahead.mono (by omega)) trivial) ?_
    refine accords_current fun t u twins => .on ?_
    exact accords_complaint (names_describe twins.mem.1) (names_describe twins.mem.2) fun same => by
      rw [twins.eq same]

theorem accords_skipNewlinesUpTo (fuel : Nat) : ∀ m fuel', m ≤ fuel → m ≤ fuel' →
    T.Accords (T.Ahead m) (T.Ahead m) (fun _ _ => True) (skipNewlinesUpTo fuel)
      (skipNewlinesUpTo fuel') := by
  induction fuel with
  | zero => exact fun m fuel' none _ => accords_none none
  | succ fuel ih =>
    intro m fuel' enough enough'
    cases fuel' with
    | zero => exact accords_none enough'
    | succ fuel' =>
      refine accords_accept (by decide) ?_ (.pure (fun _ _ => id) trivial)
      exact (ih (m - 1) fuel' (by omega) (by omega)).looser (by omega)

theorem accords_skipNewlines :
    T.Accords (T.Ahead n) (T.Ahead n) (fun _ _ => True) skipNewlines skipNewlines :=
  accords_remaining fun m le =>
    (accords_skipNewlinesUpTo m m m (Nat.le_refl m) (Nat.le_refl m)).looser le

theorem reads_colon : T.Reads n (fun _ _ => True) colon colon := fun m le =>
  (reads_expect (by decide) m le).bind fun _ _ _ => .pure (fun _ _ => id) trivial

theorem accords_itemsUpTo {item : Parser α} {item' : Parser β} (reads : T.Reads n R item item')
    (fuel : Nat) : ∀ m fuel', m ≤ n → m ≤ fuel → m ≤ fuel' →
    T.Accords (T.Ahead m) (T.Ahead m) (List.Forall₂ R) (itemsUpTo item fuel)
      (itemsUpTo item' fuel') := by
  induction fuel with
  | zero => exact fun m fuel' _ none _ => accords_none none
  | succ fuel ih =>
    intro m fuel' le enough enough'
    cases fuel' with
    | zero => exact accords_none enough'
    | succ fuel' =>
      refine accords_test fun a => accords_test fun b => ?_
      cases a || b with
      | true => exact .pure (fun _ _ => id) .nil
      | false =>
        refine (reads m le).bind fun first first' related => accords_skipNewlines.bind fun _ _ _ => ?_
        refine (ih (m - 1) fuel' (by omega) (by omega) (by omega)).bind fun rest rest' all => ?_
        exact .pure (fun _ _ ahead => ahead.mono (by omega)) (.cons related all)

section Blocks

variable {inner inner' : Parser Stmt} (reads : T.Reads n T.Stmts inner inner')
include reads

theorem reads_block : T.Reads (n + 1) T.Blocks (block inner) (block inner') := by
  intro m le
  refine (reads_expect (by decide) m le).bind fun _ _ _ => accords_at ?_ (accords_fail fun _ => rfl)
  refine (accords_advance (by decide)).bind fun _ _ _ => accords_remaining fun m' le' => ?_
  refine (accords_itemsUpTo reads m' m' m' (by omega) (Nat.le_refl _) (Nat.le_refl _)).bind
    fun body body' all => ?_
  have related := Related.statements all
  have both : body.isEmpty = body'.isEmpty := by cases all <;> rfl
  have ends {m' : Nat} (le' : m' ≤ m - 1) : T.Accords (T.Ahead m') (T.Ahead (m - 1)) T.Blocks
      (if body.isEmpty then
        fail "Block cannot be empty" (some "Indent at least one statement under the ':' line.")
      else return body)
      (if body'.isEmpty then
        fail "Block cannot be empty" (some "Indent at least one statement under the ':' line.")
      else return body') := by
    rw [← both]
    by_cases empty : body.isEmpty
    · rw [if_pos empty, if_pos empty]
      exact accords_fail fun _ => rfl
    · rw [if_neg empty, if_neg empty]
      refine .pure (fun _ _ ahead => ahead.mono le') ⟨related.same, related.erased, ?_, related.good⟩
      simpa using empty
  exact accords_accept (by decide) (ends (by omega)) (ends (by omega))

theorem accords_elifsUpTo (fuel : Nat) : ∀ m fuel', m ≤ n + 1 → m ≤ fuel → m ≤ fuel' →
    T.Accords (T.Ahead m) (T.Ahead m) T.Elifs (elifsUpTo inner fuel) (elifsUpTo inner' fuel') := by
  induction fuel with
  | zero => exact fun m fuel' _ none _ => accords_none none
  | succ fuel ih =>
    intro m fuel' le enough enough'
    cases fuel' with
    | zero => exact accords_none enough'
    | succ fuel' =>
      refine accords_at ?_ (.pure (fun _ _ => id) ⟨fun _ => rfl, rfl, by simp, trivial⟩)
      refine (accords_advance (by decide)).bind fun t u twins => ?_
      refine (reads_expression (m - 1) (Nat.le_refl _)).bind fun test test' tests => ?_
      refine (reads_colon (m - 1 - 1) (Nat.le_refl _)).bind fun _ _ _ => ?_
      refine (reads_block reads (m - 1 - 1 - 1) (by omega)).bind fun body body' bodies => ?_
      refine (ih (m - 1 - 1 - 1 - 1) fuel' (by omega) (by omega) (by omega)).bind
        fun rest rest' others => ?_
      refine .pure (fun _ _ ahead => ahead.mono (by omega)) ⟨fun same => ?_, ?_, ?_,
        ⟨tests.good, bodies.good.2⟩, others.good.2⟩
      · rw [twins.1.eq same, tests.same same, bodies.same same, others.same same]
      · rw [Stmt.unplacedElifs, Stmt.unplacedElifs, Stmt.unplacedElif, Stmt.unplacedElif,
          tests.erased, bodies.erased, others.erased]
      · exact List.forall_mem_cons.mpr ⟨bodies.good.1, others.good.1⟩

variable (le : m ≤ n + 1)
include le

theorem accords_branch :
    T.Accords (T.On .kwIf m) (T.Ahead (m - 1)) T.Stmts (branch inner) (branch inner') := by
  refine (accords_advance (by decide)).bind fun t u twins => ?_
  refine (reads_expression (m - 1) (Nat.le_refl _)).bind fun test test' tests => ?_
  refine (reads_colon (m - 1 - 1) (Nat.le_refl _)).bind fun _ _ _ => ?_
  refine (reads_block reads (m - 1 - 1 - 1) (by omega)).bind fun body body' bodies => ?_
  refine accords_remaining fun m' le' => ?_
  refine (accords_elifsUpTo reads m' m' m' (by omega) (Nat.le_refl _) (Nat.le_refl _)).bind
    fun elifs elifs' others => ?_
  refine accords_accept (by decide) ?_ ?_
  · refine (reads_colon (m' - 1) (Nat.le_refl _)).bind fun _ _ _ => ?_
    refine (reads_block reads (m' - 1 - 1) (by omega)).bind fun last last' lasts => ?_
    refine .pure (fun _ _ ahead => ahead.mono (by omega)) ⟨fun same => ?_, ?_,
      ⟨⟨bodies.good.1, others.good.1, ?_⟩, trivial⟩, tests.good, bodies.good.2, others.good.2,
      lasts.good.2⟩
    · rw [twins.1.eq same, tests.same same, bodies.same same, others.same same, lasts.same same]
    · rw [Stmt.unplaced, Stmt.unplaced, Stmt.unplacedOption, Stmt.unplacedOption, tests.erased,
        bodies.erased, others.erased, lasts.erased]
    · exact fun none => lasts.good.1 (Option.some.inj none)
  · refine .pure (fun _ _ ahead => ahead.mono (by omega)) ⟨fun same => ?_, ?_,
      ⟨⟨bodies.good.1, others.good.1, by simp⟩, trivial⟩, tests.good, bodies.good.2, others.good.2,
      trivial⟩
    · rw [twins.1.eq same, tests.same same, bodies.same same, others.same same]
    · rw [Stmt.unplaced, Stmt.unplaced, Stmt.unplacedOption, tests.erased, bodies.erased,
        others.erased]

theorem accords_loopTimes :
    T.Accords (T.On .kwRepeat m) (T.Ahead (m - 1)) T.Stmts (loopTimes inner) (loopTimes inner') := by
  refine (accords_advance (by decide)).bind fun t u twins => ?_
  refine (reads_expression (m - 1) (Nat.le_refl _)).bind fun count count' counts => ?_
  refine (reads_expect (by decide) (m - 1 - 1) (Nat.le_refl _)).bind fun _ _ _ => ?_
  refine (reads_colon (m - 1 - 1 - 1) (Nat.le_refl _)).bind fun _ _ _ => ?_
  refine (reads_block reads (m - 1 - 1 - 1 - 1) (by omega)).bind fun body body' bodies => ?_
  refine .pure (fun _ _ ahead => ahead.mono (by omega)) ⟨fun same => ?_, ?_,
    ⟨bodies.good.1, trivial⟩, counts.good, bodies.good.2⟩
  · rw [twins.1.eq same, counts.same same, bodies.same same]
  · rw [Stmt.unplaced, Stmt.unplaced, counts.erased, bodies.erased]

theorem accords_loopWhile :
    T.Accords (T.On .kwWhile m) (T.Ahead (m - 1)) T.Stmts (loopWhile inner) (loopWhile inner') := by
  refine (accords_advance (by decide)).bind fun t u twins => ?_
  refine (reads_expression (m - 1) (Nat.le_refl _)).bind fun test test' tests => ?_
  have rest {m' : Nat} (le' : m' ≤ m - 1) : T.Accords (T.Ahead m') (T.Ahead (m - 1)) T.Stmts
      (do colon; return .loopWhile (tokenPos t) test (← block inner))
      (do colon; return .loopWhile (tokenPos u) test' (← block inner')) := by
    refine (reads_colon m' (Nat.le_refl _)).bind fun _ _ _ => ?_
    refine (reads_block reads (m' - 1) (by omega)).bind fun body body' bodies => ?_
    refine .pure (fun _ _ ahead => ahead.mono (by omega)) ⟨fun same => ?_, ?_,
      ⟨bodies.good.1, trivial⟩, tests.good, bodies.good.2⟩
    · rw [twins.1.eq same, tests.same same, bodies.same same]
    · rw [Stmt.unplaced, Stmt.unplaced, tests.erased, bodies.erased]
  exact accords_accept (by decide) (rest (by omega)) (rest (by omega))

/-- The bounds of a range in both. -/
structure Bounds (T : Twins) (bounds bounds' : Expr × Expr × Option Expr) : Prop where
  start : T.Exprs bounds.1 bounds'.1
  stop : T.Exprs bounds.2.1 bounds'.2.1
  step : T.ExprOptions bounds.2.2 bounds'.2.2

omit reads le in
theorem reads_rangeBounds : T.Reads n T.Bounds rangeBounds rangeBounds := by
  intro m le
  refine (reads_expect (by decide) m le).bind fun _ _ _ => ?_
  refine (reads_expression (m - 1) (Nat.le_refl _)).bind fun first first' firsts => ?_
  refine accords_accept (by decide) ?_ ?_
  · refine (reads_expression (m - 1 - 1 - 1) (Nat.le_refl _)).bind fun stop stop' stops => ?_
    refine accords_accept (by decide) ?_ ?_
    · refine (reads_present reads_expression _ (Nat.le_refl _)).bind fun step step' steps => ?_
      exact .bind (.pure (fun _ _ => id) ⟨firsts, stops, steps⟩) fun _ _ both =>
        accords_close (by decide) both (by omega)
    · refine .bind (R := T.ExprOptions) (.pure (fun _ _ => id) .absent) fun step step' steps => ?_
      exact .bind (.pure (fun _ _ => id) ⟨firsts, stops, steps⟩) fun _ _ both =>
        accords_close (by decide) both (by omega)
  · refine .bind (.pure (fun _ _ => id) ⟨⟨fun same => ?_, rfl, trivial⟩, firsts, .absent⟩)
      fun _ _ both => accords_close (by decide) both (by omega)
    rw [firsts.same same]

theorem accords_loopFor :
    T.Accords (T.On .kwFor m) (T.Ahead (m - 1)) T.Stmts (loopFor inner) (loopFor inner') := by
  refine (accords_advance (by decide)).bind fun t u twins => ?_
  refine (reads_expectName (m - 1) (Nat.le_refl _)).bind fun var var' vars => ?_
  refine (reads_expect (by decide) (m - 1 - 1) (Nat.le_refl _)).bind fun _ _ _ => ?_
  refine accords_accept (by decide) ?_ ?_
  · refine (reads_rangeBounds (m - 1 - 1 - 1 - 1) (Nat.le_refl _)).bind fun bounds bounds' both => ?_
    obtain ⟨start, stop, step⟩ := bounds
    obtain ⟨start', stop', step'⟩ := bounds'
    refine (reads_colon (m - 1 - 1 - 1 - 1 - 1) (Nat.le_refl _)).bind fun _ _ _ => ?_
    refine (reads_block reads (m - 1 - 1 - 1 - 1 - 1 - 1) (by omega)).bind fun body body' bodies => ?_
    have starts : T.Exprs start start' := both.start
    have stops : T.Exprs stop stop' := both.stop
    have steps : T.ExprOptions step step' := both.step
    refine .pure (fun _ _ ahead => ahead.mono (by omega)) ⟨fun same => ?_, ?_,
      ⟨bodies.good.1, trivial⟩, starts.good, stops.good, steps.good, bodies.good.2⟩
    · rw [twins.1.eq same, vars.eq, starts.same same, stops.same same, steps.same same,
        bodies.same same]
    · rw [Stmt.unplaced, Stmt.unplaced, vars.eq, starts.erased, stops.erased, steps.erased,
        bodies.erased]
  · refine (reads_expression (m - 1 - 1 - 1) (Nat.le_refl _)).bind fun items items' both => ?_
    refine (reads_colon (m - 1 - 1 - 1 - 1) (Nat.le_refl _)).bind fun _ _ _ => ?_
    refine (reads_block reads (m - 1 - 1 - 1 - 1 - 1) (by omega)).bind fun body body' bodies => ?_
    refine .pure (fun _ _ ahead => ahead.mono (by omega)) ⟨fun same => ?_, ?_,
      ⟨bodies.good.1, trivial⟩, both.good, bodies.good.2⟩
    · rw [twins.1.eq same, vars.eq, both.same same, bodies.same same]
    · rw [Stmt.unplaced, Stmt.unplaced, vars.eq, both.erased, bodies.erased]

/-- The same parameters in both, of which no two are the same. -/
def Params (params params' : List Constant) : Prop :=
  params = params' ∧ params.Pairwise fun earlier later => later.same earlier = false

omit reads le in
theorem Params.extend {earlier earlier' : List Constant} (params : Params earlier earlier')
    {name : Constant} (fresh : earlier.any name.same = false) :
    Params (earlier ++ [name]) (earlier' ++ [name]) := by
  obtain ⟨rfl, distinct⟩ := params
  refine ⟨rfl, List.pairwise_append.mpr ⟨distinct, List.pairwise_singleton _ _, ?_⟩⟩
  intro other member _ last
  rw [List.mem_singleton.mp last]
  exact Bool.not_eq_true _ ▸ List.any_eq_false.mp fresh other member

omit reads le in
theorem accords_parameterNames (fuel : Nat) : ∀ m fuel' earlier earlier', m ≤ fuel → m ≤ fuel' →
    Params earlier earlier' → T.Accords (T.Ahead m) (T.Ahead (m - 1)) Params
      (parameterNames earlier fuel) (parameterNames earlier' fuel') := by
  induction fuel with
  | zero => exact fun m fuel' _ _ none _ _ => accords_none none
  | succ fuel ih =>
    intro m fuel' earlier earlier' enough enough' params
    cases fuel' with
    | zero => exact accords_none enough'
    | succ fuel' =>
      refine (reads_expectName m (Nat.le_refl _)).bind fun name name' names => ?_
      obtain ⟨rfl, ⟨t, inside, same⟩, u, inside', same'⟩ := names
      obtain ⟨rfl, distinct⟩ := params
      by_cases double : earlier.any name.same
      · rw [if_pos double, if_pos double]
        exact accords_complaint (same ▸ names_written inside) (same' ▸ names_written inside')
          fun _ => rfl
      · have longer : Params (earlier ++ [name]) (earlier ++ [name]) :=
          .extend ⟨rfl, distinct⟩ (Bool.not_eq_true _ ▸ double)
        rw [if_neg double, if_neg double]
        refine accords_accept (by decide) ?_ (.pure (fun _ _ => id) longer)
        exact (ih (m - 1 - 1) fuel' _ _ (by omega) (by omega) longer).looser (by omega)

omit reads le in
theorem reads_parameters : T.Reads n Params parameters parameters := by
  intro m le
  refine (reads_expect (by decide) m le).bind fun _ _ _ => accords_at ?_ ?_
  · exact .on (.bind (.pure (fun _ _ => id) ⟨rfl, .nil⟩) fun _ _ params =>
      accords_close (by decide) params (by omega))
  · refine accords_remaining fun m' le' => ?_
    exact (accords_parameterNames m' m' m' [] [] (Nat.le_refl _) (Nat.le_refl _) ⟨rfl, .nil⟩).bind
      fun _ _ params => accords_close (by decide) params (by omega)

theorem accords_function :
    T.Accords (T.On .kwDef m) (T.Ahead (m - 1)) T.Funcs (function inner) (function inner') := by
  refine (accords_advance (by decide)).bind fun t u twins => ?_
  refine (reads_expectName (m - 1) (Nat.le_refl _)).bind fun name name' names => ?_
  refine (reads_parameters (m - 1 - 1) (Nat.le_refl _)).bind fun params params' both => ?_
  refine (reads_colon (m - 1 - 1 - 1) (Nat.le_refl _)).bind fun _ _ _ => ?_
  refine (reads_block reads (m - 1 - 1 - 1 - 1) (by omega)).bind fun body body' bodies => ?_
  refine .pure (fun _ _ ahead => ahead.mono (by omega)) ⟨fun same => ?_, ?_, both.2, bodies.good⟩
  · rw [twins.1.eq same, names.eq, both.1, bodies.same same]
  · rw [Stmt.unplacedFunc, Stmt.unplacedFunc, names.eq, both.1, bodies.erased]

omit le in
theorem reads_classMember : T.Reads (n + 1) (Option.Rel T.Funcs) (classMember inner)
    (classMember inner') := by
  intro m le
  refine accords_at ((accords_function reads le).bind fun f f' related => ?_)
    (accords_accept (by decide) (accords_endOfStatement.bind fun _ _ _ => ?_) (accords_fail fun _ => rfl))
  · exact .pure (fun _ _ => id) (.some related)
  · exact .pure (fun _ _ => id) .none

omit reads le in
theorem Related.functions {fs fs' : List (Option Func)} (all : List.Forall₂ (Option.Rel T.Funcs) fs fs') :
    T.FuncLists (fs.filterMap id) (fs'.filterMap id) := by
  induction all with
  | nil => exact ⟨fun _ => rfl, rfl, by simp, by simp, trivial⟩
  | cons first _ rest =>
    cases first with
    | none => exact rest
    | some first =>
      refine ⟨fun same => ?_, ?_, List.forall_mem_cons.mpr ⟨first.good.1, rest.good.1⟩,
        List.forall_mem_cons.mpr ⟨first.good.2.1, rest.good.2.1⟩, first.good.2.2, rest.good.2.2⟩
      · exact congrArg₂ List.cons (first.same same) (rest.same same)
      · exact congrArg₂ List.cons first.erased rest.erased

theorem accords_classDefinition :
    T.Accords (T.On .kwClass m) (T.Ahead (m - 1)) T.Stmts (classDefinition inner)
      (classDefinition inner') := by
  refine (accords_advance (by decide)).bind fun t u twins => ?_
  refine (reads_expectName (m - 1) (Nat.le_refl _)).bind fun name name' names => ?_
  refine (reads_colon (m - 1 - 1) (Nat.le_refl _)).bind fun _ _ _ => ?_
  refine (reads_expect (by decide) (m - 1 - 1 - 1) (Nat.le_refl _)).bind fun _ _ _ => ?_
  refine (reads_expect (by decide) (m - 1 - 1 - 1 - 1) (Nat.le_refl _)).bind fun _ _ _ => ?_
  refine accords_remaining fun m' le' => ?_
  refine (accords_itemsUpTo (reads_classMember reads) m' m' m' (by omega) (Nat.le_refl _)
    (Nat.le_refl _)).bind fun members members' all => ?_
  have methods := Related.functions all
  have ends {m' : Nat} (le' : m' ≤ m - 1) : T.Accords (T.Ahead m') (T.Ahead (m - 1)) T.Stmts
      (pure (.defineClass (tokenPos t) name (members.filterMap id)))
      (pure (.defineClass (tokenPos u) name' (members'.filterMap id))) := by
    refine .pure (fun _ _ ahead => ahead.mono le') ⟨fun same => ?_, ?_,
      ⟨methods.good.2.1, methods.good.1⟩, methods.good.2.2⟩
    · rw [twins.1.eq same, names.eq, methods.same same]
    · rw [Stmt.unplaced, Stmt.unplaced, names.eq, methods.erased]
  exact accords_accept (by decide) (ends (by omega)) (ends (by omega))

end Blocks

theorem accords_give : T.Accords (T.On .kwReturn m) (T.Ahead (m - 1)) T.Stmts give give := by
  refine (accords_advance (by decide)).bind fun t u twins => ?_
  refine accords_test fun a => accords_test fun b => accords_test fun c => ?_
  have ends {m' : Nat} (le : m' ≤ m - 1) {value value' : Option Expr} (both : T.ExprOptions value value') :
      T.Accords (T.Ahead m') (T.Ahead (m - 1)) T.Stmts
        (do endOfStatement; return .give (tokenPos t) value)
        (do endOfStatement; return .give (tokenPos u) value') := by
    refine accords_endOfStatement.bind fun _ _ _ => ?_
    refine .pure (fun _ _ ahead => ahead.mono le) ⟨fun same => ?_, ?_, ⟨trivial, trivial⟩, both.good⟩
    · rw [twins.1.eq same, both.same same]
    · rw [Stmt.unplaced, Stmt.unplaced, both.erased]
  cases (a || b) || c with
  | true =>
    exact .bind (R := T.ExprOptions) (.pure (fun _ _ => id) .absent) fun _ _ => ends (Nat.le_refl _)
  | false =>
    exact (reads_present reads_expression _ (Nat.le_refl _)).bind fun _ _ => ends (by omega)

theorem accords_keyword {form : Pos → Stmt} (inside : k ≠ .eof)
    (erased : ∀ p q, (form p).unplaced = (form q).unplaced)
    (good : ∀ p, (form p).Every Expr.Sturdy Stmt.Sturdy) :
    T.Accords (T.On k m) (T.Ahead (m - 1)) T.Stmts (keyword form) (keyword form) := by
  refine (accords_advance inside).bind fun t u twins => accords_endOfStatement.bind fun _ _ _ => ?_
  refine .pure (fun _ _ => id) ⟨fun same => ?_, erased _ _, good _⟩
  rw [twins.1.eq same]

/-- What judging the left side of an assignment comes to, in both. -/
abbrev Judged (T : Twins) : Option Stmt → Option Stmt → Prop :=
  T.Related (Option.map Stmt.unplaced) fun found => ∀ s ∈ found, s.Every Expr.Sturdy Stmt.Sturdy

/-- Gives the statement that the left side allows, or a fault at the sign. -/
def judge (found : Option Stmt) (sign : Token) (message : String) (suggestion : Option String) :
    Parser Stmt :=
  match found with
  | some s => return s
  | none => failAt sign message suggestion

theorem accords_judge {found found' : Option Stmt} (judged : T.Judged found found') {sign sign' : Token}
    (twins : T.At sign sign') (le : m ≤ n) (message : String) (suggestion : Option String) :
    T.Accords (T.Ahead m) (T.Ahead n) T.Stmts (judge found sign message suggestion)
      (judge found' sign' message suggestion) := by
  obtain ⟨same, erased, good⟩ := judged
  cases found <;> cases found' <;> simp only [Option.map_some, Option.map_none, reduceCtorEq] at erased
  · exact accords_failAt twins
  · refine .pure (fun _ _ ahead => ahead.mono le)
      ⟨fun equal => Option.some.inj (same equal), ?_, good _ rfl⟩
    exact Option.some.inj erased

theorem Related.assigned {left left' value value' : Expr} (lefts : T.Exprs left left')
    (values : T.Exprs value value') : T.Judged (assignment? left value) (assignment? left' value') := by
  have erased (left value : Expr) : (assignment? left value).map Stmt.unplaced =
      assignment? left.unplaced value.unplaced := by cases left <;> rfl
  refine ⟨fun same => ?_, ?_, fun s found => ?_⟩
  · rw [lefts.same same, values.same same]
  · rw [erased, erased, lefts.erased, values.erased]
  · have good := lefts.good
    cases left <;> cases found
    · exact ⟨⟨trivial, trivial⟩, values.good⟩
    · exact ⟨⟨trivial, trivial⟩, good.2.1, good.2.2, values.good⟩
    · exact ⟨⟨trivial, trivial⟩, good.2, values.good⟩

/-- What updating an expression means, if anything. -/
def updating? (left : Expr) (op : UpdateOp) (value : Expr) : Option Stmt :=
  match left with
  | .var pos name => some (.update pos name op value)
  | _ => none

theorem Related.updated {left left' value value' : Expr} {op : UpdateOp} (known : op.IsKnown)
    (lefts : T.Exprs left left') (values : T.Exprs value value') :
    T.Judged (updating? left op value) (updating? left' op value') := by
  have erased (left value : Expr) : (updating? left op value).map Stmt.unplaced =
      updating? left.unplaced op value.unplaced := by cases left <;> rfl
  refine ⟨fun same => ?_, ?_, fun s found => ?_⟩
  · rw [lefts.same same, values.same same]
  · rw [erased, erased, lefts.erased, values.erased]
  · cases left <;> cases found
    exact ⟨⟨trivial, known⟩, values.good⟩

theorem reads_simple : T.Reads n T.Stmts simple simple := by
  intro m le
  refine (reads_expression m (Nat.le_refl _)).bind fun left left' lefts => accords_kind fun k => ?_
  have known (op : UpdateOp) (found : updateOp k = some op) : k ≠ .eof ∧ op.IsKnown := by
    cases k <;> cases found <;> exact ⟨by decide, trivial⟩
  cases found : updateOp k with
  | some op =>
    refine (accords_advance (known op found).1).bind fun sign sign' twins => ?_
    refine (reads_expression (m - 1 - 1) (Nat.le_refl _)).bind fun value value' values => ?_
    refine accords_endOfStatement.bind fun _ _ _ => ?_
    have form (left value : Expr) (sign : Token) (message : String) (suggestion : Option String) :
        (match left with
          | .var pos name => pure (.update pos name op value)
          | _ => failAt sign message suggestion) =
        judge (updating? left op value) sign message suggestion := by cases left <;> rfl
    have judged := accords_judge (.updated (known op found).2 lefts values) twins.1
      (show m - 1 - 1 - 1 ≤ m - 1 by omega)
    simp only [← form] at judged
    exact judged _ _
  | none =>
    refine .on (accords_at ?_ ?_)
    · refine (accords_advance (by decide)).bind fun sign sign' twins => ?_
      refine (reads_expression (m - 1 - 1) (Nat.le_refl _)).bind fun value value' values => ?_
      exact accords_endOfStatement.bind fun _ _ _ =>
        accords_judge (.assigned lefts values) twins.1 (by omega) _ _
    · refine accords_endOfStatement.bind fun _ _ _ => ?_
      refine .pure (fun _ _ => id) ⟨fun same => ?_, ?_, ⟨trivial, trivial⟩, lefts.good⟩
      · rw [lefts.same same]
      · rw [Stmt.unplaced, Stmt.unplaced, lefts.erased]

theorem reads_statementWith {inner inner' : Parser Stmt} (reads : T.Reads n T.Stmts inner inner') :
    T.Reads (n + 1) T.Stmts (statementWith inner) (statementWith inner') := by
  intro m le
  refine accords_kind fun k => ?_
  cases k
  case kwIf => exact accords_branch reads le
  case kwRepeat => exact accords_loopTimes reads le
  case kwWhile => exact accords_loopWhile reads le
  case kwFor => exact accords_loopFor reads le
  case kwBreak => exact accords_keyword (by decide) (fun _ _ => rfl) fun _ => ⟨trivial, trivial⟩
  case kwContinue => exact accords_keyword (by decide) (fun _ _ => rfl) fun _ => ⟨trivial, trivial⟩
  case kwPass => exact accords_keyword (by decide) (fun _ _ => rfl) fun _ => ⟨trivial, trivial⟩
  case kwDef =>
    refine (accords_function reads le).bind fun f f' related => ?_
    refine .pure (fun _ _ => id) ⟨fun same => ?_, ?_, ⟨related.good.2.1, related.good.1⟩, related.good.2.2⟩
    · rw [related.same same]
    · rw [Stmt.unplaced, Stmt.unplaced, related.erased]
  case kwClass => exact accords_classDefinition reads le
  case kwReturn => exact accords_give
  all_goals exact .on (reads_simple m (Nat.le_refl _))

/-- Every level of blocks takes a token, so levels for all tokens in front are enough. -/
theorem reads_statementUpTo : ∀ (n levels levels' : Nat), n ≤ levels → n ≤ levels' →
    T.Reads n T.Stmts (statementUpTo levels) (statementUpTo levels')
  | 0, _, _, _, _ => reads_none
  | n + 1, levels + 1, levels' + 1, enough, enough' =>
    reads_statementWith (reads_statementUpTo n levels levels' (Nat.le_of_succ_le_succ enough)
      (Nat.le_of_succ_le_succ enough'))

theorem reads_statement : T.Reads n T.Stmts statement statement := fun m _ =>
  accords_remaining fun m' le' =>
    (reads_statementUpTo m' m' m' (Nat.le_refl _) (Nat.le_refl _) m' (Nat.le_refl _)).looser (by omega)

theorem accords_statementsUpTo (fuel : Nat) : ∀ m fuel', m ≤ fuel → m ≤ fuel' →
    T.Accords (T.Ahead m) (T.Ahead m) T.StmtLists (statementsUpTo fuel) (statementsUpTo fuel') := by
  induction fuel with
  | zero => exact fun m fuel' none _ => accords_none none
  | succ fuel ih =>
    intro m fuel' enough enough'
    cases fuel' with
    | zero => exact accords_none enough'
    | succ fuel' =>
      refine accords_at (.on (.pure (fun _ _ => id) ⟨fun _ => rfl, rfl, trivial⟩))
        (accords_at (.on (accords_fail fun _ => rfl)) ?_)
      refine (reads_statement m (Nat.le_refl _)).bind fun first first' firsts => ?_
      refine accords_skipNewlines.bind fun _ _ _ => ?_
      refine (ih (m - 1) fuel' (by omega) (by omega)).bind fun rest rest' others => ?_
      refine .pure (fun _ _ ahead => ahead.mono (by omega)) ⟨fun same => ?_, ?_, firsts.good, others.good⟩
      · rw [firsts.same same, others.same same]
      · rw [Stmt.unplacedAll, Stmt.unplacedAll, firsts.erased, others.erased]

theorem accords_program : T.Accords (T.Ahead n) (T.Ahead n)
    (T.Related Program.unplaced fun program => program.Every Expr.Sturdy Stmt.Sturdy)
    Parser.program Parser.program := by
  refine accords_skipNewlines.bind fun _ _ _ => accords_remaining fun m le => ?_
  refine (accords_statementsUpTo m m m (Nat.le_refl _) (Nat.le_refl _)).bind fun body body' both => ?_
  refine .pure (fun _ _ ahead => ahead.mono le) ⟨fun same => ?_, ?_, both.good⟩
  · rw [both.same same]
  · rw [Program.unplaced, Program.unplaced, both.erased]

end Readers

end Twins

end Stepwise
