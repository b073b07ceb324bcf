import Stepwise.Proofs.Code.Program

/-!
The operands of a compiled program refer to no cell: what is written in a program text has no parts.
-/
namespace Stepwise

@[simp] theorem Scalar.ref?_toValue (s : Scalar) : s.toValue.ref? = none := by
  cases s <;> rfl

theorem Constant.IsText.ref?_value {c : Constant} (isText : c.IsText) : c.value.ref? = none := by
  obtain ⟨s, rfl⟩ := isText
  rfl

theorem Constant.IsName.ref?_value {c : Constant} (isName : c.IsName) : c.value.ref? = none :=
  isName.isText.ref?_value

theorem LiteralForm.Fits.ref?_value {form : LiteralForm} {c : Constant} (fits : form.Fits c) :
    c.value.ref? = none := by
  cases form with
  | number =>
    obtain ⟨n, rfl⟩ := fits
    rfl
  | string => exact Constant.IsText.ref?_value fits
  | boolean =>
    obtain ⟨b, rfl⟩ := fits
    rfl

theorem RangeStep.ref?_known {step : Option Expr} (shaped : Expr.EveryBound Expr.Shaped step)
    {v : Value} (known : RangeStep.of step = .known v) : v.ref? = none := by
  unfold RangeStep.of at known
  split at known
  next =>
    cases known
    rfl
  next c =>
    split at known
    · cases known
    · cases known
      have fits : LiteralForm.Fits .number c := shaped
      exact fits.ref?_value
  next =>
    split at known
    · cases known
      rfl
    · cases known
  next => cases known

/-- What holds of a result, if there is one. -/
def Gives {α : Type} (P : α → Prop) (x : Except Failure α) : Prop := ∀ a, x = .ok a → P a

namespace Gives

variable {α β : Type} {P : α → Prop} {Q : β → Prop}

theorem pure {a : α} (holds : P a) : Gives P (Pure.pure a) := by
  intro b same
  cases same
  exact holds

theorem bind {x : Except Failure α} {f : α → Except Failure β} (first : Gives P x)
    (rest : ∀ a, P a → Gives Q (f a)) : Gives Q (x >>= f) := by
  intro b done
  obtain ⟨a, given, done⟩ := bind_eq_ok.mp done
  exact rest a (first a given) b done

/-- Something of which nothing is needed. -/
theorem any (x : Except Failure α) : Gives (fun _ => True) x := fun _ _ => trivial

theorem throw (failure : Failure) : Gives P (throw failure) := fun _ done => nomatch done

end Gives

namespace Code

/-- Instructions whose operands refer to no cell. -/
def Scalars (is : List Instruction) : Prop := ∀ i ∈ is, i.operand.ref? = none

@[simp] theorem scalars_nil : Scalars [] := fun _ member => nomatch member

@[simp] theorem scalars_cons {i : Instruction} {is : List Instruction} :
    Scalars (i :: is) ↔ i.operand.ref? = none ∧ Scalars is :=
  List.forall_mem_cons

@[simp] theorem scalars_append {is js : List Instruction} :
    Scalars (is ++ js) ↔ Scalars is ∧ Scalars js :=
  List.forall_mem_append

@[simp] theorem ref?_int (n : Int) : (Value.int n).ref? = none := rfl

@[simp] theorem ref?_text (s : String) : (Value.text s).ref? = none := rfl

@[simp] theorem ref?_null : Value.null.ref? = none := rfl

variable (scope : Scope)

mutual

theorem expr_scalars : ∀ (e : Expr), e.Every Expr.Shaped → ∀ (line : Option Int) (base : Nat),
    Gives Scalars (compileExpr scope line base e)
  | .literal _ _ _, shaped, _, _ => by
    have here : LiteralForm.Fits _ _ := shaped
    exact .pure (by simp [here.ref?_value])
  | .var _ _, shaped, _, _ => by
    have here : Constant.IsName _ := shaped
    exact .pure (by simp [here.ref?_value])
  | .binary _ op left right, shaped, _, _ => by
    obtain ⟨-, left', right'⟩ := shaped
    cases op
    case and | or =>
      refine .bind (expr_scalars left left' _ _) fun first firsts => ?_
      refine .bind (expr_scalars right right' _ _) fun second seconds => .pure ?_
      simp [firsts, seconds]
    case unknown => exact .bind (.any _) fun _ _ => .throw _
    all_goals
      refine .bind (expr_scalars left left' _ _) fun first firsts => ?_
      refine .bind (expr_scalars right right' _ _) fun second seconds => .pure ?_
      simp [firsts, seconds]
  | .unary _ op operand, shaped, _, _ => by
    refine .bind (expr_scalars operand shaped.2 _ _) fun code scalars => ?_
    cases op
    case unknown => exact .throw _
    all_goals exact .pure (by simp [scalars])
  | .call _ _ args, shaped, _, _ => by
    refine .bind (exprs_scalars args shaped.2 _ _) fun code scalars => ?_
    exact .bind (.any _) fun _ _ => .pure (by simp [scalars])
  | .new _ _ args, shaped, _, _ => by
    refine .bind (exprs_scalars args shaped.2 _ _) fun code scalars => .pure ?_
    simp [scalars]
  | .invoke _ object _ args, shaped, _, _ => by
    refine .bind (expr_scalars object shaped.2.1 _ _) fun first firsts => ?_
    refine .bind (exprs_scalars args shaped.2.2 _ _) fun second seconds => .pure ?_
    simp [firsts, seconds]
  | .list _ elements, shaped, _, _ => by
    refine .bind (exprs_scalars elements shaped.2 _ _) fun code scalars => .pure ?_
    simp [scalars]
  | .record _ entries, shaped, _, _ => by
    refine .bind (entries_scalars entries shaped.1 shaped.2 _ _) fun code scalars => .pure ?_
    simp [scalars]
  | .index _ object position, shaped, _, _ => by
    refine .bind (expr_scalars object shaped.2.1 _ _) fun first firsts => ?_
    refine .bind (expr_scalars position shaped.2.2 _ _) fun second seconds => .pure ?_
    simp [firsts, seconds]
  | .slice _ object start stop, shaped, _, _ => by
    refine .bind (expr_scalars object shaped.2.1 _ _) fun first firsts => ?_
    refine .bind (bound_scalars start shaped.2.2.1 _ _) fun second seconds => ?_
    refine .bind (bound_scalars stop shaped.2.2.2 _ _) fun third thirds => .pure ?_
    simp [firsts, seconds, thirds]
  | .member _ object property, shaped, _, _ => by
    have named : property.IsName := shaped.1
    refine .bind (expr_scalars object shaped.2 _ _) fun code scalars => .pure ?_
    simp [scalars, named.ref?_value]
  | .alien _, shaped, _, _ => by
    have never : False := shaped
    exact never.elim

theorem exprs_scalars : ∀ (es : List Expr), Expr.EveryIn Expr.Shaped es →
    ∀ (line : Option Int) (base : Nat), Gives Scalars (compileExprs scope line base es)
  | [], _, _, _ => .pure scalars_nil
  | e :: es, shaped, _, _ => by
    refine .bind (expr_scalars e shaped.1 _ _) fun first firsts => ?_
    refine .bind (exprs_scalars es shaped.2 _ _) fun rest rests => .pure ?_
    simp [firsts, rests]

theorem bound_scalars : ∀ (bound : Option Expr), Expr.EveryBound Expr.Shaped bound →
    ∀ (line : Option Int) (base : Nat), Gives Scalars (compileBound scope line base bound)
  | none, _, _, _ => .pure (by simp)
  | some e, shaped, _, _ => expr_scalars e shaped _ _

theorem entries_scalars : ∀ (entries : List (Constant × Expr)),
    (∀ entry ∈ entries, entry.1.IsText) → Expr.EveryEntry Expr.Shaped entries →
    ∀ (line : Option Int) (base : Nat), Gives Scalars (compileEntries scope line base entries)
  | [], _, _, _, _ => .pure scalars_nil
  | (key, e) :: entries, keys, shaped, _, _ => by
    obtain ⟨text, keys⟩ := List.forall_mem_cons.mp keys
    refine .bind (expr_scalars e shaped.1 _ _) fun first firsts => ?_
    refine .bind (entries_scalars entries keys shaped.2 _ _) fun rest rests => .pure ?_
    simp [firsts, rests, text.ref?_value]

end

/-- What holds of a result of compiling, if there is one. -/
def Makes {α : Type} (P : α → Prop) (x : Compile α) : Prop := ∀ n, Gives (fun made => P made.1) (x n)

namespace Makes

variable {α β : Type} {P : α → Prop} {Q : β → Prop}

theorem pure {a : α} (holds : P a) : Makes P (Pure.pure a) := fun _ => .pure holds

theorem bind {x : Compile α} {f : α → Compile β} (first : Makes P x)
    (rest : ∀ a, P a → Makes Q (f a)) : Makes Q (x >>= f) :=
  fun n => .bind (first n) fun made holds => rest made.1 holds made.2

theorem known (a : α) {f : α → Compile β} (rest : Makes Q (f a)) : Makes Q (Pure.pure a >>= f) :=
  .bind (P := (· = a)) (.pure rfl) fun _ same => same ▸ rest

theorem any (x : Compile α) : Makes (fun _ => True) x := fun _ _ _ => trivial

theorem throw (failure : Failure) : Makes P (throw failure) := fun _ _ done => nomatch done

theorem lift {x : Except Failure α} (given : Gives P x) : Makes P (liftM x) :=
  fun _ => .bind given fun _ holds => .pure holds

end Makes

theorem plain_scalars (e : Expr) (shaped : e.Every Expr.Shaped) (line : Option Int) (base : Nat) :
    Makes Scalars (plainExpr scope line base e) :=
  .lift (expr_scalars scope e shaped line base)

theorem rangeTest_scalars (line : Option Int) (base : Nat) {var : Constant} (named : var.IsName)
    (stop : String) (step : Number ⊕ String) : Scalars (rangeTest line base var stop step) := by
  cases step <;> simp [rangeTest, named.ref?_value]

theorem range_scalars (line : Option Int) (base : Nat) {setup : List Instruction}
    (scalars : Scalars setup) {var : Constant} (named : var.IsName) (stop : String)
    (step : Number ⊕ String) {pushStep : Instruction} (scalar : pushStep.operand.ref? = none)
    (length : Nat) {inner : LoopTargets → Nat → Compile (List Instruction)}
    (inners : ∀ targets start, Makes Scalars (inner targets start)) :
    Makes Scalars (compileRange line base setup var stop step pushStep length inner) := by
  refine .bind (inners _ _) fun body bodies => .pure ?_
  simp [scalars, rangeTest_scalars _ _ named, bodies, named.ref?_value, scalar]

mutual

theorem stmt_scalars : ∀ (s : Stmt), s.Every Expr.Shaped Stmt.Shaped →
    ∀ (loop : Option LoopTargets) (base : Nat), Makes Scalars (compileStmt scope loop base s)
  | .expr _ value, shaped, _, _ => by
    refine .bind (plain_scalars scope value shaped.2 _ _) fun code scalars => .pure ?_
    simp [scalars]
  | .assign _ target value, shaped, _, _ => by
    have named : target.IsName := shaped.1
    refine .bind (plain_scalars scope value shaped.2 _ _) fun code scalars => .pure ?_
    simp [scalars, named.ref?_value]
  | .update _ target op value, shaped, _, _ => by
    unfold compileStmt
    split
    · exact .bind (.any _) fun _ _ => .throw _
    · refine .bind (plain_scalars scope value shaped.2 _ _) fun code scalars => .pure ?_
      simp [scalars]
    · exact .throw _
  | .setIndex _ object position value, shaped, _, _ => by
    refine .bind (plain_scalars scope object shaped.2.1 _ _) fun first firsts => ?_
    refine .bind (plain_scalars scope position shaped.2.2.1 _ _) fun second seconds => ?_
    refine .bind (plain_scalars scope value shaped.2.2.2 _ _) fun third thirds => .pure ?_
    simp [firsts, seconds, thirds]
  | .setMember _ object property value, shaped, _, _ => by
    have named : property.IsName := shaped.1
    refine .bind (plain_scalars scope object shaped.2.1 _ _) fun first firsts => ?_
    refine .bind (plain_scalars scope value shaped.2.2 _ _) fun second seconds => .pure ?_
    simp [firsts, seconds, named.ref?_value]
  | .branch _ test body elifs otherwise, shaped, loop, _ => by
    obtain ⟨-, test', body', elifs', otherwise'⟩ := shaped
    refine .bind (plain_scalars scope test test' _ _) fun arm arms => ?_
    refine .bind (stmts_scalars body body' loop _) fun inner inners => ?_
    refine .bind (elifs_scalars elifs elifs' loop _ _ _) fun chain chains => ?_
    refine .bind (otherwise_scalars otherwise otherwise' loop _) fun last lasts => .pure ?_
    simp only [scalars_append, scalars_cons, arms, inners, chains, lasts, ref?_int, true_and, and_true]
    split <;> simp
  | .loopTimes _ count body, shaped, _, _ => by
    obtain ⟨-, count', body'⟩ := shaped
    unfold compileStmt
    dsimp only
    split
    · refine .known _ (.bind (stmts_scalars body body' _ _) fun inner inners => .pure ?_)
      simp [inners]
    · refine .bind (.any _) fun number _ => ?_
      refine .bind (plain_scalars scope count count' _ _) fun code scalars => ?_
      refine .known _ (.bind (stmts_scalars body body' _ _) fun inner inners => .pure ?_)
      simp [scalars, inners]
  | .loopWhile _ test body, shaped, _, _ => by
    refine .bind (plain_scalars scope test shaped.2.1 _ _) fun code scalars => ?_
    refine .bind (stmts_scalars body shaped.2.2 _ _) fun inner inners => .pure ?_
    simp [scalars, inners]
  | .loopRange _ var start stop step body, shaped, _, _ => by
    obtain ⟨named, start', stop', step', body'⟩ := shaped
    have named : var.IsName := named
    unfold compileStmt
    dsimp only
    split
    · exact .throw _
    next v known =>
      have scalar := RangeStep.ref?_known step' known
      split
      · exact .throw _
      · refine .bind (.any _) fun number _ => ?_
        refine .bind (plain_scalars scope start start' _ _) fun first firsts => ?_
        refine .bind (plain_scalars scope stop stop' _ _) fun second seconds => ?_
        split
        · exact .throw _
        · refine range_scalars _ _ ?_ named _ _ scalar _ fun _ _ => stmts_scalars body body' _ _
          simp [firsts, seconds, scalar, named.ref?_value]
    · refine .bind (.any _) fun number _ => ?_
      refine .bind (plain_scalars scope start start' _ _) fun first firsts => ?_
      refine .bind (plain_scalars scope stop stop' _ _) fun second seconds => ?_
      refine .bind (.lift (bound_scalars scope step step' _ _)) fun third thirds => ?_
      refine range_scalars _ _ ?_ named _ _ rfl _ fun _ _ => stmts_scalars body body' _ _
      simp [firsts, seconds, thirds, named.ref?_value]
  | .loopEach _ var items body, shaped, _, _ => by
    have named : var.IsName := shaped.1
    refine .bind (.any _) fun number _ => ?_
    refine .bind (plain_scalars scope items shaped.2.1 _ _) fun code scalars => ?_
    refine .bind (stmts_scalars body shaped.2.2 _ _) fun inner inners => .pure ?_
    simp [scalars, inners, named.ref?_value]
  | .leave _, _, loop, _ => by
    cases loop with
    | none => exact .throw _
    | some targets => exact .pure (by simp)
  | .again _, _, loop, _ => by
    cases loop with
    | none => exact .throw _
    | some targets => exact .pure (by simp)
  | .pass _, _, _, _ => .pure (by simp)
  | .define _, _, _, _ => .throw _
  | .defineClass _ _ _, _, _, _ => .throw _
  | .give _ value, shaped, _, _ => by
    refine .bind (.lift (bound_scalars scope value shaped.2 _ _)) fun code scalars => .pure ?_
    simp [scalars]
  | .alien _, _, _, _ => .throw _

theorem stmts_scalars : ∀ (ss : List Stmt), Stmt.EveryIn Expr.Shaped Stmt.Shaped ss →
    ∀ (loop : Option LoopTargets) (base : Nat), Makes Scalars (compileStmts scope loop base ss)
  | [], _, _, _ => .pure scalars_nil
  | s :: ss, shaped, loop, _ => by
    refine .bind (stmt_scalars s shaped.1 loop _) fun first firsts => ?_
    refine .bind (stmts_scalars ss shaped.2 loop _) fun rest rests => .pure ?_
    simp [firsts, rests]

theorem elifs_scalars : ∀ (es : List Elif), Stmt.EveryElif Expr.Shaped Stmt.Shaped es →
    ∀ (loop : Option LoopTargets) (finish : Nat) (lastArm : Bool) (base : Nat),
      Makes Scalars (compileElifs scope loop finish lastArm base es)
  | [], _, _, _, _, _ => .pure scalars_nil
  | e :: es, shaped, loop, _, _, _ => by
    refine .bind (elif_scalars e shaped.1 loop _ _ _) fun first firsts => ?_
    refine .bind (elifs_scalars es shaped.2 loop _ _ _) fun rest rests => .pure ?_
    simp [firsts, rests]

theorem elif_scalars : ∀ (e : Elif), Elif.Every Expr.Shaped Stmt.Shaped e →
    ∀ (loop : Option LoopTargets) (finish : Nat) (last : Bool) (base : Nat),
      Makes Scalars (compileElif scope loop finish last base e)
  | .mk _ test body, shaped, loop, _, last, _ => by
    refine .bind (plain_scalars scope test shaped.1 _ _) fun arm arms => ?_
    refine .bind (stmts_scalars body shaped.2 loop _) fun inner inners => .pure ?_
    cases last <;> simp [arms, inners]

theorem otherwise_scalars : ∀ (otherwise : Option (List Stmt)),
    Stmt.EveryOtherwise Expr.Shaped Stmt.Shaped otherwise →
    ∀ (loop : Option LoopTargets) (base : Nat),
      Makes Scalars (compileOtherwise scope loop base otherwise)
  | none, _, _, _ => .pure scalars_nil
  | some body, shaped, loop, _ => stmts_scalars body shaped loop _

end

theorem function_scalars {f : Func} (shaped : f.Shaped) (body : Func.Every Expr.Shaped Stmt.Shaped f)
    (base : Nat) : Makes Scalars (compileFunction scope base f) := by
  refine .bind (stmts_scalars scope f.body ((Func.every_iff ..).mp body) none _)
    fun inner inners => .pure ?_
  have stores : Scalars (f.params.reverse.map fun param => ⟨.store, param.value, f.pos.line⟩) := by
    intro i member
    obtain ⟨param, among, rfl⟩ := List.mem_map.mp member
    exact (shaped.2.1 param (List.mem_reverse.mp among)).ref?_value
  exact scalars_append.mpr ⟨scalars_append.mpr ⟨stores, inners⟩, by simp⟩

theorem main_scalars (keepResult : Bool) (base : Nat) {body : List Stmt}
    (shaped : Stmt.EveryIn Expr.Shaped Stmt.Shaped body) :
    Makes Scalars (compileMain scope keepResult base body) := by
  have each := (Stmt.everyIn_iff ..).mp shaped
  unfold compileMain
  split
  next pos value last =>
    have front : Stmt.EveryIn Expr.Shaped Stmt.Shaped body.dropLast :=
      (Stmt.everyIn_iff ..).mpr fun s member => each s (List.dropLast_subset _ member)
    have final : (Stmt.expr pos value).Every Expr.Shaped Stmt.Shaped :=
      each _ (List.mem_of_getLast? last)
    refine .bind (stmts_scalars scope _ front _ _) fun first firsts => ?_
    refine .bind (plain_scalars scope value final.2 _ _) fun second seconds => .pure ?_
    simp [firsts, seconds]
  next =>
    refine .bind (stmts_scalars scope body shaped _ _) fun code scalars => .pure ?_
    simp [scalars]

/-- A function as reading gives it. -/
def Readable (f : Func) : Prop := f.Shaped ∧ Func.Every Expr.Shaped Stmt.Shaped f

theorem functions_scalars {fs : List (Name × Func)} (readable : ∀ entry ∈ fs, Readable entry.2)
    {code : Code} (scalars : Scalars code.instructions.toList) :
    Makes (fun code => Scalars code.instructions.toList) (addFunctions scope fs code) := by
  induction fs generalizing code with
  | nil => exact .pure scalars
  | cons entry fs ih =>
    obtain ⟨⟨shaped, every⟩, readable⟩ := List.forall_mem_cons.mp readable
    refine .bind (function_scalars scope shaped every _) fun body bodies => ?_
    refine ih readable ?_
    simp [scalars, bodies]

theorem methods_scalars (className : Name) {fs : List Func} (readable : ∀ f ∈ fs, Readable f)
    (found : Bindings Int) {code : Code} (scalars : Scalars code.instructions.toList) :
    Makes (fun code => Scalars code.instructions.toList)
      (addMethods scope className fs found code) := by
  induction fs generalizing found code with
  | nil => exact .pure scalars
  | cons f fs ih =>
    obtain ⟨first, readable⟩ := List.forall_mem_cons.mp readable
    refine .bind (functions_scalars scope (by simpa using first) scalars) fun code scalars => ?_
    exact .bind (.any _) fun _ _ => ih readable _ scalars

theorem classes_scalars {classes : List (Name × List Func)}
    (readable : ∀ entry ∈ classes, ∀ f ∈ entry.2, Readable f) {code : Code}
    (scalars : Scalars code.instructions.toList) :
    Makes (fun code => Scalars code.instructions.toList) (addClasses scope classes code) := by
  induction classes generalizing code with
  | nil => exact .pure scalars
  | cons entry classes ih =>
    obtain ⟨first, readable⟩ := List.forall_mem_cons.mp readable
    refine .bind (methods_scalars scope entry.1 first [] scalars) fun code scalars => ?_
    exact ih readable scalars

end Code

namespace Program

variable {program : Program}

theorem readable_functions (shaped : program.Shaped) :
    ∀ entry ∈ program.functions, Code.Readable entry.2 := by
  rintro ⟨name, f⟩ member
  exact shaped_of_mem shaped (mem_functions member).1

theorem readable_methods (shaped : program.Shaped) :
    ∀ entry ∈ program.methodLists, ∀ f ∈ entry.2, Code.Readable f := by
  rintro ⟨name, methods⟩ member f among
  obtain ⟨⟨_, pos, _⟩, inside, same⟩ := List.mem_map.mp member
  cases same
  obtain ⟨className, inBody, -⟩ := mem_classes inside
  have every := shaped_of_mem shaped inBody
  exact ⟨every.1.2 f among, (Func.everyIn_iff ..).mp every.2 f among⟩

/-- The operands of a compiled program refer to no cell. -/
theorem scalars_of_compile (shaped : program.Shaped) {filename : String}
    {keepResult : Bool} {code : Code} (compiled : program.compile filename keepResult = .ok code) :
    ∀ i ∈ code.instructions, i.operand.ref? = none := by
  obtain ⟨main, n₁, compiledMain, code₁, n₂, compiledFunctions, n₃, compiledClasses⟩ :=
    compile_steps compiled
  have body : Stmt.EveryIn Expr.Shaped Stmt.Shaped program.main := Every.main shaped
  have mains := Code.main_scalars _ keepResult _ body _ _ compiledMain
  have registered : Code.Scalars (program.classes.map fun entry =>
      (⟨.classDef, entry.1.toValue, entry.2.1.line⟩ : Instruction)) := by
    intro i member
    obtain ⟨entry, -, rfl⟩ := List.mem_map.mp member
    exact Scalar.ref?_toValue _
  have first := Code.functions_scalars _ (readable_functions shaped) (by simpa using ⟨registered, mains⟩) _ _
    compiledFunctions
  have all := Code.classes_scalars _ (readable_methods shaped) first _ _ compiledClasses
  intro i member
  exact all i (Array.mem_def.mp member)

end Program

end Stepwise
