import Mathlib.Algebra.GroupWithZero.Nat
import Stepwise.Proofs.Bindings
import Stepwise.Proofs.Code.Placement
import Stepwise.Proofs.Shape
import Stepwise.Walker

/-!
The layout of functions and methods that are put one behind the other, and of a main body with its
halt. The code knows where each function is entered and how many arguments it takes.
-/
namespace Stepwise

/-- A text that can name a function or a class: no point stands in it, so that the name of a class
can be read off the qualified name of a method. -/
def Scalar.IsPointless (name : Name) : Prop := ∃ s : String, name = .text s ∧ '.' ∉ s.toList

theorem Constant.IsName.pointless {c : Constant} (isName : c.IsName) :
    ∃ name, c = .scalar name ∧ name.IsPointless := by
  obtain ⟨s, rfl, chars⟩ := isName
  refine ⟨.text s, rfl, s, rfl, fun point => ?_⟩
  have part := chars '.' point
  revert part
  decide

/-- The name under which a method is entered. -/
def qualifiedName (className method : Name) : Name := .text s!"{className}.{method}"

theorem qualifiedName_text (className method : String) :
    qualifiedName (.text className) (.text method) = .text (className ++ "." ++ method) := by
  simp [qualifiedName, ToString.toString, Scalar.plain]

theorem append_point_inj {a b c d : List Char} (first : '.' ∉ a) (second : '.' ∉ c)
    (same : a ++ '.' :: b = c ++ '.' :: d) : a = c ∧ b = d := by
  induction a generalizing c with
  | nil =>
    cases c with
    | nil => exact ⟨rfl, by simpa using same⟩
    | cons x c =>
      simp only [List.nil_append, List.cons_append, List.cons.injEq] at same
      exact absurd (same.1 ▸ List.mem_cons_self) second
  | cons x a ih =>
    cases c with
    | nil =>
      simp only [List.nil_append, List.cons_append, List.cons.injEq] at same
      exact absurd (same.1 ▸ List.mem_cons_self) first
    | cons y c =>
      simp only [List.cons_append, List.cons.injEq] at same
      obtain ⟨rfl, same⟩ := same
      have tails := ih (fun point => first (List.mem_cons_of_mem _ point))
        (fun point => second (List.mem_cons_of_mem _ point)) same
      exact ⟨by rw [tails.1], tails.2⟩

theorem qualifiedName_inj {className other : Name} (pointless : className.IsPointless)
    (otherPointless : other.IsPointless) {method otherMethod : String}
    (same : (qualifiedName className (.text method)).key =
      (qualifiedName other (.text otherMethod)).key) :
    className = other ∧ method = otherMethod := by
  obtain ⟨s, rfl, free⟩ := pointless
  obtain ⟨t, rfl, otherFree⟩ := otherPointless
  simp only [qualifiedName_text, Scalar.key, Scalar.Key.text.injEq] at same
  have lists := congrArg String.toList same
  simp only [String.toList_append, List.append_assoc] at lists
  have parts := append_point_inj free otherFree lists
  exact ⟨by rw [String.toList_inj.mp parts.1], String.toList_inj.mp parts.2⟩

theorem qualifiedName_ne {className name : Name} (pointless : className.IsPointless)
    (plain : name.IsPointless) {method : String} :
    name.key ≠ (qualifiedName className (.text method)).key := by
  obtain ⟨s, rfl, -⟩ := pointless
  obtain ⟨t, rfl, free⟩ := plain
  intro same
  simp only [qualifiedName_text, Scalar.key, Scalar.Key.text.injEq] at same
  exact free (by simp [same])

theorem text_of_key_eq {other : Name} {s : String} (same : other.key = (Scalar.text s).key) :
    other = .text s := by
  cases other with
  | text t => simpa [Scalar.key] using same
  | number n => cases n <;> simp [Scalar.key] at same; split at same <;> cases same
  | _ => simp [Scalar.key] at same

theorem eq_of_key_eq {name other : Name} (pointless : name.IsPointless)
    (same : other.key = name.key) : other = name := by
  obtain ⟨s, rfl, -⟩ := pointless
  exact text_of_key_eq same

namespace Code

variable {scope : Scope}

/-- Number of instructions of a function. -/
def funcLength (f : Func) : Nat := f.params.length + stmtsLength f.body + 2

/-- The addresses of functions that follow each other. -/
def entriesFrom (base : Nat) : List Func → List (Nat × Func)
  | [] => []
  | f :: fs => (base, f) :: entriesFrom (base + funcLength f) fs

theorem entriesFrom_append (base : Nat) (fs gs : List Func) :
    entriesFrom base (fs ++ gs) =
      entriesFrom base fs ++ entriesFrom (base + (fs.map funcLength).sum) gs := by
  induction fs generalizing base with
  | nil => rfl
  | cons f fs ih => simp [entriesFrom, ih, Nat.add_assoc]

/-- Code behind which the code of some functions was put. -/
structure Grows (scope : Scope) (code : Code) (fs : List Func) (code' : Code) : Prop where
  size : code'.size = code.size + (fs.map funcLength).sum
  starts : code.instructions.toList <+: code'.instructions.toList
  placed : ∀ {final : Code}, code'.instructions.toList <+: final.instructions.toList →
    ∀ entry ∈ entriesFrom code.size fs, FuncAt final scope entry.1 entry.2

theorem Grows.refl {code code' : Code} (same : code'.instructions = code.instructions) :
    Grows scope code [] code' where
  size := by simp [Code.size, same]
  starts := same ▸ List.prefix_refl _
  placed _ _ member := nomatch member

theorem Grows.trans {code code' code'' : Code} {fs gs : List Func} (first : Grows scope code fs code')
    (second : Grows scope code' gs code'') : Grows scope code (fs ++ gs) code'' where
  size := by simp [second.size, first.size, Nat.add_assoc]
  starts := first.starts.trans second.starts
  placed begun entry member := by
    rw [entriesFrom_append, ← first.size, List.mem_append] at member
    rcases member with here | there
    · exact first.placed (second.starts.trans begun) entry here
    · exact second.placed begun entry there

/-- Instructions that stand behind others are held from there on. -/
theorem holds_behind {final : Code} {front is : List Instruction}
    (begun : front ++ is <+: final.instructions.toList) : final.Holds front.length is := by
  intro k i found
  have bound : k < is.length := (List.getElem?_eq_some_iff.mp found).1
  obtain ⟨rest, whole⟩ := begun
  rw [Has, ← Array.getElem?_toList, ← whole, List.append_assoc,
    List.getElem?_append_right (by omega), List.getElem?_append_left (by omega),
    Nat.add_sub_cancel_left]
  exact found

theorem grows_of_compile {code code' : Code} {n n' : Nat} {f : Func} {is : List Instruction}
    (compiled : compileFunction scope code.size f n = .ok (is, n'))
    (behind : code'.instructions = code.instructions ++ is.toArray) :
    Grows scope code [f] code' := by
  simp only [compileFunction, compile_bind, compile_pure] at compiled
  obtain ⟨body, _, compiled, rfl, rfl⟩ := compiled
  have length : body.length = stmtsLength f.body :=
    (stmts_placed f.body compiled : Placed code _ _ _ _ _ _ _).length
  refine ⟨?_, by simp [behind], fun {final} begun entry member => ?_⟩
  · simp [size, behind, funcLength, length]
    omega
  · simp only [entriesFrom, List.mem_singleton] at member
    subst member
    have placed : Placed final _ _ _ _ _ _ _ := stmts_placed f.body compiled
    rw [behind, Array.toList_append] at begun
    have held : final.Holds code.size _ := holds_behind begun
    rw [List.append_assoc, holds_append, holds_append, holds_cons, holds_cons] at held
    obtain ⟨heldStores, heldBody, heldPush, heldRet, -⟩ := held
    have layout := placed.layout heldBody
    simp only [List.length_map, List.length_reverse] at layout heldPush heldRet
    exact .intro heldStores layout (by rw [length]) heldPush heldRet

/-- What code knows under a name, next to the function that has the name, if any: where it is
entered and how many parameters it has. -/
def Entered (place : Nat → Func → Prop) (arities : Bindings Int) (name : Name) :
    Option Int → Option Func → Prop
  | none, none => True
  | some address, some f => arities.get? name = some (f.params.length : Int) ∧
    ∃ base : Nat, address = base ∧ place base f
  | _, _ => False

variable {place : Nat → Func → Prop}

theorem Entered.mono {arities arities' : Bindings Int} {name : Name} {address : Option Int}
    {f : Option Func} (same : arities'.get? name = arities.get? name)
    (entered : Entered place arities name address f) : Entered place arities' name address f := by
  cases address <;> cases f <;> simp_all [Entered]

/-- The functions that code knows, next to those of a program. -/
def FunctionsEntered (place : Nat → Func → Prop) (code : Code) (known : Bindings Func) : Prop :=
  ∀ name : Name, name.IsPointless →
    Entered place code.arities name (code.functions.get? name) (known.get? name)

theorem addFunctions_spec (place : Nat → Func → Prop) {fs : List (Name × Func)} {code code' : Code} {n n' : Nat}
    (compiled : addFunctions scope fs code n = .ok (code', n')) :
    Grows scope code (fs.map Prod.snd) code' ∧ code'.classes = code.classes ∧
      ((∀ entry ∈ entriesFrom code.size (fs.map Prod.snd), place entry.1 entry.2) →
        ∀ known, FunctionsEntered place code known →
          FunctionsEntered place code' (known.update fs)) := by
  induction fs generalizing code n with
  | nil =>
    simp only [addFunctions, compile_pure] at compiled
    obtain ⟨rfl, rfl⟩ := compiled
    exact ⟨.refl rfl, rfl, fun _ _ entered => entered⟩
  | cons entry fs ih =>
    obtain ⟨name, f⟩ := entry
    simp only [addFunctions, compile_bind] at compiled
    obtain ⟨is, _, compiledOne, compiled⟩ := compiled
    have grows : Grows scope code [f] { code with
        instructions := code.instructions ++ is.toArray
        functions := code.functions.put name code.size
        arities := code.arities.put name f.params.length } := grows_of_compile compiledOne rfl
    obtain ⟨growsMore, sameClasses, entries⟩ := ih compiled
    refine ⟨grows.trans growsMore, sameClasses, fun places known entered => ?_⟩
    have first := places (code.size, f) List.mem_cons_self
    refine entries (fun entry member => places entry ?_) (known.put name f) fun other plain => ?_
    · rw [grows.size] at member
      exact List.mem_cons_of_mem _ (by simpa using member)
    simp only [Bindings.get?_put]
    split
    next same => exact ⟨by simp only [Bindings.get?_put, same, if_true], code.size, rfl, first⟩
    next differs => exact (entered other plain).mono (Bindings.get?_put_other differs ..)

/-- The methods of a class, next to the table of their addresses. -/
def MethodsEntered (place : Nat → Func → Prop) (arities : Bindings Int) (className : Name)
    (table : Bindings Int) (methods : Bindings Func) : Prop :=
  ∀ method : String, Entered place arities (qualifiedName className (.text method))
    (table.get? (.text method)) (methods.get? (.text method))

/-- Looking up every name but the qualified ones of a class gives the same in both. -/
def AgreeOutside (className : Name) (code code' : Code) : Prop :=
  ∀ name : Name, (∀ method : String, name.key ≠ (qualifiedName className (.text method)).key) →
    code'.functions.get? name = code.functions.get? name ∧
      code'.arities.get? name = code.arities.get? name

theorem addMethods_spec (place : Nat → Func → Prop) {className : Name}
    (pointless : className.IsPointless) {fs : List Func} (named : ∀ f ∈ fs, f.name.IsText) {found : Bindings Int} {code code' : Code} {n n' : Nat}
    (compiled : addMethods scope className fs found code n = .ok (code', n')) :
    Grows scope code fs code' ∧ AgreeOutside className code code' ∧
      ∃ table, code'.classes = code.classes.put className table ∧
        ((∀ entry ∈ entriesFrom code.size fs, place entry.1 entry.2) → ∀ known,
          MethodsEntered place code.arities className found known →
          MethodsEntered place code'.arities className table (known.update (fs.filterMap fun f =>
            f.name.scalar?.map fun name => (name, f)))) := by
  induction fs generalizing found code n with
  | nil =>
    simp only [addMethods, compile_pure] at compiled
    obtain ⟨rfl, rfl⟩ := compiled
    exact ⟨.refl rfl, fun _ _ => ⟨rfl, rfl⟩, found, rfl, fun _ _ entered => entered⟩
  | cons f fs ih =>
    obtain ⟨method, isText⟩ := named f List.mem_cons_self
    have qualified : (.text s!"{className}.{f.name}" : Name) =
        qualifiedName className (.text method) := by
      simp [isText, qualifiedName, ToString.toString, Constant.plain, Scalar.plain]
    simp only [addMethods] at compiled
    rw [qualified] at compiled
    simp only [addFunctions, compile_bind, compile_pure, isText, Constant.name,
      compile_lift] at compiled
    obtain ⟨_, _, ⟨is, _, compiledOne, rfl, rfl⟩, _, _, ⟨named', rfl⟩, compiled⟩ := compiled
    cases named'
    have grows : Grows scope code [f] { code with
        instructions := code.instructions ++ is.toArray
        functions := code.functions.put (qualifiedName className (.text method)) code.size
        arities := code.arities.put (qualifiedName className (.text method)) f.params.length } :=
      grows_of_compile compiledOne rfl
    obtain ⟨growsMore, others, table, classes, entries⟩ :=
      ih (fun f member => named f (List.mem_cons_of_mem _ member)) compiled
    refine ⟨grows.trans growsMore, fun name apart => ?_, table, classes,
      fun places known entered => ?_⟩
    · rw [(others name apart).1, (others name apart).2]
      exact ⟨Bindings.get?_put_other (apart method) .., Bindings.get?_put_other (apart method) ..⟩
    · have first := places (code.size, f) List.mem_cons_self
      have listed : (f :: fs).filterMap (fun f => f.name.scalar?.map fun name => (name, f)) =
          (.text method, f) :: fs.filterMap (fun f => f.name.scalar?.map fun name => (name, f)) := by
        simp [isText, Constant.scalar?]
      rw [listed]
      refine entries (fun entry member => places entry ?_) (known.put (.text method) f)
        fun other => ?_
      · rw [grows.size] at member
        exact List.mem_cons_of_mem _ (by simpa using member)
      simp only [Bindings.get?_put]
      split
      next same =>
        obtain rfl : other = method := by simpa [Scalar.key] using same
        exact ⟨by simp only [Bindings.get?_put_same], code.size, rfl, first⟩
      next differs =>
        refine (entered other).mono (Bindings.get?_put_other (fun same => differs ?_) ..)
        rw [(qualifiedName_inj pointless pointless same).2]

/-- The classes that code knows, next to those of a program. -/
def ClassesEntered (place : Nat → Func → Prop) (code : Code) (known : Bindings (List Func)) : Prop :=
  ∀ className : Name, match code.classes.get? className, known.get? className with
    | none, none => True
    | some table, some methods => className.IsPointless ∧
      MethodsEntered place code.arities className table (Walker.methodTable methods)
    | _, _ => False

theorem addClasses_spec (place : Nat → Func → Prop) {cs : List (Name × List Func)}
    (named : ∀ entry ∈ cs, entry.1.IsPointless ∧ ∀ f ∈ entry.2, f.name.IsText) {code code' : Code}
    {n n' : Nat} (compiled : addClasses scope cs code n = .ok (code', n')) :
    Grows scope code (cs.flatMap Prod.snd) code' ∧
      (∀ name : Name, name.IsPointless → code'.functions.get? name = code.functions.get? name ∧
        code'.arities.get? name = code.arities.get? name) ∧
      ((∀ entry ∈ entriesFrom code.size (cs.flatMap Prod.snd), place entry.1 entry.2) →
        ∀ known, ClassesEntered place code known → ClassesEntered place code' (known.update cs)) := by
  induction cs generalizing code n with
  | nil =>
    simp only [addClasses, compile_pure] at compiled
    obtain ⟨rfl, rfl⟩ := compiled
    exact ⟨.refl rfl, fun _ _ => ⟨rfl, rfl⟩, fun _ _ entered => entered⟩
  | cons entry cs ih =>
    obtain ⟨className, methods⟩ := entry
    obtain ⟨pointless, isText⟩ := named (className, methods) List.mem_cons_self
    simp only [addClasses, compile_bind] at compiled
    obtain ⟨code₁, _, compiledOne, compiled⟩ := compiled
    obtain ⟨grows, others₁, table, classes, entries₁⟩ :=
      addMethods_spec place pointless isText compiledOne
    obtain ⟨growsMore, others, entries⟩ :=
      ih (fun entry member => named entry (List.mem_cons_of_mem _ member)) compiled
    rw [List.flatMap_cons, entriesFrom_append, ← grows.size]
    refine ⟨grows.trans growsMore, fun name plain => ?_, fun places known entered => ?_⟩
    · have first := others₁ name fun method => qualifiedName_ne pointless plain
      have rest := others name plain
      exact ⟨rest.1.trans first.1, rest.2.trans first.2⟩
    · refine entries (fun entry member => places entry (List.mem_append_right _ member))
        (known.put className methods) fun name => ?_
      rw [classes]
      simp only [Bindings.get?_put]
      by_cases same : name.key = className.key
      · obtain rfl := eq_of_key_eq pointless same
        simp only [if_true]
        refine ⟨pointless, entries₁ (fun entry member => places entry ?_) [] fun method => trivial⟩
        exact List.mem_append_left _ member
      · simp only [same, if_false]
        have before := entered name
        revert before
        cases code.classes.get? name <;> cases known.get? name <;> simp only [imp_self]
        rintro ⟨plain, before⟩
        refine ⟨plain, fun method => (before method).mono (others₁ _ fun other key => same ?_).2⟩
        rw [(qualifiedName_inj plain pointless key).1]

/-- The code of the main body up to its halt. With `keepResult` the value of a last expression stays
on the stack. -/
inductive MainAt (code : Code) (scope : Scope) (keepResult : Bool) (base : Nat) (body : List Stmt)
    (finish : Nat) : Prop where
  | plain {number : Nat} :
      (keepResult = true → ∀ pos value, body.getLast? ≠ some (.expr pos value)) →
      StmtsAt code scope none 0 base body number finish → code.Has finish ⟨.halt, .null, none⟩ →
      MainAt code scope keepResult base body finish
  | kept {init : List Stmt} {pos : Pos} {value : Expr} {number mid : Nat} : keepResult = true →
      body = init ++ [.expr pos value] → StmtsAt code scope none 0 base init number mid →
      ExprAt code scope pos.line mid value finish → code.Has finish ⟨.halt, .null, none⟩ →
      MainAt code scope keepResult base body finish

theorem compileMain_plain {keepResult : Bool} {base : Nat} {body : List Stmt}
    (plain : keepResult = true → ∀ pos value, body.getLast? ≠ some (.expr pos value)) :
    compileMain scope keepResult base body =
      (compileStmts scope none base body >>= fun is => pure (is ++ [⟨.halt, .null, none⟩])) := by
  unfold compileMain
  split
  next pos value last => exact absurd last (plain rfl pos value)
  next => rfl

theorem mainAt_of_compile (code : Code) {keepResult : Bool} {base n' : Nat} {body : List Stmt}
    {is : List Instruction} (compiled : compileMain scope keepResult base body 0 = .ok (is, n')) :
    ∃ finish, finish + 1 = base + is.length ∧
      (code.Holds base is → MainAt code scope keepResult base body finish) := by
  by_cases plain : keepResult = true → ∀ pos value, body.getLast? ≠ some (.expr pos value)
  · rw [compileMain_plain plain] at compiled
    simp only [compile_bind, compile_pure] at compiled
    obtain ⟨first, _, h1, rfl, rfl⟩ := compiled
    have placed : Placed code _ _ _ _ _ _ _ := stmts_placed body h1
    refine ⟨base + first.length, by simp; omega, fun held => ?_⟩
    rw [holds_append, holds_cons] at held
    exact .plain plain (placed.layout held.1) held.2.1
  · push Not at plain
    obtain ⟨rfl, pos, value, last⟩ := plain
    simp only [compileMain, last, compile_bind, compile_plainExpr, compile_pure] at compiled
    obtain ⟨first, _, h1, second, _, ⟨h2, rfl⟩, rfl, rfl⟩ := compiled
    have placed : Placed code _ _ _ _ _ _ _ := stmts_placed body.dropLast h1
    refine ⟨base + first.length + second.length, by simp; omega, fun held => ?_⟩
    rw [List.append_assoc, holds_append, holds_append, holds_cons] at held
    obtain ⟨init, rfl⟩ := List.getLast?_eq_some_iff.mp last
    rw [List.dropLast_concat] at placed
    exact .kept rfl rfl (placed.layout held.1) (exprAt_of_compile value h2 held.2.1 rfl) held.2.2.1

end Code

end Stepwise
