import Stepwise.Proofs.Code.Program

/-!
Where instructions come from. A program is compiled part by part; a trace keeps with every
instruction the mark of the statement or definition it is generated from, and without the marks it is
the compiled code: `traced_of_compile`.
-/
namespace Stepwise

/-- What a stretch of a compiled program is generated from. -/
inductive Program.Part where
  | registration (name : Name) (pos : Pos)
  | statement (s : Stmt)
  | halt
  | body (f : Func)

namespace Code

variable {μ : Type} {scope : Scope}

/-- Code of a part from the address `base` on. -/
def compilePart (scope : Scope) (base : Nat) : Program.Part → Compile (List Instruction)
  | .registration name pos => return [⟨.classDef, name.toValue, pos.line⟩]
  | .statement s => compileStmt scope none base s
  | .halt => return [⟨.halt, .null, none⟩]
  | .body f => compileFunction scope base f

/-- Code of parts that follow each other, each instruction with the mark of its part. -/
def trace (scope : Scope) : Nat → List (μ × Program.Part) → Compile (List (μ × Instruction))
  | _, [] => return []
  | base, (mark, part) :: parts => do
    let is ← compilePart scope base part
    let rest ← trace scope (base + is.length) parts
    return is.map (fun i => (mark, i)) ++ rest

/-- Parts that give some code, whatever marks they carry. -/
def Traced (scope : Scope) (base n : Nat) (parts : List (μ × Program.Part)) (is : List Instruction)
    (n' : Nat) : Prop :=
  ∃ traced, trace scope base parts n = .ok (traced, n') ∧ traced.map Prod.snd = is

theorem traced_nil (base n : Nat) : Traced scope base n ([] : List (μ × Program.Part)) [] n :=
  ⟨[], rfl, rfl⟩

theorem traced_halt (mark : μ) (base n : Nat) :
    Traced scope base n [(mark, .halt)] [⟨.halt, .null, none⟩] n :=
  ⟨[(mark, ⟨.halt, .null, none⟩)], rfl, rfl⟩

theorem Traced.cons {base n m n' : Nat} {mark : μ} {part : Program.Part}
    {parts : List (μ × Program.Part)} {is js : List Instruction}
    (first : compilePart scope base part n = .ok (is, m))
    (rest : Traced scope (base + is.length) m parts js n') :
    Traced scope base n ((mark, part) :: parts) (is ++ js) n' := by
  obtain ⟨traced, run, same⟩ := rest
  refine ⟨is.map (fun i => (mark, i)) ++ traced, ?_, by simp [same, Function.comp_def]⟩
  simp only [trace, compile_bind, compile_pure]
  exact ⟨is, m, first, traced, n', run, rfl, rfl⟩

theorem Traced.append {base next n m n' : Nat} {front back : List (μ × Program.Part)}
    {is js : List Instruction} (first : Traced scope base n front is m)
    (second : Traced scope next m back js n') (behind : next = base + is.length) :
    Traced scope base n (front ++ back) (is ++ js) n' := by
  subst behind
  induction front generalizing base n is with
  | nil =>
    obtain ⟨_, run, rfl⟩ := first
    cases run
    exact second
  | cons entry front ih =>
    obtain ⟨_, run, rfl⟩ := first
    simp only [trace, compile_bind, compile_pure] at run
    obtain ⟨ks, k, compiled, rest, k', run, rfl, rfl⟩ := run
    have marked : (ks.map fun i => (entry.1, i)).map Prod.snd = ks := by
      simp [Function.comp_def]
    rw [List.map_append, marked] at second ⊢
    rw [List.length_append, ← Nat.add_assoc] at second
    rw [List.append_assoc]
    exact .cons compiled (ih ⟨rest, run, rfl⟩ second)

theorem traced_statements {ss : List (μ × Stmt)} {base n n' : Nat} {is : List Instruction}
    (compiled : compileStmts scope none base (ss.map Prod.snd) n = .ok (is, n')) :
    Traced scope base n (ss.map fun entry => (some entry.1, .statement entry.2)) is n' := by
  induction ss generalizing base n is with
  | nil =>
    simp only [List.map_nil, compileStmts, compile_pure] at compiled
    obtain ⟨rfl, rfl⟩ := compiled
    exact traced_nil base n
  | cons entry ss ih =>
    simp only [List.map_cons, compileStmts, compile_bind, compile_pure] at compiled
    obtain ⟨js, m, first, ks, _, rest, rfl, rfl⟩ := compiled
    exact .cons first (ih rest)

theorem traced_functions {fs : List (Name × μ × Func)} {code code' : Code} {n n' : Nat}
    (compiled : addFunctions scope (fs.map fun entry => (entry.1, entry.2.2)) code n =
      .ok (code', n')) : ∃ is, code'.instructions.toList = code.instructions.toList ++ is ∧
      Traced scope code.size n (fs.map fun entry => (some entry.2.1, .body entry.2.2)) is n' := by
  induction fs generalizing code n with
  | nil =>
    simp only [List.map_nil, addFunctions, compile_pure] at compiled
    obtain ⟨rfl, rfl⟩ := compiled
    exact ⟨[], by simp, traced_nil _ _⟩
  | cons entry fs ih =>
    simp only [List.map_cons, addFunctions, compile_bind] at compiled
    obtain ⟨js, m, first, rest⟩ := compiled
    obtain ⟨is, grown, traced⟩ := ih rest
    refine ⟨js ++ is, by simpa using grown, .cons first ?_⟩
    rwa [size, Array.size_append, List.size_toArray] at traced

theorem traced_methods {className : Name} {mark : μ} {fs : List Func} {table : Bindings Int}
    {code code' : Code} {n n' : Nat}
    (compiled : addMethods scope className fs table code n = .ok (code', n')) :
    ∃ is, code'.instructions.toList = code.instructions.toList ++ is ∧
      Traced scope code.size n (fs.map fun f => (some mark, .body f)) is n' := by
  induction fs generalizing table code n with
  | nil =>
    simp only [addMethods, compile_pure] at compiled
    obtain ⟨rfl, rfl⟩ := compiled
    exact ⟨[], by simp, traced_nil _ _⟩
  | cons f fs ih =>
    simp only [addMethods, compile_bind] at compiled
    obtain ⟨code₁, m, first, name, _, named, rest⟩ := compiled
    obtain ⟨-, rfl⟩ := compile_lift.mp named
    obtain ⟨js, grown, traced⟩ := @traced_functions μ scope [(_, mark, f)] _ _ _ _ first
    obtain ⟨is, grown', traced'⟩ := ih rest
    refine ⟨js ++ is, by rw [grown', grown, List.append_assoc], traced.append traced' ?_⟩
    simp only [Code.size, ← Array.length_toList, grown, List.length_append]

theorem traced_classes {classes : List (Name × μ × List Func)} {code code' : Code} {n n' : Nat}
    (compiled : addClasses scope (classes.map fun entry => (entry.1, entry.2.2)) code n =
      .ok (code', n')) : ∃ is, code'.instructions.toList = code.instructions.toList ++ is ∧
      Traced scope code.size n
        (classes.flatMap fun entry => entry.2.2.map fun f => (some entry.2.1, .body f)) is n' := by
  induction classes generalizing code n with
  | nil =>
    simp only [List.map_nil, addClasses, compile_pure] at compiled
    obtain ⟨rfl, rfl⟩ := compiled
    exact ⟨[], by simp, traced_nil _ _⟩
  | cons entry classes ih =>
    simp only [List.map_cons, addClasses, compile_bind] at compiled
    obtain ⟨code₁, m, first, rest⟩ := compiled
    obtain ⟨js, grown, traced⟩ := @traced_methods μ scope _ entry.2.1 _ _ _ _ _ _ first
    obtain ⟨is, grown', traced'⟩ := ih rest
    refine ⟨js ++ is, by rw [grown', grown, List.append_assoc], traced.append traced' ?_⟩
    simp only [Code.size, ← Array.length_toList, grown, List.length_append]

theorem traced_registrations (classes : List (Name × μ × Pos × List Func)) (base n : Nat) :
    Traced scope base n (classes.map fun entry => (some entry.2.1, .registration entry.1 entry.2.2.1))
      (classes.map fun entry => ⟨.classDef, entry.1.toValue, entry.2.2.1.line⟩) n := by
  induction classes generalizing base with
  | nil => exact traced_nil base n
  | cons entry classes ih =>
    have first : compilePart scope base (.registration entry.1 entry.2.2.1) n =
        .ok ([⟨.classDef, entry.1.toValue, entry.2.2.1.line⟩], n) := rfl
    exact .cons first (ih _)

end Code

namespace Program

variable {μ : Type}

/-- The functions that count, each with the mark of its definition. -/
def markedFunctions (body : List (μ × Stmt)) : Bindings (μ × Func) :=
  Bindings.ofList (body.filterMap fun
    | (mark, .define f) => f.name.scalar?.map fun name => (name, (mark, f))
    | _ => none)

/-- The classes that count, each with the mark of its definition. -/
def markedClasses (body : List (μ × Stmt)) : Bindings (μ × Pos × List Func) :=
  Bindings.ofList (body.filterMap fun
    | (mark, .defineClass pos name methods) =>
      name.scalar?.map fun name => (name, (mark, (pos, methods)))
    | _ => none)

/-- The statements that are not definitions, with their marks. -/
def markedMain (body : List (μ × Stmt)) : List (μ × Stmt) :=
  body.filter fun
    | (_, .define _) | (_, .defineClass _ _ _) => false
    | _ => true

/-- The parts that a program is compiled from, in the order of their code. The halt comes from no
statement. -/
def parts (body : List (μ × Stmt)) : List (Option μ × Part) :=
  (markedClasses body).map (fun entry => (some entry.2.1, Part.registration entry.1 entry.2.2.1)) ++
    (markedMain body).map (fun entry => (some entry.1, Part.statement entry.2)) ++ [(none, Part.halt)] ++
    (markedFunctions body).map (fun entry => (some entry.2.1, Part.body entry.2.2)) ++
    (markedClasses body).flatMap fun entry => entry.2.2.2.map fun f => (some entry.2.1, Part.body f)

variable {program : Program} {body : List (μ × Stmt)}

theorem functions_of_marked (same : program.body = body.map Prod.snd) :
    program.functions = (markedFunctions body).map fun entry => (entry.1, entry.2.2) := by
  rw [functions, markedFunctions, ← Bindings.ofList_map (fun entry : μ × Func => entry.2), same,
    List.filterMap_map, List.map_filterMap]
  congr 2
  funext ⟨mark, s⟩
  cases s with
  | define f => cases scalar : f.name.scalar? <;> simp [scalar]
  | _ => rfl

theorem classes_of_marked (same : program.body = body.map Prod.snd) :
    program.classes = (markedClasses body).map fun entry => (entry.1, entry.2.2) := by
  rw [classes, markedClasses, ← Bindings.ofList_map (fun entry : μ × Pos × List Func => entry.2), same,
    List.filterMap_map, List.map_filterMap]
  congr 2
  funext ⟨mark, s⟩
  cases s with
  | defineClass pos name methods => cases scalar : name.scalar? <;> simp [scalar]
  | _ => rfl

theorem main_of_marked (same : program.body = body.map Prod.snd) :
    program.main = (markedMain body).map Prod.snd := by
  rw [main, markedMain, same, List.filter_map]
  congr 2
  funext ⟨mark, s⟩
  cases s <;> rfl

/-- Compiled code is the trace of its parts without the marks. -/
theorem traced_of_compile (same : program.body = body.map Prod.snd) {filename : String} {code : Code}
    (compiled : program.compile filename = .ok code) :
    ∃ n, Code.Traced (program.scope filename) 0 0 (parts body) code.instructions.toList n := by
  obtain ⟨main, n₁, compiledMain, code₁, n₂, compiledFunctions, n₃, compiledClasses⟩ :=
    compile_steps compiled
  have compiledMain : (do return (← Code.compileStmts (program.scope filename) none
      program.classes.length program.main) ++ [⟨.halt, .null, none⟩] : Code.Compile _) 0 =
        .ok (main, n₁) := compiledMain
  simp only [Code.compile_bind, Code.compile_pure] at compiledMain
  obtain ⟨is, m, compiledStmts, rfl, rfl⟩ := compiledMain
  rw [functions_of_marked same] at compiledFunctions
  rw [main_of_marked same] at compiledStmts
  let classes := (markedClasses body).map fun entry => (entry.1, entry.2.1, entry.2.2.2)
  have lists : program.methodLists = classes.map fun entry => (entry.1, entry.2.2) := by
    rw [methodLists, classes_of_marked same, List.map_map, List.map_map]
    rfl
  rw [lists] at compiledClasses
  obtain ⟨fs, grown, tracedFunctions⟩ := Code.traced_functions compiledFunctions
  obtain ⟨ms, grown', tracedMethods⟩ := Code.traced_classes compiledClasses
  have registered := @Code.traced_registrations μ (program.scope filename) (markedClasses body) 0 0
  have lengths : program.classes.length = (markedClasses body).length := by
    rw [classes_of_marked same, List.length_map]
  have statements := registered.append (Code.traced_statements compiledStmts) (by simp [lengths])
  have whole := statements.append (Code.traced_halt none (program.classes.length + is.length) m)
    (by simp [lengths])
  have withFunctions := whole.append tracedFunctions (by simp [Code.size, lengths])
  have all := withFunctions.append tracedMethods
    (by simp [Code.size, ← Array.length_toList, grown, lengths])
  refine ⟨n₃, ?_⟩
  simp only [classes, List.flatMap_map] at all
  rw [grown', grown, classes_of_marked same, List.map_map, ← List.append_assoc]
  exact all

end Program

end Stepwise
