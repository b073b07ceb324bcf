import Stepwise.Proofs.Code.Entries

/-!
The layout of a whole program: the class definitions, the main body and its halt, then functions and
methods. A compiled program knows where each of them is entered and how many arguments it takes, and
knows nothing by name besides.
-/
namespace Stepwise.Code

variable {scope : Scope} {place : Nat → Prop}

/-- The table of a class agrees with the qualified names that code knows. -/
def MethodsIndexed (code : Code) (className : Name) (table : Bindings Int) : Prop :=
  ∀ (method : Name) (address : Int), table.get? method = some address →
    (∃ s : String, method = .text s) ∧
      code.functions.get? (qualifiedName className method) = some address

/-- All that code knows by name is entered at a place. -/
def FunctionsIndexed (place : Nat → Prop) (code : Code) : Prop :=
  ∀ (name : Name) (address : Int), code.functions.get? name = some address →
    ∃ base : Nat, address = base ∧ place base

structure Indexed (place : Nat → Prop) (code : Code) : Prop where
  functions : FunctionsIndexed place code
  methods : ∀ (className : Name) (table : Bindings Int), code.classes.get? className = some table →
    className.IsPointless ∧ MethodsIndexed code className table

theorem FunctionsIndexed.put {code code' : Code} (indexed : FunctionsIndexed place code)
    {name : Name} (here : place code.size)
    (bound : code'.functions = code.functions.put name (code.size : Int)) :
    FunctionsIndexed place code' := by
  intro other address found
  rw [bound, Bindings.get?_put] at found
  split at found
  next =>
    cases found
    exact ⟨code.size, rfl, here⟩
  next => exact indexed other address found

theorem addFunctions_indexed {fs : List (Name × Func)} {code code' : Code} {n n' : Nat}
    (compiled : addFunctions scope fs code n = .ok (code', n'))
    (places : ∀ entry ∈ entriesFrom code.size (fs.map Prod.snd), place entry.1)
    (indexed : FunctionsIndexed place code) : FunctionsIndexed place code' := by
  induction fs generalizing code n with
  | nil =>
    simp only [addFunctions, compile_pure] at compiled
    obtain ⟨rfl, rfl⟩ := compiled
    exact indexed
  | cons entry fs ih =>
    obtain ⟨name, f⟩ := entry
    simp only [addFunctions, compile_bind] at compiled
    obtain ⟨is, _, compiledOne, compiled⟩ := compiled
    have grows : Grows scope code [f] { code with
        instructions := code.instructions ++ is.toArray
        functions := code.functions.put name code.size
        arities := code.arities.put name f.params.length } := grows_of_compile compiledOne rfl
    refine ih compiled (fun entry member => places entry ?_)
      (indexed.put (places _ List.mem_cons_self) rfl)
    rw [grows.size] at member
    exact List.mem_cons_of_mem _ (by simpa using member)

/-- A method that is new to the table of its class and to the code. -/
theorem MethodsIndexed.put {code code' : Code} {className : Name}
    (pointless : className.IsPointless) {table : Bindings Int} {method : String} {address : Int}
    (indexed : MethodsIndexed code className table)
    (bound : code'.functions =
      code.functions.put (qualifiedName className (.text method)) address) :
    MethodsIndexed code' className (table.put (.text method) address) := by
  intro other address' found
  rw [Bindings.get?_put] at found
  rw [bound]
  split at found
  next same =>
    cases found
    obtain rfl := text_of_key_eq same
    exact ⟨⟨method, rfl⟩, Bindings.get?_put_same ..⟩
  next differs =>
    obtain ⟨⟨s, rfl⟩, known⟩ := indexed other address' found
    refine ⟨⟨s, rfl⟩, ?_⟩
    rw [Bindings.get?_put_other (fun same => differs ?_)]
    · exact known
    · rw [(qualifiedName_inj pointless pointless same).2]

/-- The methods of another class stay as they are. -/
theorem MethodsIndexed.other {code code' : Code} {className other : Name}
    (pointless : className.IsPointless) (otherPointless : other.IsPointless)
    (differs : other ≠ className) {table : Bindings Int} {method : String} {address : Int}
    (indexed : MethodsIndexed code other table)
    (bound : code'.functions =
      code.functions.put (qualifiedName className (.text method)) address) :
    MethodsIndexed code' other table := by
  intro name address' found
  obtain ⟨⟨s, rfl⟩, known⟩ := indexed name address' found
  refine ⟨⟨s, rfl⟩, ?_⟩
  rw [bound, Bindings.get?_put_other (fun same => differs ?_)]
  · exact known
  · exact (qualifiedName_inj otherPointless pointless same).1

theorem addMethods_indexed {className : Name} (pointless : className.IsPointless)
    {fs : List Func} (named : ∀ f ∈ fs, f.name.IsText) {table : Bindings Int} {code code' : Code}
    {n n' : Nat} (compiled : addMethods scope className fs table code n = .ok (code', n'))
    (places : ∀ entry ∈ entriesFrom code.size fs, place entry.1)
    (fresh : code.classes.get? className = none) (indexed : Indexed place code)
    (found : MethodsIndexed code className table) : Indexed place code' := by
  induction fs generalizing table code n with
  | nil =>
    simp only [addMethods, compile_pure] at compiled
    obtain ⟨rfl, rfl⟩ := compiled
    refine ⟨indexed.functions, fun name methods known => ?_⟩
    rw [Bindings.get?_put] at known
    split at known
    next same =>
      cases known
      obtain rfl := eq_of_key_eq pointless same
      exact ⟨pointless, found⟩
    next => exact indexed.methods name methods known
  | cons f fs ih =>
    obtain ⟨method, isText⟩ := named f List.mem_cons_self
    have qualified : (.text s!"{className}.{f.name}" : Name) =
        qualifiedName className (.text method) := by
      simp [isText, qualifiedName, ToString.toString, Constant.plain, Scalar.plain]
    simp only [addMethods] at compiled
    rw [qualified] at compiled
    simp only [addFunctions, compile_bind, compile_pure, isText, Constant.name,
      compile_lift] at compiled
    obtain ⟨_, _, ⟨is, _, compiledOne, rfl, rfl⟩, _, _, ⟨named', rfl⟩, compiled⟩ := compiled
    cases named'
    have grows : Grows scope code [f] { code with
        instructions := code.instructions ++ is.toArray
        functions := code.functions.put (qualifiedName className (.text method)) code.size
        arities := code.arities.put (qualifiedName className (.text method)) f.params.length } :=
      grows_of_compile compiledOne rfl
    refine ih (fun f member => named f (List.mem_cons_of_mem _ member)) compiled
      (fun entry member => places entry ?_) fresh ⟨?_, ?_⟩ (found.put pointless rfl)
    · rw [grows.size] at member
      exact List.mem_cons_of_mem _ (by simpa using member)
    · exact indexed.functions.put (places _ List.mem_cons_self) rfl
    · intro other methods known
      obtain ⟨otherPointless, methodsIndexed⟩ := indexed.methods other methods known
      refine ⟨otherPointless, methodsIndexed.other pointless otherPointless ?_ rfl⟩
      rintro rfl
      rw [fresh] at known
      cases known

theorem addClasses_indexed {cs : List (Name × List Func)}
    (named : ∀ entry ∈ cs, entry.1.IsPointless ∧ ∀ f ∈ entry.2, f.name.IsText)
    (distinct : (Bindings.keys cs).Nodup) {code code' : Code} {n n' : Nat}
    (compiled : addClasses scope cs code n = .ok (code', n'))
    (places : ∀ entry ∈ entriesFrom code.size (cs.flatMap Prod.snd), place entry.1)
    (fresh : ∀ entry ∈ cs, code.classes.get? entry.1 = none) (indexed : Indexed place code) :
    Indexed place code' := by
  induction cs generalizing code n with
  | nil =>
    simp only [addClasses, compile_pure] at compiled
    obtain ⟨rfl, rfl⟩ := compiled
    exact indexed
  | cons entry cs ih =>
    obtain ⟨className, methods⟩ := entry
    obtain ⟨pointless, isText⟩ := named (className, methods) List.mem_cons_self
    simp only [addClasses, compile_bind] at compiled
    obtain ⟨code₁, _, compiledOne, compiled⟩ := compiled
    obtain ⟨grows, -, table, classes, -⟩ :=
      addMethods_spec (fun _ _ => True) pointless isText compiledOne
    rw [Bindings.keys_cons, List.nodup_cons] at distinct
    rw [List.flatMap_cons, entriesFrom_append, ← grows.size] at places
    refine ih (fun entry member => named entry (List.mem_cons_of_mem _ member)) distinct.2 compiled
      (fun entry member => places entry (List.mem_append_right _ member)) ?_ ?_
    · intro entry member
      rw [classes, Bindings.get?_put_other]
      · exact fresh entry (List.mem_cons_of_mem _ member)
      · exact fun same => distinct.1 (same ▸ List.mem_map.mpr ⟨entry, member, rfl⟩)
    · exact addMethods_indexed pointless isText compiledOne
        (fun entry member => places entry (List.mem_append_left _ member))
        (fresh _ List.mem_cons_self) indexed fun _ _ found => by cases found

end Stepwise.Code

namespace Stepwise

namespace Program

/-- The functions of a program and then the methods of its classes, in the order of their code. -/
def bodies (program : Program) : List Func :=
  program.functions.map Prod.snd ++ program.classes.flatMap fun entry => entry.2.2

/-- The methods of each class, as they are written. -/
def methodLists (program : Program) : Bindings (List Func) :=
  program.classes.map fun entry => (entry.1, entry.2.2)

/-- How the code of a program is laid out: the classes, the main body with its halt at `finish`, and
behind it all functions and methods. -/
structure LaidOut (program : Program) (scope : Scope) (keepResult : Bool) (code : Code)
    (finish : Nat) : Prop where
  registrations : code.Holds 0
    (program.classes.map fun entry => ⟨.classDef, entry.1.toValue, entry.2.1.line⟩)
  main : Code.MainAt code scope keepResult program.classes.length program.main finish
  placed : ∀ entry ∈ Code.entriesFrom (finish + 1) program.bodies,
    FuncAt code scope entry.1 entry.2
  functions : Code.FunctionsEntered
    (fun base f => (base, f) ∈ Code.entriesFrom (finish + 1) program.bodies) code program.functions
  classes : Code.ClassesEntered
    (fun base f => (base, f) ∈ Code.entriesFrom (finish + 1) program.bodies) code
    program.methodLists
  size : code.size = finish + 1 + (program.bodies.map Code.funcLength).sum
  indexed : Code.Indexed
    (fun base => ∃ f, (base, f) ∈ Code.entriesFrom (finish + 1) program.bodies) code

theorem nodup_functions (program : Program) : program.functions.keys.Nodup :=
  Bindings.nodup_keys_ofList _

theorem nodup_methodLists (program : Program) : program.methodLists.keys.Nodup := by
  have distinct : program.classes.keys.Nodup := Bindings.nodup_keys_ofList _
  rw [methodLists, Bindings.keys, List.map_map]
  exact distinct

theorem mem_functions {program : Program} {name : Name} {f : Func}
    (member : (name, f) ∈ program.functions) :
    .define f ∈ program.body ∧ ∃ known, f.name.scalar? = some known ∧ name.key = known.key := by
  obtain ⟨known, found, same⟩ := Bindings.mem_of_mem_ofList member
  simp only [List.mem_filterMap] at found
  obtain ⟨s, inside, found⟩ := found
  cases s <;> simp only [reduceCtorEq, Option.map_eq_some_iff, Prod.mk.injEq] at found
  obtain ⟨_, scalar, rfl, rfl⟩ := found
  exact ⟨inside, _, scalar, same⟩

theorem mem_classes {program : Program} {name : Name} {pos : Pos} {methods : List Func}
    (member : (name, pos, methods) ∈ program.classes) :
    ∃ className, .defineClass pos className methods ∈ program.body ∧
      ∃ known, className.scalar? = some known ∧ name.key = known.key := by
  obtain ⟨known, found, same⟩ := Bindings.mem_of_mem_ofList member
  simp only [List.mem_filterMap] at found
  obtain ⟨s, inside, found⟩ := found
  cases s <;> simp only [reduceCtorEq, Option.map_eq_some_iff, Prod.mk.injEq] at found
  obtain ⟨_, scalar, rfl, rfl, rfl⟩ := found
  exact ⟨_, inside, _, scalar, same⟩

section Parts

variable {program : Program} {onExpr : Expr → Prop} {onStmt : Stmt → Prop}

theorem Every.of_mem (every : program.Every onExpr onStmt) {s : Stmt}
    (member : s ∈ program.body) : s.Every onExpr onStmt :=
  (Stmt.everyIn_iff ..).mp every s member

/-- What holds everywhere in a program holds everywhere in its main body, -/
theorem Every.main (every : program.Every onExpr onStmt) :
    Stmt.EveryIn onExpr onStmt program.main :=
  (Stmt.everyIn_iff ..).mpr fun _ member => every.of_mem (List.mem_of_mem_filter member)

/-- and in its functions and methods. -/
theorem Every.body (every : program.Every onExpr onStmt) {f : Func} (member : f ∈ program.bodies) :
    Stmt.EveryIn onExpr onStmt f.body := by
  rw [← Func.every_iff]
  rcases List.mem_append.mp member with inFunctions | inClasses
  · obtain ⟨⟨name, _⟩, found, rfl⟩ := List.mem_map.mp inFunctions
    exact (every.of_mem (mem_functions found).1).2
  · obtain ⟨⟨name, pos, methods⟩, found, among⟩ := List.mem_flatMap.mp inClasses
    obtain ⟨className, inBody, -⟩ := mem_classes found
    exact (Func.everyIn_iff ..).mp (every.of_mem inBody).2 f among

end Parts

theorem shaped_of_mem {program : Program} (shaped : program.Shaped) {s : Stmt}
    (member : s ∈ program.body) : s.Every Expr.Shaped Stmt.Shaped :=
  Every.of_mem shaped member

theorem pointless_of_scalar {c : Constant} (isName : c.IsName) {name known : Name}
    (scalar : c.scalar? = some known) (same : name.key = known.key) : name.IsPointless := by
  obtain ⟨plain, rfl, pointless⟩ := isName.pointless
  cases scalar
  rwa [eq_of_key_eq pointless same]

theorem compile_steps {program : Program} {filename : String} {keepResult : Bool} {code : Code}
    (compiled : program.compile filename keepResult = .ok code) :
    ∃ main n₁, Code.compileMain (program.scope filename) keepResult program.classes.length
        program.main 0 = .ok (main, n₁) ∧
      ∃ code₁ n₂, Code.addFunctions (program.scope filename) program.functions
        { instructions := (program.classes.map (fun entry =>
          (⟨.classDef, entry.1.toValue, entry.2.1.line⟩ : Instruction)) ++ main).toArray } n₁ =
          .ok (code₁, n₂) ∧
      ∃ n₃, Code.addClasses (program.scope filename) program.methodLists code₁ n₂ =
        .ok (code, n₃) := by
  simp only [compile, Except.map] at compiled
  split at compiled
  next => cases compiled
  next result run =>
  obtain ⟨final, n₃⟩ := result
  cases compiled
  simp only [StateT.run, Code.compile_bind, Code.compile_lift, List.length_map] at run
  obtain ⟨_, _, ⟨-, rfl⟩, main, n₁, compiledMain, code₁, n₂, compiledFunctions, code₂, n₃',
    compiledClasses, run⟩ := run
  split at run
  next =>
    simp only [Code.compile_pure] at run
    obtain ⟨rfl, rfl⟩ := run
    exact ⟨main, n₁, compiledMain, code₁, n₂, compiledFunctions, n₃', compiledClasses⟩
  next => exact absurd run Code.compile_throw

/-- Compiling a program that was read from text lays out its code. -/
theorem laidOut_of_compile {program : Program} (shaped : program.Shaped) {filename : String}
    {keepResult : Bool} {code : Code} (compiled : program.compile filename keepResult = .ok code) :
    ∃ finish, LaidOut program (program.scope filename) keepResult code finish := by
  obtain ⟨main, n₁, compiledMain, code₁, n₂, compiledFunctions, n₃, compiledClasses⟩ :=
    compile_steps compiled
  obtain ⟨finish, length, mainAt⟩ := Code.mainAt_of_compile code compiledMain
  let place := fun base f => (base, f) ∈ Code.entriesFrom (finish + 1) program.bodies
  obtain ⟨grows, noClasses, functions⟩ := Code.addFunctions_spec place compiledFunctions
  have named : ∀ entry ∈ program.methodLists,
      entry.1.IsPointless ∧ ∀ f ∈ entry.2, f.name.IsText := by
    rintro ⟨name, methods⟩ member
    obtain ⟨⟨_, pos, _⟩, inside, same⟩ := List.mem_map.mp member
    cases same
    obtain ⟨className, inBody, known, scalar, same⟩ := mem_classes inside
    have shape := (shaped_of_mem shaped inBody).1
    exact ⟨pointless_of_scalar shape.1 scalar same, fun f among => (shape.2 f among).1.isText⟩
  obtain ⟨growsMore, sameFunctions, classes⟩ := Code.addClasses_spec place named compiledClasses
  have size : Code.size { instructions := (program.classes.map (fun entry =>
      (⟨.classDef, entry.1.toValue, entry.2.1.line⟩ : Instruction)) ++ main).toArray } =
      finish + 1 := by
    simp [Code.size, length]
  have bodies : program.functions.map Prod.snd ++ program.methodLists.flatMap Prod.snd =
      program.bodies := by
    simp [Program.bodies, methodLists, List.flatMap_map]
  have all := grows.trans growsMore
  rw [bodies] at all
  rw [size] at functions
  rw [grows.size, size] at classes
  have directory := Code.entriesFrom_append (finish + 1) (program.functions.map Prod.snd)
    (program.methodLists.flatMap Prod.snd)
  rw [bodies] at directory
  have inFunctions : ∀ entry ∈ Code.entriesFrom (finish + 1) (program.functions.map Prod.snd),
      entry ∈ Code.entriesFrom (finish + 1) program.bodies := fun entry member =>
    directory ▸ List.mem_append_left _ member
  have inMethods : ∀ entry ∈ Code.entriesFrom
      (finish + 1 + ((program.functions.map Prod.snd).map Code.funcLength).sum)
      (program.methodLists.flatMap Prod.snd),
      entry ∈ Code.entriesFrom (finish + 1) program.bodies := fun entry member =>
    directory ▸ List.mem_append_right _ member
  have held : code.Holds 0 (_ ++ main) := @Code.holds_behind code [] _ all.starts
  rw [Code.holds_append, List.length_map, Nat.zero_add] at held
  refine ⟨finish, held.1, mainAt held.2, ?_, ?_, ?_, ?_, ?_⟩
  · have placed := all.placed (List.prefix_refl _)
    rwa [size] at placed
  · intro name plain
    have entered := functions inFunctions [] (fun _ _ => trivial) name plain
    rw [Bindings.get?_update_nil (nodup_functions program)] at entered
    rw [(sameFunctions name plain).1]
    exact entered.mono (sameFunctions name plain).2
  · intro className
    have entered := classes inMethods [] (fun _ => by rw [noClasses]; trivial) className
    rwa [Bindings.get?_update_nil (nodup_methodLists program)] at entered
  · rw [all.size, size]
  · have functionsIndexed : Code.FunctionsIndexed
        (fun base => ∃ f, (base, f) ∈ Code.entriesFrom (finish + 1) program.bodies) code₁ := by
      refine Code.addFunctions_indexed compiledFunctions (fun entry member => ?_)
        fun _ _ found => by cases found
      rw [size] at member
      exact ⟨entry.2, inFunctions entry member⟩
    refine Code.addClasses_indexed named (nodup_methodLists program) compiledClasses
      (fun entry member => ?_) (fun _ _ => by rw [noClasses]; rfl) ⟨functionsIndexed, ?_⟩
    · rw [grows.size, size] at member
      exact ⟨entry.2, inMethods entry member⟩
    · rw [noClasses]
      exact fun _ _ found => by cases found

end Program

end Stepwise
