import Stepwise.Library
import Stepwise.Proofs.Code.Traces
import Stepwise.Proofs.Code.Unplaced
import Stepwise.Proofs.Nodes
import Stepwise.Proofs.Reading.Tokens

/-!
Programs with a library in front. Without its positions the library compiles to the same code, which
belongs to no line, and the code of the learner keeps its lines: `library_code_unseen`.
-/
namespace Stepwise

/-- Who wrote a statement. -/
inductive Origin where
  | library
  | learner
  deriving DecidableEq

namespace Origin

/-- What is seen of instructions of some origin: those of a library belong to no line. -/
def seen : Option Origin → Instruction → Instruction
  | some .library => Instruction.unlined
  | _ => id

def shownStmt : Origin → Stmt → Stmt
  | .library => Stmt.unplaced
  | .learner => id

def shownFunc : Origin → Func → Func
  | .library => Stmt.unplacedFunc
  | .learner => id

def shownPos : Origin → Pos → Pos
  | .library => fun _ => {}
  | .learner => id

/-- A part of a program as it is compiled: what comes from a library has no positions. -/
def shownPart : Option Origin → Program.Part → Program.Part
  | some origin, .registration name pos => .registration name (origin.shownPos pos)
  | some origin, .statement s => .statement (origin.shownStmt s)
  | some origin, .body f => .body (origin.shownFunc f)
  | _, part => part

theorem shownFunc_params (origin : Origin) (f : Func) : (origin.shownFunc f).params = f.params := by
  obtain ⟨pos, name, params, body⟩ := f
  cases origin <;> rfl

theorem shownFunc_name (origin : Origin) (f : Func) : (origin.shownFunc f).name = f.name := by
  obtain ⟨pos, name, params, body⟩ := f
  cases origin <;> rfl

theorem shownStmt_define (origin : Origin) (f : Func) :
    origin.shownStmt (.define f) = .define (origin.shownFunc f) := by
  cases origin <;> rfl

theorem shownStmt_defineClass (origin : Origin) (pos : Pos) (name : Constant) (methods : List Func) :
    origin.shownStmt (.defineClass pos name methods) =
      .defineClass (origin.shownPos pos) name (methods.map origin.shownFunc) := by
  cases origin with
  | library => simp only [shownStmt, Stmt.unplaced, Stmt.unplacedFuncs_eq_map]; rfl
  | learner => simp [shownStmt, shownPos, shownFunc]

end Origin

namespace Code

variable {scope : Scope}

theorem CompileAlike.imp {α β : Type} {R S : α → β → Prop} {x : Compile α} {y : Compile β}
    (alike : CompileAlike R x y) (weaker : ∀ a b, R a b → S a b) : CompileAlike S x y := by
  intro n
  have ends := alike n
  generalize x n = p at ends ⊢
  generalize y n = q at ends ⊢
  cases ends with
  | ok related => exact .ok ⟨weaker _ _ related.1, related.2⟩
  | error same => exact .error same

theorem CompileAlike.run {α β : Type} {R : α → β → Prop} {x : Compile α} {y : Compile β}
    (alike : CompileAlike R x y) :
    EndAlike R ((StateT.run x 0).map Prod.fst) ((StateT.run y 0).map Prod.fst) := by
  have ends := alike 0
  rw [StateT.run, StateT.run]
  generalize x 0 = p at ends ⊢
  generalize y 0 = q at ends ⊢
  cases ends with
  | ok related => exact .ok related.1
  | error same => exact .error same

/-- A part gives the same instructions whoever wrote it; those of a library belong to no line. -/
theorem compilePart_shown (origin : Option Origin) (part : Program.Part) (base : Nat) :
    CompileAlike (fun is js => js = is.map (Origin.seen origin)) (compilePart scope base part)
      (compilePart scope base (Origin.shownPart origin part)) := by
  have learner (x : Compile (List Instruction)) :
      CompileAlike (fun is js => js = is.map id) x x :=
    (compileAlike_self x).imp fun is js same => by rw [List.map_id, same]
  rcases origin with _ | _ | _
  · cases part <;> exact learner _
  · cases part with
    | registration name pos => exact .pure rfl
    | statement s => exact compileStmt_unplaced s none base
    | halt => exact .pure rfl
    | body f => exact compileFunction_unplaced f base
  · cases part <;> exact learner _

/-- The traces differ in the lines of what comes from a library. -/
theorem trace_shown (parts : List (Option Origin × Program.Part)) (base : Nat) :
    CompileAlike (fun tr tr' => tr' = tr.map fun entry => (entry.1, Origin.seen entry.1 entry.2))
      (trace scope base parts)
      (trace scope base (parts.map fun entry => (entry.1, Origin.shownPart entry.1 entry.2))) := by
  induction parts generalizing base with
  | nil => exact .pure rfl
  | cons entry parts ih =>
    obtain ⟨origin, part⟩ := entry
    simp only [List.map_cons, trace]
    refine (compilePart_shown origin part base).bind fun is _ same => ?_
    subst same
    rw [List.length_map]
    refine (ih _).bind fun rest _ same => .pure ?_
    subst same
    simp [Function.comp_def]

/-- Code of the same length with the same functions and classes. -/
structure SameTables (code code' : Code) : Prop where
  size : code'.size = code.size
  functions : code'.functions = code.functions
  arities : code'.arities = code.arities
  classes : code'.classes = code.classes

/-- A part of the same length, whoever wrote it. -/
theorem compilePart_length (origin : Option Origin) (part : Program.Part) (base : Nat) :
    CompileAlike (fun is js => js.length = is.length) (compilePart scope base part)
      (compilePart scope base (Origin.shownPart origin part)) :=
  (compilePart_shown origin part base).imp fun is js same => by rw [same, List.length_map]

theorem compileStmts_shown (ss : List (Origin × Stmt)) (base : Nat) :
    CompileAlike (fun is js => js.length = is.length)
      (compileStmts scope none base (ss.map Prod.snd))
      (compileStmts scope none base (ss.map fun entry => entry.1.shownStmt entry.2)) := by
  induction ss generalizing base with
  | nil => exact .pure rfl
  | cons entry ss ih =>
    simp only [List.map_cons, compileStmts]
    refine (compilePart_length (some entry.1) (.statement entry.2) base).bind fun is js same => ?_
    rw [same]
    refine (ih _).bind fun ks ls same' => .pure ?_
    rw [List.length_append, List.length_append, same, same']

theorem compileMain_shown (ss : List (Origin × Stmt)) (base : Nat) :
    CompileAlike (fun is js => js.length = is.length)
      (compileMain scope false base (ss.map Prod.snd))
      (compileMain scope false base (ss.map fun entry => entry.1.shownStmt entry.2)) := by
  simp only [compileMain]
  exact (compileStmts_shown ss base).bind fun is js same => .pure (by simp [same])

theorem addFunctions_shown (fs : List (Name × Origin × Func)) {code code' : Code}
    (same : SameTables code code') :
    CompileAlike SameTables (addFunctions scope (fs.map fun entry => (entry.1, entry.2.2)) code)
      (addFunctions scope (fs.map fun entry => (entry.1, entry.2.1.shownFunc entry.2.2)) code') := by
  induction fs generalizing code code' with
  | nil => exact .pure same
  | cons entry fs ih =>
    obtain ⟨name, origin, f⟩ := entry
    simp only [List.map_cons, addFunctions, same.size]
    refine (compilePart_length (some origin) (.body f) code.size).bind fun is js length => ih ?_
    have grown : code'.size + js.length = code.size + is.length := by rw [same.size, length]
    exact {
      size := by simpa [size] using grown
      functions := by rw [same.functions]
      arities := by rw [same.arities, Origin.shownFunc_params]
      classes := same.classes }

theorem addMethods_shown (className : Name) (origin : Origin) (fs : List Func) (found : Bindings Int)
    {code code' : Code} (same : SameTables code code') :
    CompileAlike SameTables (addMethods scope className fs found code)
      (addMethods scope className (fs.map origin.shownFunc) found code') := by
  induction fs generalizing found code code' with
  | nil => exact .pure { same with classes := by rw [same.classes] }
  | cons f fs ih =>
    simp only [List.map_cons, addMethods, Origin.shownFunc_name]
    refine (addFunctions_shown [(_, origin, f)] same).bind fun code₁ code₁' same₁ => ?_
    refine (compileAlike_self _).bind fun name _ named => ?_
    subst named
    rw [same.size]
    exact ih _ same₁

theorem addClasses_shown (classes : List (Name × Origin × List Func)) {code code' : Code}
    (same : SameTables code code') :
    CompileAlike SameTables (addClasses scope (classes.map fun entry => (entry.1, entry.2.2)) code)
      (addClasses scope
        (classes.map fun entry => (entry.1, entry.2.2.map entry.2.1.shownFunc)) code') := by
  induction classes generalizing code code' with
  | nil => exact .pure same
  | cons entry classes ih =>
    simp only [List.map_cons, addClasses]
    exact (addMethods_shown entry.1 entry.2.1 entry.2.2 [] same).bind fun _ _ same₁ => ih same₁

end Code

namespace Program

/-- A body as it is compiled: what comes from a library has no positions. -/
def shown (body : List (Origin × Stmt)) : List (Origin × Stmt) :=
  body.map fun entry => (entry.1, entry.1.shownStmt entry.2)

variable {body : List (Origin × Stmt)}

theorem markedFunctions_shown (body : List (Origin × Stmt)) : markedFunctions (shown body) =
    (markedFunctions body).map fun entry =>
      (entry.1, entry.2.1, entry.2.1.shownFunc entry.2.2) := by
  rw [markedFunctions, markedFunctions,
    ← Bindings.ofList_map fun entry : Origin × Func => (entry.1, entry.1.shownFunc entry.2), shown,
    List.filterMap_map, List.map_filterMap]
  congr 2
  funext entry
  obtain ⟨origin, s⟩ := entry
  cases s with
  | define f => simp [Origin.shownStmt_define, Origin.shownFunc_name, Function.comp_def]
  | defineClass => simp [Origin.shownStmt_defineClass]
  | _ => cases origin <;> rfl

theorem markedClasses_shown (body : List (Origin × Stmt)) : markedClasses (shown body) =
    (markedClasses body).map fun entry => (entry.1, entry.2.1,
      entry.2.1.shownPos entry.2.2.1, entry.2.2.2.map entry.2.1.shownFunc) := by
  rw [markedClasses, markedClasses,
    ← Bindings.ofList_map fun entry : Origin × Pos × List Func =>
      (entry.1, entry.1.shownPos entry.2.1, entry.2.2.map entry.1.shownFunc), shown,
    List.filterMap_map, List.map_filterMap]
  congr 2
  funext entry
  obtain ⟨origin, s⟩ := entry
  cases s with
  | define f => simp [Origin.shownStmt_define]
  | defineClass => simp [Origin.shownStmt_defineClass, Function.comp_def]
  | _ => cases origin <;> rfl

theorem markedMain_shown (body : List (Origin × Stmt)) :
    markedMain (shown body) = (markedMain body).map fun entry =>
      (entry.1, entry.1.shownStmt entry.2) := by
  rw [markedMain, markedMain, shown, List.filter_map]
  congr 2
  funext entry
  obtain ⟨origin, s⟩ := entry
  cases origin <;> cases s <;> rfl

theorem parts_shown (body : List (Origin × Stmt)) : parts (shown body) =
    (parts body).map fun entry => (entry.1, Origin.shownPart entry.1 entry.2) := by
  simp only [parts, markedFunctions_shown, markedClasses_shown, markedMain_shown, List.map_append,
    List.map_map, List.map_flatMap, List.flatMap_map, Function.comp_def, Origin.shownPart,
    List.map_cons, List.map_nil]

variable {program program' : Program}

theorem functions_shown (whole : program.body = (shown body).map Prod.snd) : program.functions =
    (markedFunctions body).map fun entry => (entry.1, entry.2.1.shownFunc entry.2.2) := by
  rw [functions_of_marked whole, markedFunctions_shown, List.map_map]
  rfl

theorem classes_shown (whole : program.body = (shown body).map Prod.snd) : program.classes =
    (markedClasses body).map fun entry =>
      (entry.1, entry.2.1.shownPos entry.2.2.1, entry.2.2.2.map entry.2.1.shownFunc) := by
  rw [classes_of_marked whole, markedClasses_shown, List.map_map]
  rfl

theorem main_shown (whole : program.body = (shown body).map Prod.snd) : program.main =
    (markedMain body).map fun entry => entry.1.shownStmt entry.2 := by
  rw [main_of_marked whole, markedMain_shown, List.map_map]
  rfl

/-- The names that decide what a call means are the same. -/
theorem scope_shown (plain : program.body = body.map Prod.snd)
    (whole : program'.body = (shown body).map Prod.snd) (filename : String) :
    program'.scope filename = program.scope filename := by
  simp only [scope, functions_of_marked plain, classes_of_marked plain, functions_shown whole,
    classes_shown whole, Bindings.keys, List.map_map, Function.comp_def]

theorem checkDefinitions_shown (plain : program.body = body.map Prod.snd)
    (whole : program'.body = (shown body).map Prod.snd) :
    program'.checkDefinitions = program.checkDefinitions := by
  rw [checkDefinitions, checkDefinitions, plain, whole, shown, List.map_map]
  clear plain whole
  induction body with
  | nil => rfl
  | cons entry body ih =>
    obtain ⟨origin, s⟩ := entry
    simp only [List.forM_eq_forM, List.map_cons, List.forM_cons, Function.comp_apply] at ih ⊢
    rw [ih]
    congr 1
    cases s with
    | define f => simp only [Origin.shownStmt_define, Origin.shownFunc_name]
    | defineClass => simp only [Origin.shownStmt_defineClass]
    | _ => cases origin <;> rfl

/-- Both programs are refused, or both are compiled and have the same functions and classes. -/
theorem compile_shown (plain : program.body = body.map Prod.snd)
    (whole : program'.body = (shown body).map Prod.snd) (filename : String) :
    Code.EndAlike Code.SameTables (program.compile filename) (program'.compile filename) := by
  simp only [compile, scope_shown plain whole, checkDefinitions_shown plain whole,
    functions_of_marked plain, classes_of_marked plain, main_of_marked plain, functions_shown whole,
    classes_shown whole, main_shown whole, Bindings.names, List.map_map, List.length_map,
    Function.comp_def]
  refine Code.CompileAlike.run ?_
  refine (Code.compileAlike_self _).bind fun _ _ _ => ?_
  refine (Code.compileMain_shown _ _).bind fun is js same => ?_
  refine (Code.addFunctions_shown (markedFunctions body) ?_).bind fun code code' same => ?_
  · exact ⟨by simp [Code.size, same], rfl, rfl, rfl⟩
  let methods := (markedClasses body).map fun entry => (entry.1, entry.2.1, entry.2.2.2)
  have added := @Code.addClasses_shown (program.scope filename) methods _ _ same
  simp only [methods, List.map_map, Function.comp_def] at added
  refine added.bind fun code code' same => ?_
  split
  · exact .pure same
  · exact Code.compileAlike_throw _

/-- The statements of a program behind those of a library, with who wrote them. -/
def behind (front program : Program) : List (Origin × Stmt) :=
  front.body.map (fun s => (.library, s)) ++ program.body.map fun s => (.learner, s)

theorem behind_plain (front program : Program) :
    (behind front program).map Prod.snd = front.body ++ program.body := by
  simp [behind, Function.comp_def]

theorem shown_behind (front program : Program) :
    shown (behind front program) = behind front.unplaced program := by
  simp only [shown, behind, unplaced, Stmt.unplacedAll_eq_map, List.map_append, List.map_map]
  rfl

end Program

namespace Code

theorem lineAt_eq (code : Code) (a : Nat) :
    code.lineAt a = (code.instructions[a]?).bind Instruction.line := by
  rw [lineAt, if_neg (Int.not_lt.mpr (Int.natCast_nonneg a)), Int.toNat_natCast]

/-- The source map knows the addresses that belong to a line. -/
theorem mem_sourceMap {code : Code} {a : Nat} {line : Int} :
    (a, line) ∈ code.sourceMap ↔ code.lineAt a = some line := by
  rw [lineAt_eq, sourceMap, ← Array.getElem?_toList]
  simp only [List.mem_filterMap, Prod.exists, List.mem_zipIdx_iff_getElem?, Option.map_eq_some_iff,
    Prod.mk.injEq, Option.bind_eq_some_iff]
  constructor
  · rintro ⟨i, _, here, _, on, rfl, rfl⟩
    exact ⟨i, here, on⟩
  · rintro ⟨i, here, on⟩
    exact ⟨i, a, here, line, on, rfl, rfl⟩

theorem lineAt_of_trace {μ : Type} {code : Code} {tr : List (μ × Instruction)} {a : Nat} {mark : μ}
    {i : Instruction} (same : tr.map Prod.snd = code.instructions.toList)
    (here : tr[a]? = some (mark, i)) : code.lineAt a = i.line := by
  rw [lineAt_eq, ← Array.getElem?_toList, ← same, List.getElem?_map, here]
  rfl

end Code

namespace Program

/-- What is seen of traced instructions: those of a library belong to no line. -/
def seenTrace (tr : List (Option Origin × Instruction)) : List (Option Origin × Instruction) :=
  tr.map fun entry => (entry.1, Origin.seen entry.1 entry.2)

variable {body : List (Origin × Stmt)} {program program' : Program}

/-- The traces of the code of both programs differ in the lines of what comes from a library. -/
theorem traces_shown (plain : program.body = body.map Prod.snd)
    (whole : program'.body = (shown body).map Prod.snd) {filename : String} {code code' : Code}
    (compiled : program.compile filename = .ok code)
    (compiled' : program'.compile filename = .ok code') :
    ∃ tr n, Code.trace (program.scope filename) 0 (parts body) 0 = .ok (tr, n) ∧
      tr.map Prod.snd = code.instructions.toList ∧
      Code.trace (program'.scope filename) 0 (parts (shown body)) 0 = .ok (seenTrace tr, n) ∧
      (seenTrace tr).map Prod.snd = code'.instructions.toList := by
  obtain ⟨n, tr, run, same⟩ := traced_of_compile plain compiled
  obtain ⟨n', tr', run', same'⟩ := traced_of_compile whole compiled'
  have ends := @Code.trace_shown (program.scope filename) (parts body) 0 0
  rw [scope_shown plain whole, parts_shown] at run'
  rw [run, run'] at ends
  cases ends with
  | ok related =>
    obtain ⟨seen, rfl⟩ := related
    subst seen
    rw [scope_shown plain whole, parts_shown]
    exact ⟨tr, n, run, same, run', same'⟩

section

variable {tr : List (Option Origin × Instruction)}

theorem origins_seenTrace : (seenTrace tr).map Prod.fst = tr.map Prod.fst := by
  simp [seenTrace, Function.comp_def]

theorem operations_seenTrace :
    (seenTrace tr).map (fun entry => (entry.2.op, entry.2.operand)) =
      tr.map fun entry => (entry.2.op, entry.2.operand) := by
  rw [seenTrace, List.map_map]
  refine List.map_congr_left fun ⟨origin, i⟩ _ => ?_
  rcases origin with _ | _ | _ <;> rfl

/-- An instruction of a library is seen without its line, and one of a learner with it. -/
theorem getElem?_seenTrace {a : Nat} {origin : Option Origin} {i : Instruction}
    (here : (seenTrace tr)[a]? = some (origin, i)) : ∃ i', tr[a]? = some (origin, i') ∧
      (origin = some .library → i.line = none) ∧ (origin = some .learner → i.line = i'.line) := by
  rw [seenTrace, List.getElem?_map, Option.map_eq_some_iff] at here
  obtain ⟨⟨known, i'⟩, there, same⟩ := here
  obtain ⟨rfl, rfl⟩ := Prod.mk.inj same
  refine ⟨i', there, ?_⟩
  rcases known with _ | _ | _ <;> simp [Origin.seen, Instruction.unlined]

end

/-- Code of a library is unseen by everything that goes by lines: without the positions of the library
the program is refused as often, and compiles to the same code. What is generated from the library
belongs to no line, and what is generated from the learner's program belongs to the same lines. -/
theorem library_code_unseen {source : String} {library : Library} {program front : Program}
    (read : Program.parse source unnamedSource = .ok program)
    (readFront : Program.parse library.source Library.sourceName = .ok front) :
    ∃ p, Program.parseWith source (some library) = .ok p ∧
      ∀ q : Program, q.body = front.body ++ program.body → ∀ filename,
        ((∃ e, p.compile filename = .error e) ↔ ∃ e, q.compile filename = .error e) ∧
        ∀ code code', p.compile filename = .ok code → q.compile filename = .ok code' →
          code.instructions.map (fun i => (i.op, i.operand)) =
            code'.instructions.map (fun i => (i.op, i.operand)) ∧
          code.functions = code'.functions ∧ code.arities = code'.arities ∧
          code.classes = code'.classes ∧
          ∃ tr n tr' n',
            Code.trace (p.scope filename) 0 (parts (behind front.unplaced program)) 0 = .ok (tr, n) ∧
            tr.map Prod.snd = code.instructions.toList ∧
            Code.trace (q.scope filename) 0 (parts (behind front program)) 0 = .ok (tr', n') ∧
            tr'.map Prod.snd = code'.instructions.toList ∧ tr.map Prod.fst = tr'.map Prod.fst ∧
            ∀ (a : Nat) origin i, tr[a]? = some (origin, i) →
              (origin = some .library → code.lineAt a = none ∧ ∀ line, (a, line) ∉ code.sourceMap) ∧
              (origin = some .learner → code.lineAt a = code'.lineAt a) := by
  let p : Program := { body := front.unplaced.body ++ program.body }
  have loaded : Program.parseWith source (some library) = .ok p := by
    rw [parseWith, read]
    simp only [readFront, front.stripped_eq, bind, Except.bind, pure, Except.pure, p]
  refine ⟨p, loaded, fun q plain filename => ?_⟩
  rw [← behind_plain] at plain
  have whole : p.body = (shown (behind front program)).map Prod.snd := by
    rw [shown_behind, behind_plain]
  have ends := compile_shown plain whole filename
  refine ⟨?_, fun code code' compiled compiled' => ?_⟩
  · generalize p.compile filename = x at ends ⊢
    generalize q.compile filename = y at ends ⊢
    cases ends <;> simp
  · rw [compiled, compiled'] at ends
    obtain ⟨tr, n, run', same', run, same⟩ := traces_shown plain whole compiled' compiled
    rw [shown_behind] at run
    cases ends with
    | ok tables =>
      refine ⟨?_, tables.functions, tables.arities, tables.classes, seenTrace tr, n, tr, n, run, same,
        run', same', origins_seenTrace, fun a origin i here => ?_⟩
      · have operations := @operations_seenTrace tr
        rw [← Array.toList_inj, Array.toList_map, Array.toList_map, ← same, ← same', List.map_map,
          List.map_map]
        exact operations
      · obtain ⟨i', there, libraryLine, learnerLine⟩ := getElem?_seenTrace here
        have line := Code.lineAt_of_trace same here
        refine ⟨fun byLibrary => ?_, fun byLearner => ?_⟩
        · rw [libraryLine byLibrary] at line
          refine ⟨line, fun _ member => ?_⟩
          rw [Code.mem_sourceMap, line] at member
          cases member
        · rw [line, learnerLine byLearner, Code.lineAt_of_trace same' there]

/-- A learner calls a function of a library: the code in the library belongs to no line. -/
theorem library_code_unseen_call :
    let library : Library := { name := "sums", preamble := "def double(x):\n  return x * 2\n" }
    ∃ program front p code, Program.parse "y = double(3)\n" unnamedSource = .ok program ∧
      Program.parse library.source Library.sourceName = .ok front ∧
      Program.parseWith "y = double(3)\n" (some library) = .ok p ∧
      p.compile "<stdin>" = .ok code ∧
      ∃ tr n, Code.trace (p.scope "<stdin>") 0 (parts (behind front.unplaced program)) 0 = .ok (tr, n) ∧
        ∀ (a : Nat) i, tr[a]? = some (some .library, i) → code.lineAt a = none := by
  intro library
  have compiles : (do
      let program ← Program.parse "y = double(3)\n" unnamedSource
      let front ← Program.parse library.source Library.sourceName
      let p ← Program.parseWith "y = double(3)\n" (some library)
      let code ← p.compile "<stdin>"
      let code' ← Program.compile { body := front.body ++ program.body } "<stdin>"
      return (program, front, p, code, code') : Except Failure _).toOption.any (fun _ => true) = true := by
    decide +kernel
  obtain ⟨_, given, -⟩ := exists_ok compiles
  simp only [bind_eq_ok] at given
  obtain ⟨program, read, front, readFront, p, loaded, code, compiled, code', compiled', -⟩ := given
  obtain ⟨p', loaded', unseen⟩ := library_code_unseen read readFront
  cases loaded.symm.trans loaded'
  obtain ⟨-, -, -, -, tr, n, -, -, run, -, -, -, -, lines⟩ :=
    (unseen { body := front.body ++ program.body } rfl "<stdin>").2 code code' compiled compiled'
  exact ⟨program, front, p, code, read, readFront, loaded, compiled, tr, n, run,
    fun a i here => ((lines a _ i here).1 rfl).1⟩

end Program

end Stepwise
