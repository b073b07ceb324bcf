import Stepwise.Proofs.Agreement.Runs
import Stepwise.Proofs.Reading.Sources
import Stepwise.Proofs.Reading.Trees

/-!
The engines with a whole program. What the machine knows of a compiled program is what the walker
knows of the tree, so that the machine follows the walker from the first statement on.
-/
namespace Stepwise

namespace Program

/-- The classes of a program as the walker knows them. -/
def methodTables (program : Program) : Bindings (Bindings Func) :=
  program.classes.map fun entry => (entry.1, Walker.methodTable entry.2.2)

/-- The classes of a program as the machine registers them. -/
def addressTables (program : Program) (code : Code) : Bindings (Bindings Int) :=
  program.classes.map fun entry => (entry.1, (code.classes.get? entry.1).getD [])

/-- What does not change while a compiled program runs. -/
def setting (program : Program) (filename : String) (code : Code) (depth : Int) : Setting where
  code
  scope := program.scope filename
  table := Bindings.ofList (program.addressTables code)
  functions := program.functions
  classes := program.methodTables
  depth

section Definitions

variable {program : Program} {filename : String} {keepResult : Bool} {code : Code} {finish : Nat}
  {depth : Int}

theorem Common.of_mem (common : program.Common) {s : Stmt} (member : s ∈ program.body) :
    s.Every Expr.Common Stmt.Common :=
  (Stmt.everyIn_iff ..).mp common s member

theorem nodup_classes (program : Program) : program.classes.keys.Nodup :=
  Bindings.nodup_keys_ofList _

theorem name_of_key {c : Constant} (isName : c.IsName) {name : Name} {s : String}
    (scalar : c.scalar? = some name) (same : (Scalar.text s).key = name.key) :
    c = .scalar (.text s) := by
  obtain ⟨t, rfl, -⟩ := isName
  cases scalar
  rw [text_of_key_eq same.symm]

/-- A function of a program as its definition has it. -/
theorem define_of_get? (common : program.Common) {s : String} {f : Func}
    (found : program.functions.get? (.text s) = some f) :
    f.name = .scalar (.text s) ∧ f.Common := by
  obtain ⟨known, member, same⟩ := Bindings.mem_of_get? found
  obtain ⟨inBody, name, scalar, key⟩ := mem_functions member
  obtain ⟨⟨shaped, portable⟩, inner⟩ := common.of_mem inBody
  refine ⟨name_of_key shaped.1 scalar (same.symm.trans key), shaped, portable, ?_⟩
  exact (Func.every_iff ..).mp inner

/-- A method of a class of a program as its definition has it. -/
theorem method_of_get? (common : program.Common) {className : Name} {pos : Pos}
    {methods : List Func}
    (found : program.classes.get? className = some (pos, methods)) {method : String} {f : Func}
    (known : (Walker.methodTable methods).get? (.text method) = some f) :
    f.name = .scalar (.text method) ∧ f.Common := by
  obtain ⟨_, member, -⟩ := Bindings.mem_of_get? found
  obtain ⟨_, inBody, -⟩ := mem_classes member
  obtain ⟨⟨shaped, portable⟩, inner⟩ := common.of_mem inBody
  obtain ⟨_, listed, same⟩ := Bindings.mem_of_get? known
  obtain ⟨name, among, key⟩ := Bindings.mem_of_mem_ofList listed
  obtain ⟨g, mem, scalar⟩ := List.mem_filterMap.mp among
  obtain ⟨_, scalar, pair⟩ := Option.map_eq_some_iff.mp scalar
  cases pair
  have shape := shaped.2 f mem
  refine ⟨name_of_key shape.1 scalar (same.symm.trans key), shape, portable f mem, ?_⟩
  exact (Func.every_iff ..).mp ((Func.everyIn_iff ..).mp inner f mem)

theorem get?_methodTables (className : Name) : program.methodTables.get? className =
    (program.classes.get? className).map fun entry => Walker.methodTable entry.2 :=
  Bindings.get?_map (fun entry : Pos × List Func => Walker.methodTable entry.2) program.classes
    className

theorem get?_methodLists (className : Name) : program.methodLists.get? className =
    (program.classes.get? className).map Prod.snd :=
  Bindings.get?_map (Prod.snd : Pos × List Func → List Func) program.classes className

theorem nodup_addressTables (program : Program) (code : Code) :
    (program.addressTables code).keys.Nodup := by
  have distinct := program.nodup_classes
  rw [addressTables, Bindings.keys, List.map_map]
  exact distinct

theorem get?_addressTables (className : Name) :
    (Bindings.ofList (program.addressTables code)).get? className =
      (program.classes.get? className).map fun _ => (code.classes.get? className).getD [] := by
  rw [Bindings.get?_ofList, Bindings.get?_reverse (program.nodup_addressTables code)]
  cases found : program.classes.get? className with
  | none =>
    rw [Bindings.get?_eq_none_iff] at found
    rw [Option.map_none, Bindings.get?_eq_none_iff, addressTables, Bindings.keys, List.map_map]
    exact found
  | some entry =>
    obtain ⟨known, member, same⟩ := Bindings.mem_of_get? found
    rw [Option.map_some, ← Bindings.get?_congr same, ← Bindings.get?_congr same]
    refine Bindings.get?_of_mem (program.nodup_addressTables code) ?_
    exact List.mem_map.mpr ⟨_, member, rfl⟩

theorem callOpcode_eq (program : Program) (filename : String) (name : Name) :
    (program.scope filename).callOpcode name = if program.methodTables.has name then .new
      else if (program.functions.get? name).isSome then .callUser else .call := by
  have classes : (program.scope filename).classes.contains name.key =
      program.methodTables.has name := by
    rw [Bool.eq_iff_iff, Bindings.has_iff_mem_keys, List.contains_iff_mem]
    rw [methodTables, Bindings.keys, List.map_map]
    rfl
  have functions : (program.scope filename).functions.contains name.key =
      (program.functions.get? name).isSome := by
    rw [Bool.eq_iff_iff, List.contains_iff_mem]
    exact Bindings.has_iff_mem_keys.symm
  rw [Scope.callOpcode, classes, functions]

theorem unqualified_method {className : String} (pointless : '.' ∉ className.toList)
    (method : String) : Machine.unqualified s!"{className}.{method}" = method := by
  have chars : (s!"{className}.{method}").toList = className.toList ++ '.' :: method.toList := by
    simp [ToString.toString]
  have dropped : (s!"{className}.{method}").toList.dropWhile (· ≠ '.') = '.' :: method.toList := by
    rw [chars, List.dropWhile_append_of_pos]
    · simp
    · intro c member
      exact decide_eq_true fun same => pointless (same ▸ member)
  unfold Machine.unqualified
  rw [dropped]
  exact String.ofList_toList

/-- The machine knows of a compiled program what the walker knows of the tree. -/
theorem sound_setting (common : program.Common)
    (laid : program.LaidOut (program.scope filename) keepResult code finish) :
    (program.setting filename code depth).Sound where
  callOpcode s _ := program.callOpcode_eq filename s
  functions s f pointless found := by
    have entered := laid.functions (.text s) ⟨s, rfl, pointless⟩
    obtain ⟨named, common⟩ := define_of_get? common found
    have found : program.functions.get? (.text s) = some f := found
    rw [found] at entered
    unfold Code.Entered at entered
    split at entered
    next same => cases same
    next address g known same =>
      cases same
      obtain ⟨arity, base, rfl, member⟩ := entered
      refine ⟨_, known, arity, ?_, common, base, rfl, laid.placed _ member⟩
      rw [named]
      rfl
    next => exact entered.elim
  unknown className absent := by
    have absent : program.methodTables.get? className = none := absent
    rw [get?_methodTables, Option.map_eq_none_iff] at absent
    show (Bindings.ofList _).get? className = none
    rw [get?_addressTables, absent, Option.map_none]
  methods className methods isClass := by
    have isClass : program.methodTables.get? className = some methods := isClass
    rw [get?_methodTables, Option.map_eq_some_iff] at isClass
    obtain ⟨⟨pos, fs⟩, found, rfl⟩ := isClass
    refine ⟨(code.classes.get? className).getD [], ?_, fun method => ?_⟩
    · show (Bindings.ofList _).get? className = _
      rw [get?_addressTables, found, Option.map_some]
    have entered := laid.classes className
    rw [get?_methodLists, found, Option.map_some] at entered
    split at entered
    next same => cases same
    next table methods known same =>
      cases same
      obtain ⟨⟨s, rfl, pointless⟩, entered⟩ := entered
      have entered := entered method
      rw [known, Option.getD_some]
      unfold Code.Entered at entered
      unfold Setting.SameMethod
      split at entered
      next noAddress noMethod =>
        rw [noAddress, noMethod]
        trivial
      next address f hasAddress hasMethod =>
        obtain ⟨named, common⟩ := method_of_get? common found hasMethod
        rw [hasAddress, hasMethod]
        obtain ⟨arity, base, rfl, member⟩ := entered
        refine ⟨arity, ?_, common, base, rfl, laid.placed _ member⟩
        rw [named]
        exact (unqualified_method pointless method).symm
      next => exact entered.elim
    next => exact entered.elim

end Definitions

end Program

section Start

variable {program : Program} {code : Code} {filename : String} {w : Walker} {S : Setting}

theorem execute_classDef {m : Machine} {code : Code} (loaded : m.code = some code) (name : Name)
    (line : Option Int) : Machine.execute ⟨.classDef, name.toValue, line⟩ m =
      (.ok (), { m with
        classes := m.classes.put name ((code.classes.get? name).getD []) }) := by
  have named : Machine.nameOf ⟨.classDef, name.toValue, line⟩ m = (.ok name, m) :=
    nameOf_toValue name
  have executes : Machine.execute ⟨.classDef, name.toValue, line⟩ = (do
      let name ← Machine.nameOf ⟨.classDef, name.toValue, line⟩
      modify fun m =>
        let methods := (m.code.bind fun code => code.classes.get? name).getD []
        { m with classes := m.classes.put name methods }) := rfl
  rw [executes, Act.bind_ok named, Act.modify_apply, loaded]
  rfl

/-- The machine registers classes one after the other. -/
theorem reaches_registered {entries : List (Name × Pos × List Func)} :
    ∀ {table : Bindings (Bindings Int)} {m : Machine} {pc : Nat},
      S.code.Holds pc (entries.map fun entry => ⟨.classDef, entry.1.toValue, entry.2.1.line⟩) →
      At { S with table } 0 w m pc [] →
      m.Reaches fun m' => At { S with table := table.update (entries.map fun entry =>
        (entry.1, (S.code.classes.get? entry.1).getD [])) } 0 w m' (pc + entries.length) [] := by
  induction entries with
  | nil => exact fun _ here => .here here
  | cons entry entries ih =>
    intro table m pc held here
    rw [List.map_cons, Code.holds_cons] at held
    generalize found : (S.code.classes.get? entry.1).getD [] = methods
    have fetched := here.fetched ⟨.classDef, entry.1.toValue, entry.2.1.line⟩
    have ran := execute_classDef fetched.code entry.1 entry.2.1.line
    refine (here.reaches held.1 ran rfl).bind fun next same => ?_
    have registered : At { S with table := table.put entry.1 methods } 0 w next (pc + 1) [] := by
      rw [same]
      refine { fetched with table := ?_, shares := fetched.shares }
      show Bindings.put entry.1 ((S.code.classes.get? entry.1).getD []) _ =
        table.put entry.1 methods
      rw [found, fetched.table]
    have rest := ih held.2 registered
    rw [Nat.add_assoc, Nat.add_comm 1] at rest
    rw [List.map_cons, found]
    exact rest

theorem forM_eq_ok {α : Type} {f : α → Except Failure Unit} {xs : List α}
    (each : ∀ x ∈ xs, f x = .ok ()) : xs.forM f = .ok () := by
  induction xs with
  | nil => rfl
  | cons x xs ih =>
    show (f x >>= fun _ => xs.forM f) = .ok ()
    rw [each x List.mem_cons_self]
    exact ih fun x member => each x (List.mem_cons_of_mem _ member)

theorem discard_name {c : Constant} (isName : c.IsName) :
    (discard c.name : Except Failure Unit) = .ok () := by
  obtain ⟨s, rfl, -⟩ := isName
  rfl

/-- The methods of what has the shape of a program are named by names. -/
theorem methods_named (shaped : program.Shaped) : (program.body.forM fun
    | .defineClass _ _ methods => methods.forM fun method => discard method.name.name
    | _ => return : Except Failure Unit) = .ok () := by
  refine forM_eq_ok fun s member => ?_
  have shape := program.shaped_of_mem shaped member
  cases s with
  | defineClass => exact forM_eq_ok fun f among => discard_name (shape.1.2 f among).1
  | _ => rfl

/-- A program that was read from text can be loaded. -/
theorem Walker.load_eq (shaped : program.Shaped) (w : Walker) :
    w.load program = .ok (Walker.reset { w with program := some program }) := by
  have definitions : program.checkDefinitions = .ok () := by
    refine forM_eq_ok fun s member => ?_
    have shape := program.shaped_of_mem shaped member
    cases s with
    | define f => exact discard_name shape.1.1
    | defineClass => exact discard_name shape.1.1
    | _ => rfl
  unfold Walker.load
  exact bind_eq_ok.mpr ⟨(), definitions, bind_eq_ok.mpr ⟨(), methods_named shaped, rfl⟩⟩

variable {walker : Walker} {machine : Machine}

/-- Two engines that were given the same program start at the same point. -/
theorem at_start (world : walker.world = machine.world) (host : walker.host = machine.host)
    (depth : walker.maxCallDepth = machine.maxCallDepth) (discreet : machine.host.Discreet)
    (globals : Bindings Value) :
    At { program.setting filename code machine.maxCallDepth with table := [] } 0
      { Walker.reset { walker with program := some program } with globals }
      { machine.load code with globals } 0 [] where
  code := rfl
  table := rfl
  depth := rfl
  unfinished := rfl
  pc := rfl
  stack := rfl
  height := rfl
  shares := ⟨congrArg (fun world : World => { world with output := #[] }) world, host, rfl, rfl⟩
  discreet := discreet
  functions := rfl
  classes := rfl
  limit := depth
  locals := trivial
  awake := rfl

/-- Behind the definitions of the classes the machine goes together with the walker. -/
theorem reaches_abreast {finish : Nat} {m : Machine} (common : program.Common)
    (laid : program.LaidOut (program.scope filename) false code finish) {depth : Int}
    (frames : w.frames = [{ statements := program.main }])
    (here : At { program.setting filename code depth with table := [] } 0 w m 0 []) :
    m.Reaches (Abreast (program.setting filename code depth) w) := by
  have registered : m.Reaches fun m' => At (program.setting filename code depth) 0 w m'
      (0 + program.classes.length) [] := reaches_registered laid.registrations here
  refine registered.mono fun m' here => ⟨_, [], here, ?_⟩
  rw [Nat.zero_add, frames]
  have main : Stmt.EveryIn Expr.Common Stmt.Common program.main :=
    (Stmt.everyIn_iff ..).mpr fun s member => common.of_mem (List.mem_of_mem_filter member)
  cases laid.main with
  | plain _ placed halt =>
    have placed : StmtsAt _ _ none 0 _ (program.main.drop 0) _ finish := placed
    exact .rest (.frame placed main (.inl rfl) (.halt halt))
  | kept keeps => cases keeps

end Start

/-- The two engines agree. Given the same program, world, host, depth of calls and global
variables, their runs end alike: with the same status, or by the same failure of the host, and with
the same output, the same calls of the host, the same message of a fault and the same visible
variables. What sets them apart is excluded: too many steps, values that contain themselves, and
handlers that bind hidden variables. -/
theorem engines_agree {source readAs filename : String} {program : Program} {code : Code}
    (parsed : Program.parse source readAs = .ok program) (portable : program.Portable)
    (compiled : program.compile filename = .ok code) {walker : Walker} {machine : Machine}
    (world : walker.world = machine.world) (host : walker.host = machine.host)
    (depth : walker.maxCallDepth = machine.maxCallDepth) (discreet : machine.host.Discreet)
    (least : -32 ≤ machine.maxCallDepth) (most : machine.maxCallDepth ≤ 71582754)
    (globals : Bindings Value) :
    ∃ loaded, walker.load program = .ok loaded ∧
      let walked := { loaded with globals }.runAll
      let ran := { machine.load code with globals }.runAll
      ¬ walked.2.OutOfSteps → ¬ ran.2.OutOfSteps → ran.1 ≠ .error .endless → Agree walked ran := by
  have shaped := Program.parse_shaped parsed
  have common : program.Common := Stmt.EveryIn.and program.body shaped portable
  obtain ⟨finish, laid⟩ := program.laidOut_of_compile shaped compiled
  refine ⟨_, Walker.load_eq shaped walker, ?_⟩
  intro walked ran within enough finite
  have room : (program.setting filename code machine.maxCallDepth).Roomy := by
    have word : ((pow2 31 : Nat) : Int) = 2147483648 := by decide
    unfold Setting.Roomy Walker.leastLevels Walker.ownLevels Walker.levelsPerCall
    rw [word]
    show _ ≤ 1000 + 30 * machine.maxCallDepth ∧ 1000 + 30 * machine.maxCallDepth < _
    omega
  have start := reaches_abreast common laid rfl (at_start world host depth discreet globals)
  obtain ⟨m, onward, abreast⟩ := start.unspent enough
  have agree := agree_runAllFor (Program.sound_setting common laid) room enough finite _ []
    (Nat.le_refl _) onward rfl abreast
  exact agree.resolve_left within

/-- A function that calls itself and the host, in a loop. -/
def climbing : String :=
  "def climb(n):\n    if n > top:\n        return 0\n    return go(n) + climb(n + 1)\n" ++
    "for i in range(0, 2):\n    print(climb(i))\n"

/-- A host with a command that counts its calls. -/
def tallying : Host := Host.register {} .command (.text "go") .counting

/-- Both engines climb twice, with five calls of the host. -/
theorem engines_agree_climbing : ∃ program code loaded,
    Program.parse climbing unnamedSource = .ok program ∧ program.Portable ∧
      program.compile unnamedSource = .ok code ∧ tallying.Discreet ∧
      Walker.load { Walker.new {} with host := tallying } program = .ok loaded ∧
      (let machine := Machine.load { Machine.new {} with host := tallying } code
       let walked := ({ loaded with globals := [(.text "top", .int 2)] } : Walker).runAll
       let ran := ({ machine with globals := [(.text "top", .int 2)] } : Machine).runAll
       ran.2.status = .completed ∧ ran.2.world.output = #["6", "9"] ∧ ran.2.host.calls.length = 5 ∧
        Agree walked ran) := by
  have both : (readForBoth { Walker.new {} with host := tallying } climbing).toOption.any
      (fun (program, code, loaded) =>
        let machine := Machine.load { Machine.new {} with host := tallying } code
        let ran := ({ machine with globals := [(.text "top", .int 2)] } : Machine).runAll
        program.Portable && ran.1.toOption.isSome && ran.2.fault.isNone && ran.2.status = .completed &&
          ran.2.world.output = #["6", "9"] && ran.2.host.calls.length = 5 &&
          ({ loaded with globals := [(.text "top", .int 2)] } : Walker).runAll.2.fault.isNone) = true := by
    rw [readForBoth_eq_ofChars _ climbing (append_eq_ofList rfl rfl)]
    decide +kernel
  obtain ⟨program, code, loaded, parsed, compiled, done, checked⟩ := exists_readForBoth both
  simp only [Bool.and_eq_true, decide_eq_true_eq] at checked
  obtain ⟨⟨⟨⟨⟨⟨portable, returned⟩, faultless⟩, completed⟩, printed⟩, called⟩, faultless'⟩ := checked
  have silent : Handler.counting.Discreet := fun _ _ _ _ _ member => nomatch member
  have discreet : tallying.Discreet := .single silent (.text "go")
  have world : ({ Walker.new {} with host := tallying } : Walker).world =
      ({ Machine.new {} with host := tallying } : Machine).world := rfl
  obtain ⟨_, done', agree⟩ := engines_agree parsed portable compiled world rfl rfl discreet
    (by decide) (by decide) [(.text "top", .int 2)]
  cases done.symm.trans done'
  refine ⟨program, code, loaded, parsed, portable, compiled, discreet, done, completed, printed,
    called, agree (Engine.enough_of_faultless faultless') (Engine.enough_of_faultless faultless) ?_⟩
  intro broken
  rw [broken] at returned
  cases returned

/-- A range that hands the host a number in each round. -/
def handing : String := "for i in range(0, 3):\n    go(1)\n    print(i)\n"

/-- A host with a command that binds the hidden variable of the first range of a program. -/
def meddling : Host := Host.register {} .command (.text "go") (.assigning (.text "__for_end_0"))

/-- The engines part where a handler binds a hidden variable, which bounds a loop on the machine only,
and where the depth of calls is such that the walker has no room to begin. -/
theorem engines_part :
    (∃ program code loaded, Program.parse handing unnamedSource = .ok program ∧ program.Portable ∧
      program.compile unnamedSource = .ok code ∧
      Walker.load { Walker.new {} with host := meddling } program = .ok loaded ∧
      (let walked := loaded.runAll
       let ran := (Machine.load { Machine.new {} with host := meddling } code).runAll
       walked.2.status = .completed ∧ walked.2.world.output = #["0", "1", "2"] ∧
        ran.2.status = .completed ∧ ran.2.world.output = #["0"])) ∧
    ∃ program code loaded, Program.parse "x = 1\n" unnamedSource = .ok program ∧ program.Portable ∧
      program.compile unnamedSource = .ok code ∧
      Walker.load { Walker.new {} with maxCallDepth := 100000000 } program = .ok loaded ∧
      (let walked := loaded.runAll
       let ran := (Machine.load { Machine.new {} with maxCallDepth := 100000000 } code).runAll
       walked.2.status = .running ∧ walked.2.globals.has (.text "x") = false ∧
        ran.2.status = .completed ∧ ran.2.globals.has (.text "x") = true) := by
  constructor
  · have both : (readForBoth { Walker.new {} with host := meddling } handing).toOption.any
        (fun (program, code, loaded) =>
          let walked := loaded.runAll
          let ran := (Machine.load { Machine.new {} with host := meddling } code).runAll
          program.Portable && walked.2.status = .completed &&
            walked.2.world.output = #["0", "1", "2"] && ran.2.status = .completed &&
            ran.2.world.output = #["0"]) = true := by
      rw [readForBoth_eq_ofChars _ handing rfl]
      decide +kernel
    obtain ⟨program, code, loaded, parsed, compiled, done, checked⟩ := exists_readForBoth both
    simp only [Bool.and_eq_true, decide_eq_true_eq, and_assoc] at checked
    obtain ⟨portable, ends⟩ := checked
    exact ⟨program, code, loaded, parsed, portable, compiled, done, ends⟩
  · have both : (readForBoth { Walker.new {} with maxCallDepth := 100000000 } "x = 1\n").toOption.any
        (fun (program, code, loaded) =>
          let walked := loaded.runAll
          let ran := (Machine.load { Machine.new {} with maxCallDepth := 100000000 } code).runAll
          program.Portable && walked.2.status = .running && walked.2.globals.has (.text "x") = false &&
            ran.2.status = .completed && ran.2.globals.has (.text "x") = true) = true := by
      decide +kernel
    obtain ⟨program, code, loaded, parsed, compiled, done, checked⟩ := exists_readForBoth both
    simp only [Bool.and_eq_true, decide_eq_true_eq, and_assoc] at checked
    obtain ⟨portable, ends⟩ := checked
    exact ⟨program, code, loaded, parsed, portable, compiled, done, ends⟩

end Stepwise
