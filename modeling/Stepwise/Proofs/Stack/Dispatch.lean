import Stepwise.Proofs.Code.CallSites
import Stepwise.Proofs.Counting.Laps

/-!
Calls of a compiled program, from the tree to the machine. The code of the operands leaves a value for
each of them on the stack, the operand of the call gives back the name and the number that were written
into it, and the call is made with that name and exactly those values: `calls_dispatched`.
-/
namespace Stepwise

namespace Machine

/-- What becomes of a call of a name with some values, which lie on the stack above `rest`: how it ends,
and in which machine. -/
inductive Dispatched (name : String) (values rest : List Value) (line : Option Int) (m : Machine) :
    Opcode → Except Failure Unit → Machine → Prop where
  /-- The host and the built-in functions get the values themselves. -/
  | outside {result engine} : m.toEngine.call name values = (result, engine) →
      Dispatched name values rest line m .call (result.map fun _ => ())
        { m with toEngine := engine, stack := result.toOption.toList ++ rest }
  | noFunction : (m.code.bind fun code => code.functions.get? name) = none →
      Dispatched name values rest line m .callUser
        (.error (.fault (.running s!"Undefined function '{name}'" none))) m
  /-- A function finds them on the stack. -/
  | function {address result next} :
      (m.code.bind fun code => code.functions.get? name) = some address →
      enter name address values.length line rest.length none m = (result, next) →
      Dispatched name values rest line m .callUser result next
  | noClass : m.classes.get? name = none →
      Dispatched name values rest line m .new
        (.error (.fault (.running s!"Undefined class '{name}'" none))) { m with stack := rest }
  | bare {methods v heap} : m.classes.get? name = some methods →
      methods.get? constructorName = none → values = [] → m.heap.newInst name [] = (v, heap) →
      Dispatched name values rest line m .new (.ok ())
        { m with world := m.world.withHeap heap, stack := v :: rest }
  | overfull {methods} : m.classes.get? name = some methods →
      methods.get? constructorName = none → values ≠ [] →
      Dispatched name values rest line m .new
        (.error (.fault (.running s!"{name}() takes no arguments"
          (some "Define __init__ to accept arguments.")))) { m with stack := rest }
  /-- So does a constructor, with the new instance below them. -/
  | constructor {methods address v heap result next} : m.classes.get? name = some methods →
      methods.get? constructorName = some address → m.heap.newInst name [] = (v, heap) →
      enter s!"{name}.{constructorName}" address values.length line rest.length (some v)
        { m with world := m.world.withHeap heap, stack := values.reverse ++ v :: rest } =
          (result, next) →
      Dispatched name values rest line m .new result next
  | noMethod {ref args} : values = .inst ref :: args →
      ((m.classes.get? (m.heap.className ref)).bind fun methods => methods.get? name) = none →
      Dispatched name values rest line m .methodCall
        (.error (.fault (.running
          s!"Class \"{m.heap.className ref}\" has no method \"{name}\"" none)))
        { m with stack := rest }
  /-- A method belongs to the class of the first of the values, its receiver. -/
  | method {ref args address result next} : values = .inst ref :: args →
      ((m.classes.get? (m.heap.className ref)).bind fun methods => methods.get? name) =
        some address →
      enter s!"{m.heap.className ref}.{name}" address args.length line rest.length
        (some (.inst ref)) m = (result, next) →
      Dispatched name values rest line m .methodCall result next
  | noBuiltin {receiver args} : values = receiver :: args → (∀ ref, receiver ≠ .inst ref) →
      Builtin.ofName? name = none →
      Dispatched name values rest line m .methodCall
        (.error (.fault (.running
          s!"A {receiver.typeName m.heap} has no method \"{name}\"" none)))
        { m with stack := rest }
  | builtin {receiver args result engine} : values = receiver :: args →
      (∀ ref, receiver ≠ .inst ref) → (Builtin.ofName? name).isSome = true →
      m.toEngine.callBuiltin name values = (result, engine) →
      Dispatched name values rest line m .methodCall (result.map fun _ => ())
        { m with toEngine := engine, stack := result.toOption.toList ++ rest }

section Executed

variable {m : Machine} {name : String} {values rest : List Value} {line : Option Int}

theorem take_values (stands : m.stack = values.reverse ++ rest) :
    take values.length m = (.ok values, { m with stack := rest }) := by
  rw [take_eq (by simp [stands]), stands]
  simp

theorem outside_push (m : Machine) (call : Engine → Except Failure Value × Engine) :
    ((outside call) >>= push) m =
      ((call m.toEngine).1.map fun _ => (), { m with
        toEngine := (call m.toEngine).2
        stack := (call m.toEngine).1.toOption.toList ++ m.stack }) := by
  have called : outside call m = ((call m.toEngine).1, { m with toEngine := (call m.toEngine).2 }) :=
    rfl
  rw [Act.bind_apply, called]
  cases (call m.toEngine).1 <;> rfl

section Made

variable (small : values.length < pow10 Decimal.digitLimit)
  (stands : m.stack = values.reverse ++ rest) {result : Except Failure Unit} {next : Machine}
include small stands

theorem call_dispatched
    (ran : execute ⟨.call, .text (callOperand name values.length), line⟩ m = (result, next)) :
    Dispatched name values rest line m .call result next := by
  rw [Stepwise.execute_call, calleeOf_eq, if_pos small, pure_bind] at ran
  dsimp only at ran
  rw [Act.bind_ok (take_values stands), outside_push] at ran
  cases ran
  exact .outside rfl

theorem callUser_dispatched
    (ran : execute ⟨.callUser, .text (callOperand name values.length), line⟩ m = (result, next)) :
    Dispatched name values rest line m .callUser result next := by
  have base : (m.stack.length : Int) - values.length = rest.length := by
    rw [stands, List.length_append, List.length_reverse]
    omega
  rw [execute_callUser, calleeOf_eq, if_pos small, pure_bind] at ran
  dsimp only at ran
  rw [Act.bind_ok (Act.get_apply m), base] at ran
  cases known : m.code.bind fun code => code.functions.get? name with
  | none =>
    rw [known] at ran
    cases ran
    exact .noFunction known
  | some address =>
    rw [known] at ran
    exact .function known ran

theorem new_dispatched
    (ran : execute ⟨.new, .text (callOperand name values.length), line⟩ m = (result, next)) :
    Dispatched name values rest line m .new result next := by
  rw [execute_new, calleeOf_eq, if_pos small, pure_bind] at ran
  dsimp only at ran
  rw [instantiate, Act.bind_ok (take_values stands), Act.bind_ok (Act.get_apply _)] at ran
  dsimp only at ran
  cases known : m.classes.get? name with
  | none =>
    rw [known] at ran
    cases ran
    exact .noClass known
  | some methods =>
    rw [known] at ran
    dsimp only at ran
    cases init : methods.get? constructorName with
    | none =>
      rw [init] at ran
      cases values with
      | nil =>
        cases ran
        exact .bare known init rfl rfl
      | cons v args =>
        cases ran
        exact .overfull known init nofun
    | some address =>
      rw [init] at ran
      have below (v : Value) : (v :: values).reverse ++ rest = values.reverse ++ v :: rest := by simp
      refine .constructor known init rfl ?_
      rw [← below]
      exact ran

theorem methodCall_dispatched (receives : values ≠ [])
    (ran : execute ⟨.methodCall, .text (callOperand name values.length), line⟩ m = (result, next)) :
    Dispatched name values rest line m .methodCall result next := by
  obtain ⟨receiver, args, rfl⟩ := List.exists_cons_of_ne_nil receives
  have others : ((receiver :: args).length : Int) - 1 = args.length := by simp
  rw [execute_methodCall, calleeOf_eq, if_pos small, pure_bind] at ran
  dsimp only at ran
  rw [callMethod, Act.bind_ok (take_values stands)] at ran
  dsimp only at ran
  rw [Act.bind_ok (Act.get_apply _), others] at ran
  cases receiver
  case inst ref =>
    dsimp only at ran
    cases known : (m.classes.get? (m.heap.className ref)).bind fun methods => methods.get? name with
    | none =>
      rw [known] at ran
      cases ran
      exact .noMethod rfl known
    | some address =>
      rw [known] at ran
      -- the values are put back where they were
      have whole : m = { m with stack := (.inst ref :: args).reverse ++ rest } := by rw [← stands]
      refine .method rfl known ?_
      rw [whole]
      exact ran
  all_goals
    dsimp only at ran
    cases known : Builtin.ofName? name with
    | none =>
      rw [known] at ran
      cases ran
      exact .noBuiltin rfl nofun known
    | some builtin =>
      rw [known, if_pos Option.isSome_some, outside_push] at ran
      cases ran
      exact .builtin rfl nofun (by rw [known]; rfl) rfl

end Made

theorem execute_dispatched {i : Instruction} (calls : i.op.isCall = true)
    (written : i.operand = .text (callOperand name values.length))
    (receives : i.op = .methodCall → values ≠ []) (small : values.length < pow10 Decimal.digitLimit)
    (stands : m.stack = values.reverse ++ rest) :
    Dispatched name values rest i.line m i.op (execute i m).1 (execute i m).2 := by
  obtain ⟨op, operand, line⟩ := i
  subst written
  cases op
  case call => exact call_dispatched small stands Prod.mk.eta.symm
  case callUser => exact callUser_dispatched small stands Prod.mk.eta.symm
  case new => exact new_dispatched small stands Prod.mk.eta.symm
  case methodCall => exact methodCall_dispatched small stands (receives rfl) Prod.mk.eta.symm
  all_goals cases calls

/-- A number that cannot be read back stops a call before anything is done. -/
theorem execute_malformed {i : Instruction} (calls : i.op.isCall = true) {argc : Nat}
    (written : i.operand = .text (callOperand name argc)) (large : pow10 Decimal.digitLimit ≤ argc)
    (m : Machine) : execute i m = (.error (.host .malformed), m) := by
  obtain ⟨op, operand, line⟩ := i
  subst written
  have unread : ¬ argc < pow10 Decimal.digitLimit := Nat.not_lt.mpr large
  cases op
  case call => rw [Stepwise.execute_call, calleeOf_eq, if_neg unread]; rfl
  case callUser => rw [execute_callUser, calleeOf_eq, if_neg unread]; rfl
  case new => rw [execute_new, calleeOf_eq, if_neg unread]; rfl
  case methodCall => rw [execute_methodCall, calleeOf_eq, if_neg unread]; rfl
  all_goals cases calls

end Executed

theorem moves_of_isCall {i : Instruction} (calls : i.op.isCall = true) {taken given : Nat}
    (moves : i.Moves taken given) :
    (∃ name, i.operand = .text (callOperand name taken)) ∧ given = 1 ∧
      (i.op = .methodCall → 1 ≤ taken) ∧ ∀ a b, i.Leads a b → b = (a + 1 : Nat) := by
  obtain ⟨op, operand, line⟩ := i
  cases op
  case call | callUser | new =>
    obtain ⟨⟨name, -, written⟩, given⟩ := moves
    exact ⟨⟨name, written⟩, given, nofun, fun _ _ leads => leads⟩
  case methodCall =>
    obtain ⟨written, positive, given⟩ := moves
    exact ⟨written, given, fun _ => positive, fun _ _ leads => leads⟩
  all_goals cases calls

section Pieces

variable {program : Program} {scope : Scope} {code : Code} {a start : Nat} {i : Instruction}
  {site : CallSite} {line : Option Int}

/-- An instruction that goes on with the next one, on a stack that holds only what it takes. -/
theorem next_fits {taken given : Nat} (has : code.Has a i) (moves : i.Moves taken given)
    (falls : ∀ b, i.Leads a b → b = (a + 1 : Nat)) :
    ∃ H : Nat → Nat, H a = taken ∧ H (a + 1) = given ∧
      code.FitsFrom H (fun _ => True) a (a + 1) := by
  obtain ⟨H, marks, -⟩ := Code.exists_marks a [taken, given]
  obtain ⟨here, marks⟩ := Code.marks_cons.mp marks
  have there := (Code.marks_cons.mp marks).1
  exact ⟨H, here, there, .one (.next has moves here there trivial falls)⟩

/-- The code of expressions has heights of its own, from an empty stack to a value for each of them. -/
theorem exprs_fit {es : List Expr} (placed : ExprsAt code scope line start es a)
    (shaped : Expr.EveryIn Expr.Shaped es) :
    ∃ H : Nat → Nat, H start = 0 ∧ H a = es.length ∧
      code.FitsFrom H (fun _ => True) start a := by
  obtain ⟨H, marks, -⟩ := Code.exists_marks start (exprsHeights 0 es ++ [es.length])
  obtain ⟨marks, last⟩ := Code.marks_append.mp marks
  obtain rfl := exprsAt_next es 0 placed
  have last := (Code.marks_cons.mp last).1
  have fits := @Code.exprs_fits code scope H (fun _ => True) es _ _ _ _ placed shaped marks
    (by omega) fun _ _ _ => trivial
  exact ⟨H, fits.1, last, fits.2⟩

theorem operands_fit (shaped : program.Shaped)
    (call : code.CallAt scope program.nodes a i site start) :
    ∃ H : Nat → Nat, H start = 0 ∧ H a = site.operands.length ∧
      code.FitsFrom H (fun _ => True) start a := by
  obtain ⟨calls, ⟨line, placed⟩, -⟩ := call
  generalize i.op = op at calls
  cases calls with
  | call within | new within | invoke within => exact exprs_fit placed (within _ _ shaped).2
  | length =>
    -- the hidden variable is not read from the source, but loading it is one instruction
    cases placed with | cons first rest =>
    cases rest
    cases first with | var has =>
    exact next_fits has ⟨rfl, rfl⟩ fun _ leads => leads

end Pieces

/-- How a machine that stands before a call makes it, with the values that are handed over and those
that lie below them on its stack. -/
structure Serves (launched : Machine) (a start : Nat) (i : Instruction) (site : CallSite) (m : Machine)
    (values rest : List Value) : Prop where
  /-- There is a value for each operand. -/
  count : values.length = site.operands.length
  stands : m.stack = values.reverse ++ rest
  /-- The code of the operands has put all of them, and nothing else, on the stack that it found. -/
  pushed : ∀ m₀ : Machine, Reached launched m₀ → m₀.status.isFinal = false → m₀.pc = start →
    Travels Machine.step (InBody m₀.frames.length start a) m₀ m →
    m.frames.length = m₀.frames.length → rest = m₀.stack
  runs : m.Goes → m.step = m.begun.advanceBy i
  dispatched : values.length < pow10 Decimal.digitLimit →
    Dispatched site.callee values rest i.line (m.fetched i) i.op (execute i (m.fetched i)).1
      (execute i (m.fetched i)).2
  refused : pow10 Decimal.digitLimit ≤ values.length →
    execute i (m.fetched i) = (.error (.host .malformed), m.fetched i)
  /-- Behind the call, its result has taken the place of the values. -/
  consumed : ∀ m' : Machine, Travels Machine.step (InBody m.frames.length a (a + 1)) m m' →
    m'.pc = (a + 1 : Nat) → m'.frames.length = m.frames.length → ∃ v, m'.stack = v :: rest

theorem exists_serves {program : Program} {scope : Scope} {code : Code} {H : Nat → Nat}
    {finish result a start : Nat} {i : Instruction} {site : CallSite} {launched m : Machine}
    (sound : Sound program code H finish result) (shaped : program.Shaped)
    (call : code.CallAt scope program.nodes a i site start) (has : code.Has a i)
    (calls : i.op.isCall = true) (fresh : Disciplined program code H finish launched)
    (reached : Reached launched m) (under : m.status.isFinal = false) (pc : m.pc = a) :
    ∃ values rest, Serves launched a start i site m values rest := by
  have disciplined := reached_disciplined sound fresh reached
  obtain ⟨b, here, inside, -⟩ := disciplined.standing under
  obtain rfl : b = a := by omega
  have last : b ≠ finish := by
    rintro rfl
    obtain rfl := Option.some.inj (sound.balanced.halts.symm.trans has)
    cases calls
  obtain ⟨j, taken, given, has', moves, enough, leads⟩ := sound.balanced.fits _ b inside last
  obtain rfl := Option.some.inj (has.symm.trans has')
  obtain ⟨⟨name, written⟩, rfl, receives, falls⟩ := moves_of_isCall calls moves
  obtain ⟨rfl, same⟩ := callOperand_inj (Value.text.inj (call.operand.symm.trans written))
  have enough : taken ≤ m.stack.length := (disciplined.ready under pc i).enough ⟨moves, enough, leads⟩
  have count : (m.stack.take taken).reverse.length = taken := by simp [enough]
  refine ⟨(m.stack.take taken).reverse, m.stack.drop taken, count.trans same.symm, by simp, ?_,
    fun goes => step_within disciplined.loaded under pc has goes.2, ?_, ?_, ?_⟩
  · intro m₀ reached₀ under₀ pc₀ travels depth
    obtain ⟨H', first, last, fits⟩ := operands_fit shaped call
    obtain ⟨-, front, height, stands⟩ := piece_balanced sound fits travels
      (reached_disciplined sound fresh reached₀) under₀ pc₀ pc depth (List.nil_append _).symm
      first.symm
    have length : front.length = taken := by omega
    rw [stands, ← length, List.drop_left]
  · intro small
    refine execute_dispatched calls (by rw [count]; exact written) (fun invoked empty => ?_) small ?_
    · have := receives invoked
      rw [empty, List.length_nil] at count
      omega
    · simp [fetched, begun, remember]
  · intro large
    exact execute_malformed calls written (count ▸ large) _
  · intro m' travels pc' depth
    obtain ⟨H', first, last, fits⟩ := next_fits has moves (falls b)
    obtain ⟨-, front, height, stands⟩ := piece_balanced sound fits travels disciplined under pc pc'
      depth (List.take_append_drop taken m.stack).symm (by simp [enough, first])
    rw [last] at height
    obtain ⟨v, rfl⟩ := List.length_eq_one_iff.mp height
    exact ⟨v, stands⟩

/-- Calls keep their names and their numbers of arguments all the way. What is written into the operand
of a call is read back, as long as the number has no more digits than are converted, and different
calls have different operands. So each call instruction of a program that was parsed and compiled has
its place in the program; on every run the machine makes it with the name that stands there and with
the values that the code of its operands has put on the stack, the receiver included, and its result
takes their place. -/
theorem calls_dispatched :
    (∀ (name : String) (argc : Nat), readCallOperand? (callOperand name argc) =
      if argc < pow10 Decimal.digitLimit then some (name, (argc : Int)) else none) ∧
    (∀ (name name' : String) (argc argc' : Nat), callOperand name argc = callOperand name' argc' →
      name = name' ∧ argc = argc') ∧
    ∀ (source readAs filename : String) (program : Program) (keepResult : Bool) (code : Code),
      Program.parse source readAs = .ok program →
      program.compile filename keepResult = .ok code →
      ∀ (a : Nat) (i : Instruction), code.Has a i → i.op.isCall = true →
      ∃ site start, code.CallAt (program.scope filename) program.nodes a i site start ∧
        ∀ machine m : Machine, Reached (machine.load code) m → m.status.isFinal = false → m.pc = a →
          m.current? = some i ∧
            ∃ values rest, Serves (machine.load code) a start i site m values rest := by
  refine ⟨readCallOperand?_callOperand, fun _ _ _ _ same => callOperand_inj same, ?_⟩
  intro source readAs filename program keepResult code parsed compiled a i has calls
  have shaped := Program.parse_shaped parsed
  obtain ⟨_, laid⟩ := Program.laidOut_of_compile shaped compiled
  obtain ⟨_, sound⟩ := sound_of_compile parsed compiled
  obtain ⟨site, start, call⟩ := Program.callAt_of_laidOut laid has calls
  refine ⟨site, start, call, fun machine m reached under pc => ?_⟩
  have fresh := load_disciplined sound.balanced machine
  have loaded := (reached_disciplined sound fresh reached).loaded
  exact ⟨current?_of_has loaded pc has,
    exists_serves sound shaped call has calls fresh reached under pc⟩

/-- Puts something into a box, in the middle of a sum. -/
def boxing : String :=
  "class Box:\n    def put(self, w):\n        return w\nb = Box()\nx = 1 + b.put(3)\n"

/-- Whether a machine runs what stands from one address up to another outside of calls, or a call. -/
def isWithin (lo hi : Nat) (m : Machine) : Bool :=
  0 < m.frames.length || (decide (lo ≤ m.pc) && decide (m.pc < hi))

theorem inBody_of_isWithin {lo hi : Nat} {m : Machine} (within : isWithin lo hi m = true) :
    InBody 0 lo hi m := by
  simp only [isWithin, Bool.or_eq_true, Bool.and_eq_true, decide_eq_true_eq] at within
  by_cases called : 0 < m.frames.length
  · exact .inl called
  · obtain ⟨above, below⟩ := within.resolve_left called
    obtain ⟨a, pc⟩ := Int.eq_ofNat_of_zero_le (show 0 ≤ m.pc by omega)
    exact .inr ⟨by omega, a, pc, by omega⟩

theorem Reached.travels {start m m' : Machine} {along : Machine → Prop}
    (travels : Travels Machine.step along m m') (reached : Reached start m) : Reached start m' := by
  induction travels with
  | here => exact reached
  | on _ stepped _ _ ih => exact ih (.step reached stepped)

/-- Whether a machine is under way at an address outside of calls. -/
def standsAt (a : Nat) (m : Machine) : Bool :=
  m.frames.length = 0 && decide (m.pc = a) && !m.status.isFinal

/-- Whether code calls a method of two operands at address 6, and gets there and past it. -/
def putsOnce (code : Code) : Bool :=
  (code.instructions[6]?).any (fun i => i.op = .methodCall && match i.operand with
    | .text operand => operand = callOperand "put" 2
    | _ => false) &&
  (stepsAlong Machine.step (fun m => m.pc ≠ 4) 10 ((new {}).load code)).any fun m₀ =>
    standsAt 4 m₀ && m₀.stack.length = 1 &&
      (stepsAlong Machine.step (isWithin 4 6) 10 m₀).any fun m =>
        standsAt 6 m && (stepsAlong Machine.step (isWithin 6 7) 10 m).any (standsAt 7)

/-- Whether the operands of a method call take two instructions. -/
def handsTwo : Expr → Bool
  | .invoke _ object _ args => (exprsHeights 0 (object :: args)).length = 2
  | _ => true

theorem start_of_handsTwo {program : Program} {scope : Scope} {code : Code} {a start : Nat}
    {i : Instruction} {site : CallSite}
    (all : program.Every (fun e => handsTwo e = true) fun _ => True)
    (call : code.CallAt scope program.nodes a i site start) (op : i.op = .methodCall) :
    a = start + 2 := by
  obtain ⟨calls, ⟨line, placed⟩, -⟩ := call
  have behind := exprsAt_next site.operands 0 placed
  rw [op] at calls
  generalize made : Opcode.methodCall = opcode at calls
  cases calls with
  | call =>
    unfold Scope.callOpcode at made
    split at made
    · cases made
    · split at made <;> cases made
  | new | length => cases made
  | invoke within => rw [behind, of_decide_eq_true (within _ _ all).1]

/-- The value that is put into the box is handed over together with the box, above the first summand,
and the call leaves its result there. -/
theorem calls_dispatched_boxing : ∃ (program : Program) (code : Code) (i : Instruction)
    (m₀ m m' : Machine), Program.parse boxing unnamedSource = .ok program ∧
      program.compile unnamedSource = .ok code ∧ code.Has 6 i ∧ i.op = .methodCall ∧
      Reached ((new {}).load code) m ∧ m.pc = 6 ∧ m₀.stack.length = 1 ∧ m'.pc = 7 ∧
      ∃ site values,
        code.CallAt (program.scope unnamedSource) program.nodes 6 i site 4 ∧ site.callee = "put" ∧
        values.length = 2 ∧ m.stack = values.reverse ++ m₀.stack ∧
        readCallOperand? (callOperand "put" 2) = some ("put", 2) ∧
        Dispatched "put" values m₀.stack i.line (m.fetched i) .methodCall (execute i (m.fetched i)).1
          (execute i (m.fetched i)).2 ∧
        ∃ v, m'.stack = v :: m₀.stack := by
  have ran : (codeOf boxing).toOption.any putsOnce = true := by
    rw [codeOf_eq_ofChars boxing rfl]
    decide +kernel
  have sized : (Program.parse boxing unnamedSource).toOption.any (fun program =>
      decide (program.Every (fun e => handsTwo e = true) fun _ => True)) = true := by
    rw [@Program.parse_eq_ofChars boxing _ rfl]
    decide +kernel
  obtain ⟨program, code, parsed, compiled, puts⟩ := exists_codeOf ran
  obtain ⟨other, reparsed, sized⟩ := exists_ok sized
  obtain rfl : program = other := Except.ok.inj (parsed.symm.trans reparsed)
  rw [decide_eq_true_eq] at sized
  simp only [putsOnce, Bool.and_eq_true, Option.any_eq_true, standsAt, decide_eq_true_eq,
    Bool.not_eq_true'] at puts
  obtain ⟨⟨i, has, op, operand⟩, m₀, arrives, ⟨⟨⟨outer₀, pc₀⟩, under₀⟩, one⟩, m, pushes,
    ⟨⟨outer, pc⟩, under⟩, m', returns, ⟨outer', pc'⟩, -⟩ := puts
  have written : i.operand = .text (callOperand "put" 2) := by
    split at operand
    · next text => rw [text, of_decide_eq_true operand]
    · cases operand
  have reached₀ := Reached.travels (travels_of_stepsAlong arrives).1 .start
  have travels := (travels_of_stepsAlong pushes).1.mono fun _ => inBody_of_isWithin
  have travels' := (travels_of_stepsAlong returns).1.mono fun _ => inBody_of_isWithin
  have reached := reached₀.travels travels
  obtain ⟨decodes, -, served⟩ := calls_dispatched
  obtain ⟨site, start, call, serves⟩ := served boxing unnamedSource unnamedSource program false code
    parsed compiled 6 i has (by rw [op]; rfl)
  obtain ⟨current, values, rest, serves⟩ := serves (new {}) m reached under pc
  obtain ⟨named, two⟩ := callOperand_inj (Value.text.inj (call.operand.symm.trans written))
  have behind := start_of_handsTwo sized call op
  obtain rfl : start = 4 := by omega
  have below : rest = m₀.stack := serves.pushed m₀ reached₀ under₀ pc₀ (outer₀ ▸ travels) (by omega)
  subst below
  have count := serves.count.trans two
  have small : 2 < pow10 Decimal.digitLimit := by decide +kernel
  have dispatched := serves.dispatched (count ▸ small)
  rw [named, op] at dispatched
  exact ⟨program, code, i, m₀, m, m', parsed, compiled, has, op, reached, pc, one, pc', site, values,
    call, named, count, serves.stands, (decodes "put" 2).trans (if_pos small), dispatched,
    serves.consumed m' (outer ▸ travels') pc' (by omega)⟩

end Machine

end Stepwise
