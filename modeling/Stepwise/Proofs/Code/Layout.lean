import Stepwise.Code.Compile

/-!
Where the instructions of a tree stand in a piece of code, and which ones they are. `ExprAt` and
`StmtAt` have a rule for each form of the language; they say of the code what `compileExpr` and
`compileStmt` produce, without saying how it is produced.
-/
namespace Stepwise

/-- Things stand one after the other from an address on. -/
def Standing {α : Type} (stands : Nat → α → Prop) (base : Nat) (xs : List α) : Prop :=
  ∀ k x, xs[k]? = some x → stands (base + k) x

section

variable {α : Type} {stands : Nat → α → Prop} {base : Nat}

@[simp] theorem standing_nil : Standing stands base [] := by
  intro k x found
  simp at found

theorem standing_cons {x : α} {xs : List α} :
    Standing stands base (x :: xs) ↔ stands base x ∧ Standing stands (base + 1) xs := by
  constructor
  · intro standing
    refine ⟨standing 0 x rfl, fun k y found => ?_⟩
    have shifted := standing (k + 1) y (by simpa using found)
    rwa [show base + 1 + k = base + (k + 1) by omega]
  · rintro ⟨here, standing⟩ k y found
    cases k with
    | zero => simpa using (Option.some.inj found) ▸ here
    | succ k =>
      have shifted := standing k y (by simpa using found)
      rwa [show base + (k + 1) = base + 1 + k by omega]

theorem standing_append {xs ys : List α} :
    Standing stands base (xs ++ ys) ↔
      Standing stands base xs ∧ Standing stands (base + xs.length) ys := by
  induction xs generalizing base with
  | nil => simp
  | cons x xs ih =>
    have shift : base + 1 + xs.length = base + (x :: xs).length := by
      simp only [List.length_cons]
      omega
    simp only [List.cons_append, standing_cons, ih, and_assoc, shift]

end

/-- Something holds at all addresses from one up to another, the last one excluded. -/
def Along (holds : Nat → Prop) (lo hi : Nat) : Prop := ∀ a, lo ≤ a → a < hi → holds a

namespace Along

variable {holds : Nat → Prop} {lo mid hi : Nat}

theorem nil (a : Nat) : Along holds a a := fun _ above below => by omega

theorem append (first : Along holds lo mid) (second : Along holds mid hi) : Along holds lo hi := by
  intro a above below
  rcases Nat.lt_or_ge a mid with before | behind
  · exact first a above before
  · exact second a behind below

theorem snoc (first : Along holds lo mid) (last : holds mid) : Along holds lo (mid + 1) := by
  refine first.append fun a above below => ?_
  obtain rfl : a = mid := by omega
  exact last

theorem one (here : holds lo) : Along holds lo (lo + 1) := (nil lo).snoc here

end Along

namespace Code

/-- An instruction stands at an address. -/
def Has (code : Code) (address : Nat) (i : Instruction) : Prop :=
  code.instructions[address]? = some i

/-- Instructions stand one after the other from an address on. -/
def Holds (code : Code) (base : Nat) (is : List Instruction) : Prop :=
  Standing code.Has base is

@[simp] theorem holds_nil (code : Code) (base : Nat) : code.Holds base [] := standing_nil

theorem holds_cons {code : Code} {base : Nat} {i : Instruction} {is : List Instruction} :
    code.Holds base (i :: is) ↔ code.Has base i ∧ code.Holds (base + 1) is := standing_cons

theorem holds_append {code : Code} {base : Nat} {is js : List Instruction} :
    code.Holds base (is ++ js) ↔ code.Holds base is ∧ code.Holds (base + is.length) js :=
  standing_append

section Ends

variable {code : Code} {base next : Nat} {is js : List Instruction} {i : Instruction}

/-- Where the code behind a piece of code starts and ends. -/
theorem Holds.append (held : code.Holds base (is ++ js)) (ends : next = base + (is ++ js).length) :
    code.Holds base is ∧ code.Holds (base + is.length) js ∧
      next = base + is.length + js.length := by
  rw [List.length_append, ← Nat.add_assoc] at ends
  exact ⟨(holds_append.mp held).1, (holds_append.mp held).2, ends⟩

/-- The last instruction stands where the others end. -/
theorem Holds.concat (held : code.Holds base (is ++ [i])) (ends : next = base + (is ++ [i]).length) :
    code.Holds base is ∧ ∃ mid, mid = base + is.length ∧ code.Has mid i ∧ next = mid + 1 := by
  obtain ⟨held, last, ends⟩ := held.append ends
  exact ⟨held, _, rfl, (holds_cons.mp last).1, ends⟩

/-- Three instructions stand between two pieces of code. -/
theorem Holds.between {j k : Instruction} (held : code.Holds base (is ++ i :: j :: k :: js))
    (ends : next = base + (is ++ i :: j :: k :: js).length) :
    code.Holds base is ∧ ∃ mid, mid = base + is.length ∧ code.Has mid i ∧ code.Has (mid + 1) j ∧
      code.Has (mid + 2) k ∧ code.Holds (mid + 3) js ∧ next = mid + 3 + js.length := by
  obtain ⟨held, behind, ends⟩ := held.append ends
  simp only [holds_cons] at behind
  obtain ⟨first, second, third, others⟩ := behind
  refine ⟨held, _, rfl, first, second, third, others, ?_⟩
  simp only [List.length_cons] at ends
  omega

end Ends

end Code

/-- The opcode of a call: classes come first, then the functions of the program. -/
def Scope.callOpcode (scope : Scope) (name : Name) : Opcode :=
  if scope.classes.contains name.key then .new
  else if scope.functions.contains name.key then .callUser
  else .call

mutual

/-- The code of an expression stands from one address up to another. -/
inductive ExprAt (code : Code) (scope : Scope) : Option Int → Nat → Expr → Nat → Prop where
  | literal {line base pos form value} : code.Has base ⟨.push, value.value, pos.line.or line⟩ →
      ExprAt code scope line base (.literal pos form value) (base + 1)
  | var {line base pos name} : code.Has base ⟨.load, name.value, pos.line.or line⟩ →
      ExprAt code scope line base (.var pos name) (base + 1)
  | and {line base pos left right mid next} :
      ExprAt code scope (pos.line.or line) base left mid →
      code.Has mid ⟨.dup, .null, pos.line.or line⟩ →
      code.Has (mid + 1) ⟨.jumpIfNot, .int (next : Nat), pos.line.or line⟩ →
      code.Has (mid + 2) ⟨.pop, .null, pos.line.or line⟩ →
      ExprAt code scope (pos.line.or line) (mid + 3) right next →
      ExprAt code scope line base (.binary pos .and left right) next
  | or {line base pos left right mid next} :
      ExprAt code scope (pos.line.or line) base left mid →
      code.Has mid ⟨.dup, .null, pos.line.or line⟩ →
      code.Has (mid + 1) ⟨.jumpIf, .int (next : Nat), pos.line.or line⟩ →
      code.Has (mid + 2) ⟨.pop, .null, pos.line.or line⟩ →
      ExprAt code scope (pos.line.or line) (mid + 3) right next →
      ExprAt code scope line base (.binary pos .or left right) next
  | binary {line base pos op opcode left right mid next} :
      Code.binaryOpcode? op = some opcode →
      ExprAt code scope (pos.line.or line) base left mid →
      ExprAt code scope (pos.line.or line) mid right next →
      code.Has next ⟨opcode, .null, pos.line.or line⟩ →
      ExprAt code scope line base (.binary pos op left right) (next + 1)
  | neg {line base pos operand next} : ExprAt code scope (pos.line.or line) base operand next →
      code.Has next ⟨.neg, .null, pos.line.or line⟩ →
      ExprAt code scope line base (.unary pos .neg operand) (next + 1)
  | not {line base pos operand next} : ExprAt code scope (pos.line.or line) base operand next →
      code.Has next ⟨.not, .null, pos.line.or line⟩ →
      ExprAt code scope line base (.unary pos .not operand) (next + 1)
  | call {line base pos callee name args next} : callee.name = .ok name →
      ExprsAt code scope (pos.line.or line) base args next →
      code.Has next ⟨scope.callOpcode name, .text (callOperand callee.plain args.length),
        pos.line.or line⟩ →
      ExprAt code scope line base (.call pos callee args) (next + 1)
  | new {line base pos className args next} :
      ExprsAt code scope (pos.line.or line) base args next →
      code.Has next ⟨.new, .text (callOperand className.plain args.length), pos.line.or line⟩ →
      ExprAt code scope line base (.new pos className args) (next + 1)
  | invoke {line base pos object method args mid next} :
      ExprAt code scope (pos.line.or line) base object mid →
      ExprsAt code scope (pos.line.or line) mid args next →
      code.Has next ⟨.methodCall, .text (callOperand method.plain (args.length + 1)),
        pos.line.or line⟩ →
      ExprAt code scope line base (.invoke pos object method args) (next + 1)
  | list {line base pos elements next} :
      ExprsAt code scope (pos.line.or line) base elements next →
      code.Has next ⟨.arrayCreate, .int elements.length, pos.line.or line⟩ →
      ExprAt code scope line base (.list pos elements) (next + 1)
  | record {line base pos entries next} :
      EntriesAt code scope (pos.line.or line) base entries next →
      code.Has next ⟨.objectCreate, .int entries.length, pos.line.or line⟩ →
      ExprAt code scope line base (.record pos entries) (next + 1)
  | index {line base pos object position mid next} :
      ExprAt code scope (pos.line.or line) base object mid →
      ExprAt code scope (pos.line.or line) mid position next →
      code.Has next ⟨.arrayGet, .null, pos.line.or line⟩ →
      ExprAt code scope line base (.index pos object position) (next + 1)
  | slice {line base pos object start stop first second next} :
      ExprAt code scope (pos.line.or line) base object first →
      BoundAt code scope (pos.line.or line) first start second →
      BoundAt code scope (pos.line.or line) second stop next →
      code.Has next ⟨.slice, .null, pos.line.or line⟩ →
      ExprAt code scope line base (.slice pos object start stop) (next + 1)
  | member {line base pos object property next} :
      ExprAt code scope (pos.line.or line) base object next →
      code.Has next ⟨.push, property.value, pos.line.or line⟩ →
      code.Has (next + 1) ⟨.memberGet, .null, pos.line.or line⟩ →
      ExprAt code scope line base (.member pos object property) (next + 2)

inductive ExprsAt (code : Code) (scope : Scope) : Option Int → Nat → List Expr → Nat → Prop where
  | nil {line base} : ExprsAt code scope line base [] base
  | cons {line base e es mid next} : ExprAt code scope line base e mid →
      ExprsAt code scope line mid es next → ExprsAt code scope line base (e :: es) next

inductive BoundAt (code : Code) (scope : Scope) : Option Int → Nat → Option Expr → Nat → Prop where
  | absent {line base} : code.Has base ⟨.push, .null, line⟩ →
      BoundAt code scope line base none (base + 1)
  | present {line base e next} : ExprAt code scope line base e next →
      BoundAt code scope line base (some e) next

inductive EntriesAt (code : Code) (scope : Scope) :
    Option Int → Nat → List (Constant × Expr) → Nat → Prop where
  | nil {line base} : EntriesAt code scope line base [] base
  | cons {line base key e entries mid next} : code.Has base ⟨.push, key.value, line⟩ →
      ExprAt code scope line (base + 1) e mid → EntriesAt code scope line mid entries next →
      EntriesAt code scope line base ((key, e) :: entries) next

end

/-- The end of an arm of a branch: the last one falls through to the end of the branch, the others
jump there. -/
def ExitAt (code : Code) (line : Option Int) (base finish next : Nat) : Bool → Prop
  | true => base = next ∧ next = finish
  | false => next = base + 1 ∧ code.Has base ⟨.jump, .int (finish : Nat), line⟩

/-- The setup of a counted loop, up to `start`, and the instruction that gives its limit. A limit
that is not literal is kept in a hidden variable. -/
inductive LimitAt (code : Code) (scope : Scope) (line : Option Int) (number base : Nat)
    (count : Expr) : Nat → Nat → Instruction → Prop where
  | literal {n : Nat} : count.count? = some n →
      LimitAt code scope line number base count number base ⟨.push, .int n, line⟩
  | computed {mid : Nat} : count.count? = none → ExprAt code scope line base count mid →
      code.Has mid ⟨.repeatCount, .null, line⟩ →
      code.Has (mid + 1) ⟨.store, .text s!"{Code.rangeMark}count_{number}", line⟩ →
      LimitAt code scope line number base count (number + 1) (mid + 2)
        ⟨.load, .text s!"{Code.rangeMark}count_{number}", line⟩

/-- The setup of a range loop, up to `start`: what its test compares with, and the instruction that
gives its step. -/
inductive RangeAt (code : Code) (scope : Scope) (line : Option Int) (number base : Nat)
    (var : Constant) (first last : Expr) (step : Option Expr) :
    Nat → String → Number ⊕ String → Instruction → Prop where
  | known {mid next : Nat} {v : Value} {n : Number} : RangeStep.of step = .known v →
      v.weight? = some n → n.isZero = false →
      ExprAt code scope line base first mid → ExprAt code scope line mid last next →
      code.Holds next [⟨.push, v, line⟩, ⟨.rangeCheck, .null, line⟩, ⟨.pop, .null, line⟩,
        ⟨.store, .text s!"{Code.rangeMark}end_{number}", line⟩, ⟨.store, var.value, line⟩] →
      RangeAt code scope line number base var first last step (next + 5)
        s!"{Code.rangeMark}end_{number}" (.inl n) ⟨.push, v, line⟩
  | computed {mid next finish : Nat} : RangeStep.of step = .computed →
      ExprAt code scope line base first mid → ExprAt code scope line mid last next →
      BoundAt code scope line next step finish →
      code.Holds finish [⟨.rangeCheck, .null, line⟩,
        ⟨.store, .text s!"{Code.rangeMark}step_{number}", line⟩,
        ⟨.store, .text s!"{Code.rangeMark}end_{number}", line⟩, ⟨.store, var.value, line⟩] →
      RangeAt code scope line number base var first last step (finish + 4)
        s!"{Code.rangeMark}end_{number}" (.inr s!"{Code.rangeMark}step_{number}")
        ⟨.load, .text s!"{Code.rangeMark}step_{number}", line⟩

/-- The code of a loop over items around its body: the setup and the test of a round. -/
def eachSetup (line : Option Int) (number leave : Nat) (var : Constant) : List Instruction :=
  [⟨.store, .text s!"{Code.eachMark}arr_{number}", line⟩,
   ⟨.load, .text s!"{Code.eachMark}arr_{number}", line⟩,
   ⟨.call, .text (callOperand "len" 1), line⟩,
   ⟨.store, .text s!"{Code.eachMark}len_{number}", line⟩,
   ⟨.push, .int 0, line⟩, ⟨.store, .text s!"{Code.eachMark}idx_{number}", line⟩,
   ⟨.load, .text s!"{Code.eachMark}idx_{number}", line⟩,
   ⟨.load, .text s!"{Code.eachMark}len_{number}", line⟩, ⟨.lt, .null, line⟩,
   ⟨.jumpIfNot, .int (leave : Nat), line⟩,
   ⟨.load, .text s!"{Code.eachMark}arr_{number}", line⟩,
   ⟨.load, .text s!"{Code.eachMark}idx_{number}", line⟩, ⟨.arrayGet, .null, line⟩,
   ⟨.store, var.value, line⟩]

/-- The code of a loop over items behind its body. -/
def eachAgain (line : Option Int) (number start : Nat) : List Instruction :=
  [⟨.load, .text s!"{Code.eachMark}idx_{number}", line⟩, ⟨.push, .int 1, line⟩,
   ⟨.add, .null, line⟩, ⟨.store, .text s!"{Code.eachMark}idx_{number}", line⟩,
   ⟨.jump, .int (start : Nat), line⟩]

mutual

/-- The code of a statement stands from one address up to another. Its hidden variables have the
numbers from the first up to, and without, the second. -/
inductive StmtAt (code : Code) (scope : Scope) :
    Option LoopTargets → Nat → Nat → Stmt → Nat → Nat → Prop where
  | expr {loop number base pos value next} : ExprAt code scope pos.line base value next →
      code.Has next ⟨.pop, .null, pos.line⟩ →
      StmtAt code scope loop number base (.expr pos value) number (next + 1)
  | assign {loop number base pos target value next} : ExprAt code scope pos.line base value next →
      code.Has next ⟨.store, target.value, pos.line⟩ →
      StmtAt code scope loop number base (.assign pos target value) number (next + 1)
  | update {loop number base pos op opcode value next} {name : String} :
      Code.updateOpcode? op = some opcode → code.Has base ⟨.load, .text name, pos.line⟩ →
      ExprAt code scope pos.line (base + 1) value next → code.Has next ⟨opcode, .null, pos.line⟩ →
      code.Has (next + 1) ⟨.store, .text name, pos.line⟩ →
      StmtAt code scope loop number base (.update pos (.scalar (.text name)) op value) number
        (next + 2)
  | setIndex {loop number base pos object position value first second next} :
      ExprAt code scope pos.line base object first →
      ExprAt code scope pos.line first position second →
      ExprAt code scope pos.line second value next → code.Has next ⟨.arraySet, .null, pos.line⟩ →
      StmtAt code scope loop number base (.setIndex pos object position value) number (next + 1)
  | setMember {loop number base pos object property value mid next} :
      ExprAt code scope pos.line base object mid →
      code.Has mid ⟨.push, property.value, pos.line⟩ →
      ExprAt code scope pos.line (mid + 1) value next →
      code.Has next ⟨.memberSet, .null, pos.line⟩ →
      StmtAt code scope loop number base (.setMember pos object property value) number (next + 1)
  | branch {loop number base pos test body elifs otherwise mid inner skip second third last finish
        final} :
      ExprAt code scope pos.line base test mid →
      code.Has mid ⟨.jumpIfNot, .int (skip : Nat), pos.line⟩ →
      StmtsAt code scope loop number (mid + 1) body second inner →
      ExitAt code pos.line inner finish skip (elifs.isEmpty && otherwise.isNone) →
      ElifsAt code scope loop finish otherwise.isNone second skip elifs third last →
      OtherwiseAt code scope loop third last otherwise final finish →
      StmtAt code scope loop number base (.branch pos test body elifs otherwise) final finish
  | loopTimes {loop number base pos count body start limit first second again} :
      LimitAt code scope pos.line number base count first start limit →
      code.Holds start [⟨.push, .int 0, pos.line⟩, ⟨.dup, .null, pos.line⟩, limit,
        ⟨.gte, .null, pos.line⟩, ⟨.jumpIf, .int (again + 3 : Nat), pos.line⟩] →
      StmtsAt code scope (some ⟨again + 3, again⟩) first (start + 5) body second again →
      code.Holds again [⟨.push, .int 1, pos.line⟩, ⟨.add, .null, pos.line⟩,
        ⟨.jump, .int (start + 1 : Nat), pos.line⟩, ⟨.pop, .null, pos.line⟩] →
      StmtAt code scope loop number base (.loopTimes pos count body) second (again + 4)
  | loopWhile {loop number base pos test body mid second again} :
      ExprAt code scope pos.line base test mid →
      code.Has mid ⟨.jumpIfNot, .int (again + 1 : Nat), pos.line⟩ →
      StmtsAt code scope (some ⟨again + 1, base⟩) number (mid + 1) body second again →
      code.Has again ⟨.jump, .int (base : Nat), pos.line⟩ →
      StmtAt code scope loop number base (.loopWhile pos test body) second (again + 1)
  | loopRange {loop number base pos var first last step body start stopName known pushStep second
        again} :
      RangeAt code scope pos.line number base var first last step start stopName known pushStep →
      code.Holds start (Code.rangeTest pos.line start var stopName known ++
        [⟨.jumpIfNot, .int (again + 5 : Nat), pos.line⟩]) →
      StmtsAt code scope (some ⟨again + 5, again⟩) (number + 1)
        (start + (Code.rangeTest pos.line start var stopName known).length + 1) body second again →
      code.Holds again [⟨.load, var.value, pos.line⟩, pushStep, ⟨.add, .null, pos.line⟩,
        ⟨.store, var.value, pos.line⟩, ⟨.jump, .int (start : Nat), pos.line⟩] →
      StmtAt code scope loop number base (.loopRange pos var first last step body) second
        (again + 5)
  | loopEach {loop number base pos var items body mid second again} :
      ExprAt code scope pos.line base items mid →
      code.Holds mid (eachSetup pos.line number (again + 5) var) →
      StmtsAt code scope (some ⟨again + 5, again⟩) (number + 1) (mid + 14) body second again →
      code.Holds again (eachAgain pos.line number (mid + 6)) →
      StmtAt code scope loop number base (.loopEach pos var items body) second (again + 5)
  | leave {targets number base pos} :
      code.Has base ⟨.jump, .int (targets.leave : Nat), pos.line⟩ →
      StmtAt code scope (some targets) number base (.leave pos) number (base + 1)
  | again {targets number base pos} :
      code.Has base ⟨.jump, .int (targets.again : Nat), pos.line⟩ →
      StmtAt code scope (some targets) number base (.again pos) number (base + 1)
  | pass {loop number base pos} : code.Has base ⟨.nop, .null, pos.line⟩ →
      StmtAt code scope loop number base (.pass pos) number (base + 1)
  | give {loop number base pos value next} : BoundAt code scope pos.line base value next →
      code.Has next ⟨.ret, .null, pos.line⟩ →
      StmtAt code scope loop number base (.give pos value) number (next + 1)

inductive StmtsAt (code : Code) (scope : Scope) :
    Option LoopTargets → Nat → Nat → List Stmt → Nat → Nat → Prop where
  | nil {loop number base} : StmtsAt code scope loop number base [] number base
  | cons {loop number base s ss second mid third next} :
      StmtAt code scope loop number base s second mid →
      StmtsAt code scope loop second mid ss third next →
      StmtsAt code scope loop number base (s :: ss) third next

/-- The arms of a branch behind its first one; `finish` is the end of the branch and `lastArm` says
whether it has no last resort. -/
inductive ElifsAt (code : Code) (scope : Scope) :
    Option LoopTargets → Nat → Bool → Nat → Nat → List Elif → Nat → Nat → Prop where
  | nil {loop finish lastArm number base} :
      ElifsAt code scope loop finish lastArm number base [] number base
  | cons {loop finish lastArm number base pos test body es mid inner skip second third next} :
      ExprAt code scope pos.line base test mid →
      code.Has mid ⟨.jumpIfNot, .int (skip : Nat), pos.line⟩ →
      StmtsAt code scope loop number (mid + 1) body second inner →
      ExitAt code pos.line inner finish skip (lastArm && es.isEmpty) →
      ElifsAt code scope loop finish lastArm second skip es third next →
      ElifsAt code scope loop finish lastArm number base (.mk pos test body :: es) third next

inductive OtherwiseAt (code : Code) (scope : Scope) :
    Option LoopTargets → Nat → Nat → Option (List Stmt) → Nat → Nat → Prop where
  | absent {loop number base} : OtherwiseAt code scope loop number base none number base
  | present {loop number base body second next} :
      StmtsAt code scope loop number base body second next →
      OtherwiseAt code scope loop number base (some body) second next

end

/-- The code of a function: its parameters are taken off the stack from the last one on. -/
inductive FuncAt (code : Code) (scope : Scope) (base : Nat) (f : Func) : Prop where
  | intro {number second next : Nat} :
      code.Holds base (f.params.reverse.map fun param => ⟨.store, param.value, f.pos.line⟩) →
      StmtsAt code scope none number (base + f.params.length) f.body second next →
      next = base + f.params.length + Code.stmtsLength f.body →
      code.Has next ⟨.push, .null, none⟩ → code.Has (next + 1) ⟨.ret, .null, none⟩ →
      FuncAt code scope base f

end Stepwise
