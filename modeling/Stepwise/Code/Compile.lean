import Stepwise.Code
import Stepwise.Tree

/-!
Compiling a program: the class definitions and the main body, ended by a halt, then every function
and every method. The length of a piece of code does not depend on where it stands, so the targets
of forward jumps are known before the code they skip is produced.
-/
namespace Stepwise

/-- What is known about the whole program while a part of it is compiled. -/
structure Scope where
  classes : List Scalar.Key
  functions : List Scalar.Key
  filename : String

/-- Where leaving the innermost loop and going on with its next round lead to. -/
structure LoopTargets where
  leave : Nat
  again : Nat

/-- A fault at a node. A node without a line, or with line zero, takes the line of what surrounds
it. -/
def Scope.fault (scope : Scope) (pos : Pos) (line : Option Int) (message : String)
    (suggestion : Option String := none) : Fault :=
  { phase := .compiling, message, suggestion, filename := scope.filename
    line := match pos.line with
      | some 0 => line
      | some own => some own
      | none => line
    column := pos.column }

/-- Stops compiling with a fault at a node. -/
def Scope.refuse {m : Type → Type} [MonadExceptOf Failure m] {α : Type} (scope : Scope) (pos : Pos)
    (line : Option Int) (message : String) (suggestion : Option String := none) : m α :=
  throw (.fault (scope.fault pos line message suggestion))

/-- A literal count is known before the loop runs. -/
def Expr.count? : Expr → Option Nat
  | .literal _ .number (.scalar (.number n)) =>
    match n.whole? with
    | some (.ofNat count) => some count
    | _ => none
  | _ => none

/-- What is known about the step of a range before the loop runs. -/
inductive RangeStep where
  | known (v : Value)
  | computed
  /-- A minus sign stands before something that has no negative. -/
  | unfit

/-- The step is known when it is absent, a literal number, or one behind a minus sign. A host may
have put another value where the number belongs; null makes it unknown. -/
def RangeStep.of : Option Expr → RangeStep
  | none => .known (.int 1)
  | some (.literal _ .number c) => if c.value.isNull then .computed else .known c.value
  | some (.unary _ .neg (.literal _ .number c)) =>
    match c.value.weight? with
    | some n => .known (.number n.neg)
    | none => .unfit
  | some _ => .computed

def RangeStep.isKnown : RangeStep → Bool
  | .known _ => true
  | _ => false

namespace Code

def binaryOpcode? : BinaryOp → Option Opcode
  | .add => some .add
  | .sub => some .sub
  | .mul => some .mul
  | .div => some .div
  | .mod => some .mod
  | .floorDiv => some .floorDiv
  | .pow => some .pow
  | .eq => some .eq
  | .ne => some .neq
  | .lt => some .lt
  | .gt => some .gt
  | .le => some .lte
  | .ge => some .gte
  | .isIn => some .isIn
  | .and | .or | .unknown _ => none

def updateOpcode? : UpdateOp → Option Opcode
  | .add => some .add
  | .sub => some .sub
  | .mul => some .mul
  | .div => some .div
  | .unknown _ => none

mutual

/-- Number of instructions of an expression. -/
def exprLength : Expr → Nat
  | .literal _ _ _ | .var _ _ => 1
  | .binary _ op left right =>
    match op with
    | .and | .or => exprLength left + 3 + exprLength right
    | _ => exprLength left + exprLength right + 1
  | .unary _ _ operand => exprLength operand + 1
  | .call _ _ args | .new _ _ args => exprsLength args + 1
  | .invoke _ object _ args => exprLength object + exprsLength args + 1
  | .list _ elements => exprsLength elements + 1
  | .record _ entries => entriesLength entries + 1
  | .index _ object position => exprLength object + exprLength position + 1
  | .slice _ object start stop => exprLength object + boundLength start + boundLength stop + 1
  | .member _ object _ => exprLength object + 2
  | .alien _ => 0

def exprsLength : List Expr → Nat
  | [] => 0
  | e :: es => exprLength e + exprsLength es

def boundLength : Option Expr → Nat
  | none => 1
  | some e => exprLength e

def entriesLength : List (Constant × Expr) → Nat
  | [] => 0
  | (_, e) :: entries => exprLength e + 1 + entriesLength entries

end

mutual

/-- Code that leaves the value of an expression on the stack. `line` is the line of what surrounds
it, `base` the address of its first instruction. -/
def compileExpr (scope : Scope) (line : Option Int) (base : Nat) :
    Expr → Except Failure (List Instruction)
  | .literal pos _ value => return [⟨.push, value.value, pos.line.or line⟩]
  | .var pos name => return [⟨.load, name.value, pos.line.or line⟩]
  | .binary pos op left right =>
    let line := pos.line.or line
    match op with
    | .and | .or => do
      let first ← compileExpr scope line base left
      let second ← compileExpr scope line (base + first.length + 3) right
      let skip : Opcode := match op with
        | .and => .jumpIfNot
        | _ => .jumpIf
      let finish : Nat := base + first.length + 3 + second.length
      return first ++ ⟨.dup, .null, line⟩ :: ⟨skip, .int finish, line⟩ :: ⟨.pop, .null, line⟩ ::
        second
    | _ => do
      match binaryOpcode? op with
      | none =>
        let sign ← op.sign.name
        scope.refuse pos line s!"Unknown operator '{sign}'"
      | some opcode =>
        let first ← compileExpr scope line base left
        let second ← compileExpr scope line (base + first.length) right
        return first ++ second ++ [⟨opcode, .null, line⟩]
  | .unary pos op operand => do
    let line := pos.line.or line
    let code ← compileExpr scope line base operand
    match op with
    | .neg => return code ++ [⟨.neg, .null, line⟩]
    | .not => return code ++ [⟨.not, .null, line⟩]
    | .unknown sign => scope.refuse pos line s!"Unknown unary operator '{sign}'"
  | .call pos callee args => do
    let line := pos.line.or line
    let code ← compileExprs scope line base args
    let key := (← callee.name).key
    let opcode : Opcode :=
      if scope.classes.contains key then .new
      else if scope.functions.contains key then .callUser
      else .call
    return code ++ [⟨opcode, .text (callOperand callee.plain args.length), line⟩]
  | .new pos className args => do
    let line := pos.line.or line
    let code ← compileExprs scope line base args
    return code ++ [⟨.new, .text (callOperand className.plain args.length), line⟩]
  | .invoke pos object method args => do
    let line := pos.line.or line
    let receiver ← compileExpr scope line base object
    let code ← compileExprs scope line (base + receiver.length) args
    return receiver ++ code ++
      [⟨.methodCall, .text (callOperand method.plain (args.length + 1)), line⟩]
  | .list pos elements => do
    let line := pos.line.or line
    let code ← compileExprs scope line base elements
    return code ++ [⟨.arrayCreate, .int elements.length, line⟩]
  | .record pos entries => do
    let line := pos.line.or line
    let code ← compileEntries scope line base entries
    return code ++ [⟨.objectCreate, .int entries.length, line⟩]
  | .index pos object position => do
    let line := pos.line.or line
    let first ← compileExpr scope line base object
    let second ← compileExpr scope line (base + first.length) position
    return first ++ second ++ [⟨.arrayGet, .null, line⟩]
  | .slice pos object start stop => do
    let line := pos.line.or line
    let first ← compileExpr scope line base object
    let second ← compileBound scope line (base + first.length) start
    let third ← compileBound scope line (base + first.length + second.length) stop
    return first ++ second ++ third ++ [⟨.slice, .null, line⟩]
  | .member pos object property => do
    let line := pos.line.or line
    let code ← compileExpr scope line base object
    return code ++ [⟨.push, property.value, line⟩, ⟨.memberGet, .null, line⟩]
  | .alien node =>
    scope.refuse node.pos line s!"Cannot compile expression {node.label}"

def compileExprs (scope : Scope) (line : Option Int) (base : Nat) :
    List Expr → Except Failure (List Instruction)
  | [] => return []
  | e :: es => do
    let first ← compileExpr scope line base e
    let rest ← compileExprs scope line (base + first.length) es
    return first ++ rest

/-- An absent bound is null. -/
def compileBound (scope : Scope) (line : Option Int) (base : Nat) :
    Option Expr → Except Failure (List Instruction)
  | none => return [⟨.push, .null, line⟩]
  | some e => compileExpr scope line base e

def compileEntries (scope : Scope) (line : Option Int) (base : Nat) :
    List (Constant × Expr) → Except Failure (List Instruction)
  | [] => return []
  | (key, e) :: entries => do
    let first ← compileExpr scope line (base + 1) e
    let rest ← compileEntries scope line (base + 1 + first.length) entries
    return ⟨.push, key.value, line⟩ :: first ++ rest

end

mutual

/-- Number of instructions of a statement. -/
def stmtLength : Stmt → Nat
  | .expr _ value => exprLength value + 1
  | .assign _ _ value => exprLength value + 1
  | .update _ _ _ value => exprLength value + 3
  | .setIndex _ object position value =>
    exprLength object + exprLength position + exprLength value + 1
  | .setMember _ object _ value => exprLength object + exprLength value + 2
  | .branch _ test body elifs otherwise =>
    exprLength test + 1 + stmtsLength body +
      (if elifs.isEmpty && otherwise.isNone then 0 else 1) +
      elifsLength otherwise.isNone elifs + otherwiseLength otherwise
  | .loopTimes _ count body =>
    (if count.count?.isSome then 0 else exprLength count + 2) + 9 + stmtsLength body
  | .loopWhile _ test body => exprLength test + stmtsLength body + 2
  | .loopRange _ _ start stop step body =>
    exprLength start + exprLength stop +
      (match step with
        | some e => if (RangeStep.of step).isKnown then 1 else exprLength e
        | none => 1) +
      (if (RangeStep.of step).isKnown then 7 else 15) + 1 + stmtsLength body + 5
  | .loopEach _ _ items body => exprLength items + 14 + stmtsLength body + 5
  | .leave _ | .again _ | .pass _ => 1
  | .define _ | .defineClass _ _ _ | .alien _ => 0
  | .give _ value => boundLength value + 1

def stmtsLength : List Stmt → Nat
  | [] => 0
  | s :: ss => stmtLength s + stmtsLength ss

/-- Only the last arm of a branch needs no jump over the others. -/
def elifsLength (lastArm : Bool) : List Elif → Nat
  | [] => 0
  | e :: es => elifLength (lastArm && es.isEmpty) e + elifsLength lastArm es

def elifLength (last : Bool) : Elif → Nat
  | .mk _ test body => exprLength test + 1 + stmtsLength body + (if last then 0 else 1)

def otherwiseLength : Option (List Stmt) → Nat
  | none => 0
  | some body => stmtsLength body

end

/-- Names of hidden variables start like this, and are not shown. -/
def rangeMark : String := "__for_"

def eachMark : String := "__foreach_"

/-- Statements are compiled with a supply of numbers for hidden variables. -/
abbrev Compile := StateT Nat (Except Failure)

def freshNumber : Compile Nat := modifyGet fun n => (n, n + 1)

def plainExpr (scope : Scope) (line : Option Int) (base : Nat) (e : Expr) :
    Compile (List Instruction) :=
  liftM (compileExpr scope line base e)

/-- The test that starts every round of a range loop: whether the variable is still before the
end. With a step that is not literal the direction is chosen in every round. -/
def rangeTest (line : Option Int) (base : Nat) (var : Constant) (stop : String) :
    Number ⊕ String → List Instruction
  | .inl step =>
    [⟨.load, var.value, line⟩, ⟨.load, .text stop, line⟩,
     ⟨if Number.lt (.int 0) step then .lt else .gt, .null, line⟩]
  | .inr step =>
    [⟨.load, .text step, line⟩, ⟨.push, .int 0, line⟩, ⟨.gt, .null, line⟩,
     ⟨.jumpIfNot, .int (base + 8 : Nat), line⟩,
     ⟨.load, var.value, line⟩, ⟨.load, .text stop, line⟩, ⟨.lt, .null, line⟩,
     ⟨.jump, .int (base + 11 : Nat), line⟩,
     ⟨.load, var.value, line⟩, ⟨.load, .text stop, line⟩, ⟨.gt, .null, line⟩]

/-- The rounds of a range loop behind its setup; `inner` compiles its body of the given length. -/
def compileRange (line : Option Int) (base : Nat) (setup : List Instruction) (var : Constant)
    (stop : String) (step : Number ⊕ String) (pushStep : Instruction) (length : Nat)
    (inner : LoopTargets → Nat → Compile (List Instruction)) : Compile (List Instruction) := do
  let start := base + setup.length
  let test := rangeTest line start var stop step
  let bodyStart := start + test.length + 1
  let again := bodyStart + length
  let leave := again + 5
  let body ← inner ⟨leave, again⟩ bodyStart
  return setup ++ test ++ ⟨.jumpIfNot, .int leave, line⟩ :: body ++
    [⟨.load, var.value, line⟩, pushStep, ⟨.add, .null, line⟩, ⟨.store, var.value, line⟩,
     ⟨.jump, .int start, line⟩]

mutual

/-- Code of a statement from the address `base` on. `loop` belongs to the innermost loop around it
in the same body. -/
def compileStmt (scope : Scope) (loop : Option LoopTargets) (base : Nat) :
    Stmt → Compile (List Instruction)
  | .expr pos value => do
    let code ← plainExpr scope pos.line base value
    return code ++ [⟨.pop, .null, pos.line⟩]
  | .assign pos target value => do
    let code ← plainExpr scope pos.line base value
    return code ++ [⟨.store, target.value, pos.line⟩]
  | .update pos target op value => do
    match target, updateOpcode? op with
    | .scalar (.text _), none =>
      let sign ← op.sign.name
      scope.refuse pos pos.line s!"Unknown augmented operator '{sign}'"
    | .scalar (.text name), some opcode =>
      let code ← plainExpr scope pos.line (base + 1) value
      return ⟨.load, .text name, pos.line⟩ :: code ++
        [⟨opcode, .null, pos.line⟩, ⟨.store, .text name, pos.line⟩]
    | _, _ => scope.refuse pos pos.line "Augmented assignment needs a variable name on the left"
  | .setIndex pos object position value => do
    let first ← plainExpr scope pos.line base object
    let second ← plainExpr scope pos.line (base + first.length) position
    let third ← plainExpr scope pos.line (base + first.length + second.length) value
    return first ++ second ++ third ++ [⟨.arraySet, .null, pos.line⟩]
  | .setMember pos object property value => do
    let first ← plainExpr scope pos.line base object
    let second ← plainExpr scope pos.line (base + first.length + 1) value
    return first ++ ⟨.push, property.value, pos.line⟩ :: second ++
      [⟨.memberSet, .null, pos.line⟩]
  | .branch pos test body elifs otherwise => do
    let only := elifs.isEmpty && otherwise.isNone
    let first := exprLength test + 1 + stmtsLength body + (if only then 0 else 1)
    let chain := elifsLength otherwise.isNone elifs
    let finish := base + first + chain + otherwiseLength otherwise
    let arm ← plainExpr scope pos.line base test
    let inner ← compileStmts scope loop (base + arm.length + 1) body
    let jumpOut := if only then [] else [⟨.jump, .int finish, pos.line⟩]
    let elifCode ← compileElifs scope loop finish otherwise.isNone (base + first) elifs
    let elseCode ← compileOtherwise scope loop (base + first + chain) otherwise
    return arm ++ ⟨.jumpIfNot, .int (base + first : Nat), pos.line⟩ :: inner ++ jumpOut ++
      elifCode ++ elseCode
  | .loopTimes pos count body => do
    let line := pos.line
    let (setup, limit) : List Instruction × Instruction ←
      match count.count? with
      | some n => pure ([], ⟨.push, .int n, line⟩)
      | none =>
        let name := s!"{rangeMark}count_{← freshNumber}"
        let code ← plainExpr scope line base count
        pure (code ++ [⟨.repeatCount, .null, line⟩, ⟨.store, .text name, line⟩],
          ⟨.load, .text name, line⟩)
    let start := base + setup.length + 1
    let again := start + 4 + stmtsLength body
    let leave := again + 3
    let inner ← compileStmts scope (some ⟨leave, again⟩) (start + 4) body
    return setup ++ ⟨.push, .int 0, line⟩ :: ⟨.dup, .null, line⟩ :: limit :: ⟨.gte, .null, line⟩ ::
      ⟨.jumpIf, .int leave, line⟩ :: inner ++
      [⟨.push, .int 1, line⟩, ⟨.add, .null, line⟩, ⟨.jump, .int start, line⟩, ⟨.pop, .null, line⟩]
  | .loopWhile pos test body => do
    let line := pos.line
    let code ← plainExpr scope line base test
    let leave := base + code.length + 1 + stmtsLength body + 1
    let inner ← compileStmts scope (some ⟨leave, base⟩) (base + code.length + 1) body
    return code ++ ⟨.jumpIfNot, .int leave, line⟩ :: inner ++ [⟨.jump, .int base, line⟩]
  | .loopRange pos var start stop step body => do
    let line := pos.line
    match RangeStep.of step with
    | .unfit => throw (.host .mistyped)
    | .known v =>
      if v.weight?.any Number.isZero then
        scope.refuse (step.elim {} Expr.pos) line "range() step cannot be zero"
          (some "Use a positive step to count up or a negative one to count down.")
      else
        let stopName := s!"{rangeMark}end_{← freshNumber}"
        let first ← plainExpr scope line base start
        let second ← plainExpr scope line (base + first.length) stop
        let setup := first ++ second ++
          [⟨.push, v, line⟩, ⟨.rangeCheck, .null, line⟩, ⟨.pop, .null, line⟩,
           ⟨.store, .text stopName, line⟩, ⟨.store, var.value, line⟩]
        match v.weight? with
        | none => throw (.host .mistyped)
        | some n =>
          compileRange line base setup var stopName (.inl n) ⟨.push, v, line⟩
            (stmtsLength body) fun targets start => compileStmts scope (some targets) start body
    | .computed =>
      let suffix ← freshNumber
      let stopName := s!"{rangeMark}end_{suffix}"
      let stepName := s!"{rangeMark}step_{suffix}"
      let first ← plainExpr scope line base start
      let second ← plainExpr scope line (base + first.length) stop
      let third ← liftM
        (compileBound scope line (base + first.length + second.length) step)
      let setup := first ++ second ++ third ++
        [⟨.rangeCheck, .null, line⟩, ⟨.store, .text stepName, line⟩,
         ⟨.store, .text stopName, line⟩, ⟨.store, var.value, line⟩]
      compileRange line base setup var stopName (.inr stepName) ⟨.load, .text stepName, line⟩
        (stmtsLength body) fun targets start => compileStmts scope (some targets) start body
  | .loopEach pos var items body => do
    let line := pos.line
    let suffix ← freshNumber
    let list := s!"{eachMark}arr_{suffix}"
    let length := s!"{eachMark}len_{suffix}"
    let index := s!"{eachMark}idx_{suffix}"
    let code ← plainExpr scope line base items
    let start := base + code.length + 6
    let again := start + 8 + stmtsLength body
    let leave := again + 5
    let inner ← compileStmts scope (some ⟨leave, again⟩) (start + 8) body
    return code ++
      [⟨.store, .text list, line⟩, ⟨.load, .text list, line⟩,
       ⟨.call, .text (callOperand "len" 1), line⟩, ⟨.store, .text length, line⟩,
       ⟨.push, .int 0, line⟩, ⟨.store, .text index, line⟩,
       ⟨.load, .text index, line⟩, ⟨.load, .text length, line⟩, ⟨.lt, .null, line⟩,
       ⟨.jumpIfNot, .int leave, line⟩,
       ⟨.load, .text list, line⟩, ⟨.load, .text index, line⟩, ⟨.arrayGet, .null, line⟩,
       ⟨.store, var.value, line⟩] ++ inner ++
      [⟨.load, .text index, line⟩, ⟨.push, .int 1, line⟩, ⟨.add, .null, line⟩,
       ⟨.store, .text index, line⟩, ⟨.jump, .int start, line⟩]
  | .leave pos =>
    match loop with
    | some targets => return [⟨.jump, .int targets.leave, pos.line⟩]
    | none =>
      scope.refuse pos pos.line "'break' outside of a loop"
        (some "break can only be used inside repeat, while or for.")
  | .again pos =>
    match loop with
    | some targets => return [⟨.jump, .int targets.again, pos.line⟩]
    | none =>
      scope.refuse pos pos.line "'continue' outside of a loop"
        (some "continue can only be used inside repeat, while or for.")
  | .pass pos => return [⟨.nop, .null, pos.line⟩]
  | .define function =>
    scope.refuse function.pos function.pos.line
      s!"Function '{function.name}' must be defined at the top level"
      (some "Move the def out of the block, without indentation.")
  | .defineClass pos name _ =>
    scope.refuse pos pos.line s!"Class '{name}' must be defined at the top level"
  | .give pos value => do
    let code ← liftM (compileBound scope pos.line base value)
    return code ++ [⟨.ret, .null, pos.line⟩]
  | .alien node =>
    scope.refuse node.pos node.pos.line s!"Cannot compile statement {node.label}"

def compileStmts (scope : Scope) (loop : Option LoopTargets) (base : Nat) :
    List Stmt → Compile (List Instruction)
  | [] => return []
  | s :: ss => do
    let first ← compileStmt scope loop base s
    let rest ← compileStmts scope loop (base + first.length) ss
    return first ++ rest

def compileElifs (scope : Scope) (loop : Option LoopTargets) (finish : Nat) (lastArm : Bool)
    (base : Nat) : List Elif → Compile (List Instruction)
  | [] => return []
  | e :: es => do
    let first ← compileElif scope loop finish (lastArm && es.isEmpty) base e
    let rest ← compileElifs scope loop finish lastArm (base + first.length) es
    return first ++ rest

def compileElif (scope : Scope) (loop : Option LoopTargets) (finish : Nat) (last : Bool)
    (base : Nat) : Elif → Compile (List Instruction)
  | .mk pos test body => do
    let arm ← plainExpr scope pos.line base test
    let inner ← compileStmts scope loop (base + arm.length + 1) body
    let jumpOut := if last then [] else [⟨.jump, .int finish, pos.line⟩]
    let next := base + arm.length + 1 + inner.length + jumpOut.length
    return arm ++ ⟨.jumpIfNot, .int next, pos.line⟩ :: inner ++ jumpOut

def compileOtherwise (scope : Scope) (loop : Option LoopTargets) (base : Nat) :
    Option (List Stmt) → Compile (List Instruction)
  | none => return []
  | some body => compileStmts scope loop base body

end

/-- Code of a function: arguments arrive in order, so the last one is on top of the stack. Without a
return it gives null. -/
def compileFunction (scope : Scope) (base : Nat) (f : Func) : Compile (List Instruction) := do
  let line := f.pos.line
  let stores : List Instruction := f.params.reverse.map fun param => ⟨.store, param.value, line⟩
  let body ← compileStmts scope none (base + stores.length) f.body
  return stores ++ body ++ [⟨.push, .null, none⟩, ⟨.ret, .null, none⟩]

/-- The main body. With `keepResult` the value of a last expression stays on the stack. -/
def compileMain (scope : Scope) (keepResult : Bool) (base : Nat) (body : List Stmt) :
    Compile (List Instruction) := do
  match keepResult, body.getLast? with
  | true, some (.expr pos value) =>
    let first ← compileStmts scope none base body.dropLast
    let last ← plainExpr scope pos.line (base + first.length) value
    return first ++ last ++ [⟨.halt, .null, none⟩]
  | _, _ => return (← compileStmts scope none base body) ++ [⟨.halt, .null, none⟩]

/-- Adds functions behind the code compiled so far. -/
def addFunctions (scope : Scope) : List (Name × Func) → Code → Compile Code
  | [], code => return code
  | (name, f) :: fs, code => do
    let body ← compileFunction scope code.size f
    addFunctions scope fs
      { code with
        instructions := code.instructions ++ body.toArray
        functions := code.functions.put name code.size
        arities := code.arities.put name f.params.length }

/-- Adds the methods of a class; `found` are those of it already added. -/
def addMethods (scope : Scope) (className : Name) :
    List Func → Bindings Int → Code → Compile Code
  | [], found, code => return { code with classes := code.classes.put className found }
  | f :: fs, found, code => do
    let code' ← addFunctions scope [(.text s!"{className}.{f.name}", f)] code
    addMethods scope className fs (found.put (← f.name.name) code.size) code'

def addClasses (scope : Scope) : List (Name × List Func) → Code → Compile Code
  | [], code => return code
  | (name, methods) :: classes, code => do
    addClasses scope classes (← addMethods scope name methods [] code)

end Code

namespace Program

/-- What is defined at the top level has a name. -/
def checkDefinitions (program : Program) : Except Failure Unit :=
  program.body.forM fun
    | .define f => discard f.name.name
    | .defineClass _ name _ => discard name.name
    | _ => return

/-- The functions defined at the top level; a later definition replaces an earlier one. -/
def functions (program : Program) : Bindings Func :=
  Bindings.ofList (program.body.filterMap fun
    | .define f => f.name.scalar?.map fun name => (name, f)
    | _ => none)

/-- The classes defined at the top level, each with its position and its methods. -/
def classes (program : Program) : Bindings (Pos × List Func) :=
  Bindings.ofList (program.body.filterMap fun
    | .defineClass pos name methods => name.scalar?.map fun name => (name, (pos, methods))
    | _ => none)

/-- The statements that are not definitions. -/
def main (program : Program) : List Stmt :=
  program.body.filter fun
    | .define _ | .defineClass _ _ _ => false
    | _ => true

/-- Whether names can be put in order: texts go with texts and numbers with numbers. -/
def areOrdered (names : List Name) : Bool :=
  names.length ≤ 1 || names.all Scalar.isText || names.all fun name => name.weight?.isSome

def scope (program : Program) (filename : String) : Scope where
  classes := program.classes.keys
  functions := program.functions.keys
  filename := filename

/-- Compiles a program; `keepResult` leaves the value of a last expression on the stack. The names
of the functions, and those of the classes, have to have an order. -/
def compile (program : Program) (filename : String) (keepResult : Bool := false) :
    Except Failure Code :=
  let scope := program.scope filename
  let registrations : List Instruction :=
    program.classes.map fun (name, (pos, _)) => ⟨.classDef, name.toValue, pos.line⟩
  let whole : Code.Compile Code := do
    program.checkDefinitions
    let main ← Code.compileMain scope keepResult registrations.length program.main
    let code : Code := { instructions := (registrations ++ main).toArray }
    let code ← Code.addFunctions scope program.functions code
    let code ← Code.addClasses scope
      (program.classes.map fun (name, (_, methods)) => (name, methods)) code
    if areOrdered program.functions.names && areOrdered program.classes.names then return code
    else throw (.host .mistyped)
  (whole.run 0).map Prod.fst

end Program

end Stepwise
