import Stepwise.Machine
import Stepwise.Value.Access
import Stepwise.Value.Operators

/-!
One instruction of the stack machine, and the step that executes it. An instruction takes its
operands before it checks them, so a fault leaves them off the stack and all else as it was.
-/
namespace Stepwise.Machine

abbrev Action (α : Type) := Act Machine α

def emptyStack {α : Type} : Action α := throw (.fault (.running "Operand stack is empty" none))

def refuse {α : Type} (message : String) (suggestion : Option String := none) : Action α :=
  throw (.fault (.running message suggestion))

def getHeap : Action Heap := return (← get).heap

def setHeap (heap : Heap) : Action Unit :=
  modify fun m => { m with world := m.world.withHeap heap }

def push (v : Value) : Action Unit := modify fun m => { m with stack := v :: m.stack }

def pop : Action Value := do
  match (← get).stack with
  | [] => emptyStack
  | v :: rest =>
    modify fun m => { m with stack := rest }
    return v

def peek : Action Value := do
  match (← get).stack with
  | [] => emptyStack
  | v :: _ => return v

/-- Takes the topmost values off the stack, the topmost one last. A negative count says instead how
many values stay. -/
def take (count : Int) : Action (List Value) := do
  let m ← get
  let height := m.stack.length
  if count > height then emptyStack
  else
    let taken := if count < 0 then height - count.natAbs else count.toNat
    set { m with stack := m.stack.drop taken }
    return (m.stack.take taken).reverse

/-- Puts values on the stack, the last one on top. -/
def pushAll (values : List Value) : Action Unit :=
  modify fun m => { m with stack := values.reverse ++ m.stack }

def jumpTo (address : Int) : Action Unit := modify fun m => { m with pc := address }

def lookup (name : Name) : Action Value := do
  let m ← get
  match (m.frames.head?.bind fun frame => frame.locals.get? name).or (m.globals.get? name) with
  | some v => return v
  | none => throw (.fault (undefinedVariable name))

/-- Binds a variable of the innermost call, or a global one outside of calls. -/
def store (name : Name) (v : Value) : Action Unit :=
  modify fun m =>
    match m.frames with
    | [] => { m with toEngine := m.toEngine.setGlobal name v }
    | frame :: callers =>
      { m with frames := { frame with locals := frame.locals.put name v } :: callers }

def binary (op : BinaryOp) : Action Unit := do
  let b ← pop
  let a ← pop
  push (← Value.binary op (← getHeap) a b)

/-- Lets the engine make a call that leaves the program. -/
def outside (call : Engine → Except Failure Value × Engine) : Action Value :=
  fun m =>
    let (result, engine) := call m.toEngine
    (result, { m with toEngine := engine })

/-- The operand as a name, for which only a value without parts serves. -/
def nameOf (i : Instruction) : Action Name :=
  match i.operand.scalar? with
  | some name => return name
  | none => throw (.host .mistyped)

/-- The operand as an address. -/
def addressOf (i : Instruction) : Action Int :=
  match i.operand.weight? with
  | some (.int address) => return address
  | _ => throw (.host .mistyped)

/-- Takes `factor` times as many values off the stack as the operand says. A number that is not an
integer is only compared with the height of the stack. -/
def takeCounted (i : Instruction) (factor : Int) : Action (List Value) := do
  match i.operand.weight? with
  | some (.int count) => take (factor * count)
  | some (.float count) =>
    let count := count * Float.ofInt factor
    if Number.lt (.int (← get).stack.length) (.float count) then emptyStack
    else if Number.isZero (.float count) then return []
    else throw (.host .mistyped)
  | none => throw (.host .mistyped)

/-- The operand as a callee and the number of its arguments. -/
def calleeOf (i : Instruction) : Action (String × Int) :=
  match i.operand with
  | .text operand =>
    match readCallOperand? operand with
    | some callee => return callee
    | none => throw (.host .malformed)
  | _ => throw (.host .notText)

/-- The part of a qualified name behind its first point. -/
def unqualified (name : String) : String :=
  match name.toList.dropWhile (· ≠ '.') with
  | [] => name
  | _ :: rest => String.ofList rest

def isConstructor (name : String) : Bool :=
  ('.' :: constructorName.toList).isSuffixOf name.toList

/-- Opens a call. A receiver is an argument of its own that the caller did not write. -/
def enter (name : String) (address argc : Int) (line : Option Int) (base : Int)
    (receiver : Option Value) : Action Unit := do
  let m ← get
  let hidden : Int := if receiver.isSome then 1 else 0
  match m.code.bind fun code => code.arities.get? name with
  | some expected =>
    if expected ≠ argc + hidden then
      let shown := if receiver.isSome then unqualified name else name
      let wanted := expected - hidden
      refuse s!"{shown}() takes {wanted} argument(s) but {argc} were given"
  | none => pure ()
  if m.maxCallDepth ≤ m.frames.length then throw (.fault depthExceeded)
  let frame : CallFrame :=
    { returnAddress := m.pc
      functionName := name
      callLine := line
      stackBase := base
      isConstructor := receiver.isSome && isConstructor name
      receiver }
  set { m with frames := frame :: m.frames, pc := address }

/-- The part of the stack below a height; a negative height counts down from the top. -/
def below (base : Int) (stack : List Value) : List Value :=
  let height := if base < 0 then base + stack.length else base
  stack.drop (stack.length - height.toNat)

/-- Ends the innermost call, or the program outside of calls. What the call left on the stack is
dropped. -/
def leave : Action Unit := do
  let v ← pop
  let m ← get
  match m.frames with
  | [] =>
    set { m with stack := [v], status := .completed, report := { m.report with done := true } }
  | frame :: callers =>
    let result := if frame.isConstructor then frame.receiver.getD .null else v
    set { m with
      frames := callers
      stack := result :: below frame.stackBase m.stack
      pc := frame.returnAddress }

/-- Pairs up keys and values that alternate. -/
def pairUp (heap : Heap) : List Value → Action (List (Name × Value))
  | [] => return []
  | key :: v :: rest => return (.text (← key.plain heap), v) :: (← pairUp heap rest)
  | [_] => throw (.host .outOfBounds)

/-- Creates an instance. The constructor finds it on the stack below its arguments. -/
def instantiate (className : String) (argc : Int) (line : Option Int) : Action Unit := do
  let args ← take argc
  match (← get).classes.get? className with
  | none => refuse s!"Undefined class '{className}'"
  | some methods =>
    match methods.get? constructorName with
    | none =>
      if args.isEmpty then
        let (v, heap) := (← getHeap).newInst className []
        setHeap heap
        push v
      else
        refuse s!"{className}() takes no arguments" (some "Define __init__ to accept arguments.")
    | some address =>
      let (v, heap) := (← getHeap).newInst className []
      setHeap heap
      let base := (← get).stack.length
      pushAll (v :: args)
      enter s!"{className}.{constructorName}" address argc line base (some v)

/-- Calls a method of an instance, or the built-in function of that name on another value. -/
def callMethod (method : String) (argc : Int) (line : Option Int) : Action Unit := do
  match ← take argc with
  | [] => throw (.host .outOfBounds)
  | receiver :: args =>
    let m ← get
    match receiver with
    | .inst ref =>
      let className := m.heap.className ref
      match (m.classes.get? className).bind fun methods => methods.get? method with
      | none => refuse s!"Class \"{className}\" has no method \"{method}\""
      | some address =>
        pushAll (receiver :: args)
        enter s!"{className}.{method}" address (argc - 1) line m.stack.length (some receiver)
    | _ =>
      if (Builtin.ofName? method).isSome then
        push (← outside fun engine => engine.callBuiltin method (receiver :: args))
      else
        let typeName := receiver.typeName m.heap
        refuse s!"A {typeName} has no method \"{method}\""

def execute (i : Instruction) : Action Unit := do
  match i.op with
  | .push => push i.operand
  | .pop => discard pop
  | .dup => push (← peek)
  | .load => push (← lookup (← nameOf i))
  | .store =>
    let v ← pop
    store (← nameOf i) v
  | .add => binary .add
  | .sub => binary .sub
  | .mul => binary .mul
  | .div => binary .div
  | .mod => binary .mod
  | .floorDiv => binary .floorDiv
  | .pow => binary .pow
  | .eq => binary .eq
  | .neq => binary .ne
  | .lt => binary .lt
  | .gt => binary .gt
  | .lte => binary .le
  | .gte => binary .ge
  | .isIn => binary .isIn
  | .neg =>
    let v ← pop
    push (← Value.negate (← getHeap) v)
  | .not =>
    let v ← pop
    push (.bool !(v.isTruthy (← getHeap)))
  | .jump => jumpTo (← addressOf i)
  | .jumpIf =>
    let v ← pop
    if v.isTruthy (← getHeap) then jumpTo (← addressOf i)
  | .jumpIfNot =>
    let v ← pop
    unless v.isTruthy (← getHeap) do jumpTo (← addressOf i)
  | .halt =>
    modify fun m =>
      { m with pc := m.pc - 1, status := .completed, report := { m.report with done := true } }
  | .nop => pure ()
  | .repeatCount =>
    let v ← pop
    push (.int (← Value.repeatCount (← getHeap) v))
  | .rangeCheck =>
    let bounds ← take 3
    match bounds with
    | [start, stop, step] => Value.checkRange start stop step
    | _ => pure ()
    pushAll bounds
  | .call =>
    let (name, argc) ← calleeOf i
    let args ← take argc
    push (← outside fun engine => engine.call name args)
  | .callUser =>
    let (name, argc) ← calleeOf i
    let m ← get
    match m.code.bind fun code => code.functions.get? name with
    | none => refuse s!"Undefined function '{name}'"
    | some address => enter name address argc i.line (m.stack.length - argc) none
  | .ret => leave
  | .arrayCreate =>
    let values ← takeCounted i 1
    let (v, heap) := (← getHeap).newList values.toArray
    setHeap heap
    push v
  | .arrayGet =>
    let position ← pop
    let object ← pop
    push (← Value.getIndex (← getHeap) object position)
  | .arraySet =>
    let v ← pop
    let position ← pop
    let object ← pop
    setHeap (← Value.setIndex (← getHeap) object position v)
  | .slice =>
    let stop ← pop
    let start ← pop
    let object ← pop
    let (v, heap) ← Value.slice (← getHeap) object start stop
    setHeap heap
    push v
  | .objectCreate =>
    let entries ← pairUp (← getHeap) (← takeCounted i 2)
    let (v, heap) := (← getHeap).newMap (Bindings.ofList entries)
    setHeap heap
    push v
  | .classDef =>
    let name ← nameOf i
    modify fun m =>
      let methods := (m.code.bind fun code => code.classes.get? name).getD []
      { m with classes := m.classes.put name methods }
  | .new =>
    let (className, argc) ← calleeOf i
    instantiate className argc i.line
  | .memberGet =>
    let name ← pop
    let object ← pop
    let heap ← getHeap
    push (← Value.getMember heap object (← name.plain heap))
  | .memberSet =>
    let v ← pop
    let name ← pop
    let object ← pop
    let heap ← getHeap
    setHeap (← Value.setMember heap object (← name.plain heap) v)
  | .methodCall =>
    let (method, argc) ← calleeOf i
    callMethod method argc i.line

def snapshot (m : Machine) : Snapshot where
  pc := m.pc
  stack := m.stack
  globals := m.globals
  frames := m.frames
  classes := m.classes
  stepCount := m.stepCount
  outputLength := m.world.output.size
  heap := m.heap

/-- Keeps a snapshot; the oldest one goes when there are too many. -/
def remember (m : Machine) : Machine :=
  { m with history := (m.snapshot :: m.history).take m.historyCap }

/-- Executes the instruction `i` at the address of the machine. -/
def advanceBy (m : Machine) (i : Instruction) : Driven StepReport × Machine :=
  match execute i { m with pc := m.pc + 1, report := { highlightLine := i.line } } with
  | (.ok (), next) => (.ok next.report, next)
  | (.error (.fault fault), next) =>
    (.ok { done := true, highlightLine := i.line },
      { next with pc := m.pc, toEngine := next.toEngine.fail (fault.withLine i.line) })
  | (.error (.host failure), next) => (.error failure, next)

/-- Executes the next instruction; behind the last one the program is complete. -/
def advance (m : Machine) : Driven StepReport × Machine :=
  match m.code with
  | none => (.ok .ended, m)
  | some code =>
    if code.size ≤ m.pc then (.ok .ended, { m with status := .completed })
    else match code.at? m.pc with
      | none => (.error .outOfBounds, m)
      | some i => m.advanceBy i

/-- One step. A machine that is finished stays as it is; otherwise the step counts towards the
limit, which it may exceed. -/
def step (m : Machine) : Driven StepReport × Machine :=
  if m.finished then (.ok .ended, m)
  else
    let begun := { m.remember with status := .running, stepCount := m.stepCount + 1 }
    if begun.maxSteps < begun.stepCount then
      if begun.isAstray then (.error .outOfBounds, begun)
      else
        (.ok .ended,
          { begun with toEngine := begun.toEngine.fail (begun.tooManySteps begun.currentLine) })
    else begun.advance

/-- Steps until a step is done, acts or pauses, at most `fuel` times. -/
def runFor : Nat → Machine → Driven StepReport × Machine
  | 0, m => (.ok .ended, m)
  | fuel + 1, m =>
    match m.step with
    | (.error failure, m) => (.error failure, m)
    | (.ok report, m) =>
      if report.done || report.acted || m.status = .paused then (.ok report, m)
      else runFor fuel m

def run (m : Machine) : Driven StepReport × Machine := m.runFor m.stepsLeft

/-- Steps until a step is done, at most `fuel` times, and collects the reports of the steps that
acted. -/
def runAllFor : Nat → List StepReport → Machine → Driven (List StepReport) × Machine
  | 0, acted, m => (.ok acted.reverse, m)
  | fuel + 1, acted, m =>
    match m.step with
    | (.error failure, m) => (.error failure, m)
    | (.ok report, m) =>
      let acted := if report.acted then report :: acted else acted
      if report.done then (.ok acted.reverse, m) else runAllFor fuel acted m

def runAll (m : Machine) : Driven (List StepReport) × Machine := m.runAllFor m.stepsLeft []

end Stepwise.Machine
