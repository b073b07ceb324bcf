import Stepwise.Value.Access
import Stepwise.Value.Operators
import Stepwise.Walker

/-!
Evaluating expressions and running statements to their end. Trees are followed structurally; a call
of a function goes through `Invoke`, which has one level of depth less to spend each time.
-/
namespace Stepwise

/-- How a statement ends: by going on, by leaving or continuing a loop, or by returning. -/
inductive Flow where
  | next
  | leave
  | again
  | give (v : Value)
  deriving Inhabited

namespace Walker

abbrev Walk (α : Type) := Act Walker α

/-- Calls a function on its arguments. A bound call has a receiver that the caller did not write. -/
abbrev Invoke := Func → List Value → Bool → Walk Value

def refuse {α : Type} (message : String) (suggestion : Option String := none) : Walk α :=
  throw (.fault (.running message suggestion))

def refuseAt {α : Type} (line : Option Int) (message : String)
    (suggestion : Option String := none) : Walk α :=
  throw (.fault { Fault.running message suggestion with line })

def getHeap : Walk Heap := return (← get).heap

def setHeap (heap : Heap) : Walk Unit :=
  modify fun w => { w with world := w.world.withHeap heap }

def setLine (line : Option Int) : Walk Unit := modify fun w => { w with line }

def lookup (name : Name) : Walk Value := do
  let w ← get
  match (w.locals.bind fun locals => locals.get? name).or (w.globals.get? name) with
  | some v => return v
  | none => throw (.fault (undefinedVariable name))

/-- Binds a variable of the call under way, or a global one outside of calls. -/
def store (name : Name) (v : Value) : Walk Unit :=
  modify fun w =>
    match w.locals with
    | none => { w with toEngine := w.toEngine.setGlobal name v }
    | some locals => { w with locals := some (locals.put name v) }

/-- Lets the engine make a call that leaves the program. -/
def outside (call : Engine → Except Failure Value × Engine) : Walk Value :=
  fun w =>
    let (result, engine) := call w.toEngine
    (result, { w with toEngine := engine })

def instantiate (invoke : Invoke) (className : Name) (args : List Value) : Walk Value := do
  match (← get).classes.get? className with
  | none => refuse s!"Undefined class '{className}'"
  | some methods =>
    match methods.get? constructorName with
    | none =>
      if args.isEmpty then
        let (v, heap) := (← getHeap).newInst className []
        setHeap heap
        return v
      else
        refuse s!"{className}() takes no arguments" (some "Define __init__ to accept arguments.")
    | some method =>
      let (v, heap) := (← getHeap).newInst className []
      setHeap heap
      let _ ← invoke method (v :: args) true
      return v

/-- A plain call: classes come first, then the functions of the program. -/
def call (invoke : Invoke) (name : Name) (args : List Value) : Walk Value := do
  let w ← get
  if w.classes.has name then instantiate invoke name args
  else match w.functions.get? name with
    | some f => invoke f args false
    | none => outside fun engine => engine.call name args

/-- Calls a method of an instance, or the built-in function of that name on another value. -/
def callMethod (invoke : Invoke) (receiver : Value) (method : Name) (args : List Value) :
    Walk Value := do
  let w ← get
  match receiver with
  | .inst ref =>
    let className := w.heap.className ref
    match (w.classes.get? className).bind fun methods => methods.get? method with
    | none => refuse s!"Class \"{className}\" has no method \"{method}\""
    | some f => invoke f (receiver :: args) true
  | _ =>
    if (Builtin.ofName? method).isSome then
      outside fun engine => engine.callBuiltin method (receiver :: args)
    else
      let typeName := receiver.typeName w.heap
      refuse s!"A {typeName} has no method \"{method}\""

/-- The name of a member. What cannot name one is only noticed where members are looked for. -/
def memberName (object : Value) (property : Constant) : Walk Name :=
  match object with
  | .inst _ | .map _ => property.name
  | _ => return property.scalar?.getD (.text property.plain)

mutual

def eval (invoke : Invoke) : Expr → Walk Value
  | .literal _ _ value => return value.value
  | .var _ name => do lookup (← name.name)
  | .binary _ .and left right => do
    let v ← eval invoke left
    if v.isTruthy (← getHeap) then eval invoke right else return v
  | .binary _ .or left right => do
    let v ← eval invoke left
    if v.isTruthy (← getHeap) then return v else eval invoke right
  | .binary _ op left right => do
    let a ← eval invoke left
    let b ← eval invoke right
    Value.binary op (← getHeap) a b
  | .unary pos op operand => do
    let v ← eval invoke operand
    match op with
    | .neg => Value.negate (← getHeap) v
    | .not => return .bool !(v.isTruthy (← getHeap))
    | .unknown sign => refuseAt pos.line s!"Unknown operator '{sign}'"
  | .call _ callee args => do
    let args ← evalAll invoke args
    call invoke (← callee.name) args
  | .new _ className args => do
    let args ← evalAll invoke args
    instantiate invoke (← className.name) args
  | .invoke _ object method args => do
    let receiver ← eval invoke object
    let args ← evalAll invoke args
    callMethod invoke receiver (← method.name) args
  | .list _ elements => do
    let values ← evalAll invoke elements
    let (v, heap) := (← getHeap).newList values.toArray
    setHeap heap
    return v
  | .record _ entries => do
    let entries ← evalEntries invoke entries
    let (v, heap) := (← getHeap).newMap (Bindings.ofList entries)
    setHeap heap
    return v
  | .index _ object position => do
    let object ← eval invoke object
    let position ← eval invoke position
    Value.getIndex (← getHeap) object position
  | .slice _ object start stop => do
    let object ← eval invoke object
    let start ← evalOption invoke start
    let stop ← evalOption invoke stop
    let (v, heap) ← Value.slice (← getHeap) object start stop
    setHeap heap
    return v
  | .member _ object property => do
    let object ← eval invoke object
    Value.getMember (← getHeap) object (← memberName object property)
  | .alien node => refuseAt node.pos.line s!"Unknown expression type {node.label}"

def evalAll (invoke : Invoke) : List Expr → Walk (List Value)
  | [] => return []
  | e :: rest => do
    let v ← eval invoke e
    return v :: (← evalAll invoke rest)

def evalOption (invoke : Invoke) : Option Expr → Walk Value
  | none => return .null
  | some e => eval invoke e

def evalEntries (invoke : Invoke) : List (Constant × Expr) → Walk (List (Name × Value))
  | [] => return []
  | (key, e) :: rest => do
    let key ← written key.plain?
    let v ← eval invoke e
    return (.text key, v) :: (← evalEntries invoke rest)

end

def test (invoke : Invoke) (e : Expr) : Walk Bool := do
  let v ← eval invoke e
  return v.isTruthy (← getHeap)

/-- How often a loop runs. A call in the count may have moved the line. -/
def countOf (invoke : Invoke) (line : Option Int) (count : Expr) : Walk Nat := do
  let v ← eval invoke count
  setLine line
  Value.repeatCount (← getHeap) v

/-- Start, end and step of a range; the step is one unless given. -/
def boundsOf (invoke : Invoke) (line : Option Int) (start stop : Expr) (step : Option Expr) :
    Walk (Value × Value × Value) := do
  let first ← eval invoke start
  let last ← eval invoke stop
  let step ← match step with
    | none => pure (.int 1)
    | some e => eval invoke e
  setLine line
  Value.checkRange first last step
  return (first, last, step)

/-- What a loop runs over. It is taken before the first round, so that the body may change the
list. -/
def itemsOf (invoke : Invoke) (line : Option Int) (items : Expr) : Walk (List Value) := do
  let v ← eval invoke items
  let heap ← getHeap
  match v with
  | .list ref => return (heap.items ref).toList
  | .text s => return s.toList.map fun c => .text c.toString
  | _ =>
    let typeName := v.typeName heap
    refuseAt line s!"Can only loop over a list or a string, got {typeName}"
      (some "Check that the value after 'in' is a list or a string.")

/-- Whether a value of the loop variable comes before the end, in the direction of the step. -/
def inRange (v stop step : Value) : Walk Bool := do
  let up := match step with
    | .number n => Number.lt (.int 0) n
    | _ => false
  let heap ← getHeap
  let result ← if up then Value.lessThan heap v stop else Value.greaterThan heap v stop
  return result.isTruthy heap

/-- Counts a statement against the limit of the step. -/
def begin (line : Option Int) : Walk Unit := do
  modify fun w => { w with line, begun := w.begun + 1 }
  let w ← get
  if w.maxSteps < w.begun then throw (.fault (w.tooManySteps line))

/-- More rounds than anyone waits for. -/
def endlessRounds : Nat := pow2 40

/-- A bound on the rounds of one loop: each round begins a statement of the body, and the last one
goes over the limit. A body without statements begins none, so that only the test ends its loop. -/
def roundLimit (w : Walker) (body : List Stmt) : Nat :=
  if body.isEmpty then endlessRounds else w.maxSteps.toNat + 1

/-- Runs a body a number of times. -/
def runTimes (body : Walk Flow) : Nat → Walk Flow
  | 0 => return .next
  | count + 1 => do
    match ← body with
    | .next | .again => runTimes body count
    | .leave => return .next
    | .give v => return .give v

/-- Runs a body while a test holds, with `advance` after each round that ends normally. -/
def runWhile (line : Option Int) (test : Walk Bool) (body : Walk Flow) (advance : Walk Unit) :
    Nat → Walk Flow
  | 0 => do throw (.fault ((← get).tooManySteps line))
  | rounds + 1 => do
    if ← test then
      match ← body with
      | .next | .again =>
        advance
        runWhile line test body advance rounds
      | .leave => return .next
      | .give v => return .give v
    else return .next

/-- Runs a body once for each item. -/
def runEach (var : Constant) (body : Walk Flow) : List Value → Walk Flow
  | [] => return .next
  | item :: rest => do
    store (← var.name) item
    match ← body with
    | .next | .again => runEach var body rest
    | .leave => return .next
    | .give v => return .give v

/-- Adds the step to the variable of a range loop. -/
def advanceRange (var : Name) (step : Value) : Walk Value := do
  let v ← lookup var
  let v ← Value.add (← getHeap) v step
  store var v
  return v

mutual

/-- Runs a statement to its end; `inLoop` says whether a loop is open around it. -/
def exec (invoke : Invoke) (inLoop : Bool) : Stmt → Walk Flow
  | .expr pos value => do
    begin pos.line
    let _ ← eval invoke value
    return .next
  | .assign pos target value => do
    begin pos.line
    let v ← eval invoke value
    store (← target.name) v
    return .next
  | .update pos target op value => do
    begin pos.line
    let name ← target.name
    let old ← lookup name
    let operand ← eval invoke value
    match op.base? with
    | none => throw (.host .mistyped)
    | some op =>
      store name (← Value.binary op (← getHeap) old operand)
      return .next
  | .setIndex pos object position value => do
    begin pos.line
    let object ← eval invoke object
    let position ← eval invoke position
    let v ← eval invoke value
    setHeap (← Value.setIndex (← getHeap) object position v)
    return .next
  | .setMember pos object property value => do
    begin pos.line
    let object ← eval invoke object
    let v ← eval invoke value
    setHeap (← Value.setMember (← getHeap) object (← memberName object property) v)
    return .next
  | .branch pos condition body elifs otherwise => do
    begin pos.line
    if ← test invoke condition then execBlock invoke inLoop body
    else execElifs invoke inLoop (execOtherwise invoke inLoop otherwise) elifs
  | .loopTimes pos count body => do
    begin pos.line
    let count ← countOf invoke pos.line count
    runTimes (execBlock invoke true body) count
  | .loopWhile pos condition body => do
    begin pos.line
    runWhile pos.line (test invoke condition) (execBlock invoke true body) (pure ())
      ((← get).roundLimit body)
  | .loopRange pos var start stop step body => do
    begin pos.line
    let (first, last, step) ← boundsOf invoke pos.line start stop step
    let var ← var.name
    store var first
    runWhile pos.line (do inRange (← lookup var) last step) (execBlock invoke true body)
      (discard (advanceRange var step)) ((← get).roundLimit body)
  | .loopEach pos var items body => do
    begin pos.line
    let items ← itemsOf invoke pos.line items
    runEach var (execBlock invoke true body) items
  | .leave pos => do
    begin pos.line
    if inLoop then return .leave
    else refuseAt pos.line "'break' outside loop" (some "break can only be used inside a loop.")
  | .again pos => do
    begin pos.line
    if inLoop then return .again
    else
      refuseAt pos.line "'continue' outside loop" (some "continue can only be used inside a loop.")
  | .pass pos => do
    begin pos.line
    return .next
  | .define f => do
    begin f.pos.line
    let name := f.name
    refuseAt f.pos.line s!"Function '{name}' must be defined at the top level"
      (some "Move the def out of the block it is in.")
  | .defineClass pos name _ => do
    begin pos.line
    refuseAt pos.line s!"Class '{name}' must be defined at the top level"
      (some "Move the class out of the block it is in.")
  | .give pos value => do
    begin pos.line
    return .give (← evalOption invoke value)
  | .alien node => do
    begin node.pos.line
    refuseAt node.pos.line s!"Unknown statement type {node.label}"

/-- Runs statements in order until one does not go on. -/
def execBlock (invoke : Invoke) (inLoop : Bool) : List Stmt → Walk Flow
  | [] => return .next
  | s :: rest => do
    match ← exec invoke inLoop s with
    | .next => execBlock invoke inLoop rest
    | flow => return flow

/-- Runs the first of some further branches whose test holds, or else the last resort. -/
def execElifs (invoke : Invoke) (inLoop : Bool) (lastResort : Walk Flow) : List Elif → Walk Flow
  | [] => lastResort
  | e :: rest => execElif invoke inLoop (execElifs invoke inLoop lastResort rest) e

def execElif (invoke : Invoke) (inLoop : Bool) (others : Walk Flow) : Elif → Walk Flow
  | .mk _ condition body => do
    if ← test invoke condition then execBlock invoke inLoop body else others

def execOtherwise (invoke : Invoke) (inLoop : Bool) : Option (List Stmt) → Walk Flow
  | none => return .next
  | some body => execBlock invoke inLoop body

end

/-- Runs an action on the variables of a call; the caller's come back however it ends. -/
def withLocals {α : Type} (locals : Bindings Value) (action : Walk α) : Walk α :=
  fun w =>
    let (result, after) := action { w with locals := some locals }
    (result, { after with locals := w.locals })

/-- Calls with a number of nested calls left to make. -/
def invokeAt : Nat → Invoke
  | depth, f, args, bound => do
    if args.length ≠ f.params.length then
      let hidden : Int := if bound then 1 else 0
      let name := f.name
      let wanted := f.params.length - hidden
      let given := args.length - hidden
      refuse s!"{name}() takes {wanted} argument(s) but {given} were given"
    match depth with
    | 0 => throw (.fault depthExceeded)
    | depth + 1 =>
      let params ← liftM (f.params.mapM Constant.name)
      withLocals (Bindings.ofList (params.zip args)) do
        match ← execBlock (invokeAt depth) false f.body with
        | .give v => return v
        | _ => return .null

end Walker

end Stepwise
