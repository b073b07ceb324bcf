import Stepwise.Proofs.Outcome
import Stepwise.Walker.Eval

/-!
Evaluation over whatever state an engine keeps. Expressions look at an engine only through its
`Facilities`; the evaluator that is written with these is the one of the walker if they are the
walker's own (`eval_facilities`). Another engine that has them evaluates in the same way.
-/
namespace Stepwise

/-- What evaluation asks of the engine in which it takes place. -/
structure Facilities (σ : Type) where
  getHeap : Act σ Heap
  setHeap : Heap → Act σ Unit
  lookup : Name → Act σ Value
  store : Name → Value → Act σ Unit
  setLine : Option Int → Act σ Unit
  getFunctions : Act σ (Bindings Func)
  getClasses : Act σ (Bindings (Bindings Func))
  /-- Calls something that the program does not define. -/
  callOutside : Name → List Value → Act σ Value
  callBuiltin : Name → List Value → Act σ Value
  /-- Calls a function of the program, by the name under which it is shown. A bound call has a
  receiver that the caller did not write. -/
  invoke : Name → Func → List Value → Bool → Act σ Value

namespace Facilities

variable {σ : Type} (facilities : Facilities σ)

def refuse {α : Type} (message : String) (suggestion : Option String := none) : Act σ α :=
  throw (.fault (.running message suggestion))

def refuseAt {α : Type} (line : Option Int) (message : String)
    (suggestion : Option String := none) : Act σ α :=
  throw (.fault { Fault.running message suggestion with line })

/-- The name under which a method is shown. -/
def qualified (className method : Name) : Name := .text s!"{className}.{method}"

def instantiate (className : Name) (args : List Value) : Act σ Value := do
  match (← facilities.getClasses).get? className with
  | none => refuse s!"Undefined class '{className}'"
  | some methods =>
    match methods.get? constructorName with
    | none =>
      if args.isEmpty then
        let (v, heap) := (← facilities.getHeap).newInst className []
        facilities.setHeap heap
        return v
      else
        refuse s!"{className}() takes no arguments" (some "Define __init__ to accept arguments.")
    | some method =>
      let (v, heap) := (← facilities.getHeap).newInst className []
      facilities.setHeap heap
      let _ ← facilities.invoke (qualified className constructorName) method (v :: args) true
      return v

/-- A plain call: classes come first, then the functions of the program. -/
def call (name : Name) (args : List Value) : Act σ Value := do
  if (← facilities.getClasses).has name then facilities.instantiate name args
  else match (← facilities.getFunctions).get? name with
    | some f => facilities.invoke name f args false
    | none => facilities.callOutside name args

/-- Calls a method of an instance, or the built-in function of that name on another value. -/
def callMethod (receiver : Value) (method : Name) (args : List Value) : Act σ Value := do
  let heap ← facilities.getHeap
  match receiver with
  | .inst ref =>
    let className := heap.className ref
    match ((← facilities.getClasses).get? className).bind fun methods => methods.get? method with
    | none => refuse s!"Class \"{className}\" has no method \"{method}\""
    | some f => facilities.invoke (qualified className method) f (receiver :: args) true
  | _ =>
    if (Builtin.ofName? method).isSome then facilities.callBuiltin method (receiver :: args)
    else
      let typeName := receiver.typeName heap
      refuse s!"A {typeName} has no method \"{method}\""

/-- The name of a member. What cannot name one is only noticed where members are looked for. -/
def memberName (object : Value) (property : Constant) : Act σ Name :=
  match object with
  | .inst _ | .map _ => property.name
  | _ => return property.scalar?.getD (.text property.plain)

mutual

def eval : Expr → Act σ Value
  | .literal _ _ value => return value.value
  | .var _ name => do facilities.lookup (← name.name)
  | .binary _ .and left right => do
    let v ← eval left
    if v.isTruthy (← facilities.getHeap) then eval right else return v
  | .binary _ .or left right => do
    let v ← eval left
    if v.isTruthy (← facilities.getHeap) then return v else eval right
  | .binary _ op left right => do
    let a ← eval left
    let b ← eval right
    Value.binary op (← facilities.getHeap) a b
  | .unary pos op operand => do
    let v ← eval operand
    match op with
    | .neg => Value.negate (← facilities.getHeap) v
    | .not => return .bool !(v.isTruthy (← facilities.getHeap))
    | .unknown sign => refuseAt pos.line s!"Unknown operator '{sign}'"
  | .call _ callee args => do
    let args ← evalAll args
    facilities.call (← callee.name) args
  | .new _ className args => do
    let args ← evalAll args
    facilities.instantiate (← className.name) args
  | .invoke _ object method args => do
    let receiver ← eval object
    let args ← evalAll args
    facilities.callMethod receiver (← method.name) args
  | .list _ elements => do
    let values ← evalAll elements
    let (v, heap) := (← facilities.getHeap).newList values.toArray
    facilities.setHeap heap
    return v
  | .record _ entries => do
    let entries ← evalEntries entries
    let (v, heap) := (← facilities.getHeap).newMap (Bindings.ofList entries)
    facilities.setHeap heap
    return v
  | .index _ object position => do
    let object ← eval object
    let position ← eval position
    Value.getIndex (← facilities.getHeap) object position
  | .slice _ object start stop => do
    let object ← eval object
    let start ← evalOption start
    let stop ← evalOption stop
    let (v, heap) ← Value.slice (← facilities.getHeap) object start stop
    facilities.setHeap heap
    return v
  | .member _ object property => do
    let object ← eval object
    Value.getMember (← facilities.getHeap) object (← memberName object property)
  | .alien node => refuseAt node.pos.line s!"Unknown expression type {node.label}"

def evalAll : List Expr → Act σ (List Value)
  | [] => return []
  | e :: rest => do
    let v ← eval e
    return v :: (← evalAll rest)

def evalOption : Option Expr → Act σ Value
  | none => return .null
  | some e => eval e

def evalEntries : List (Constant × Expr) → Act σ (List (Name × Value))
  | [] => return []
  | (key, e) :: rest => do
    let key ← written key.plain?
    let v ← eval e
    return (.text key, v) :: (← evalEntries rest)

end

def test (e : Expr) : Act σ Bool := do
  let v ← facilities.eval e
  return v.isTruthy (← facilities.getHeap)

/-- How often a loop runs. A call in the count may have moved the line. -/
def countOf (line : Option Int) (count : Expr) : Act σ Nat := do
  let v ← facilities.eval count
  facilities.setLine line
  Value.repeatCount (← facilities.getHeap) v

/-- Start, end and step of a range; the step is one unless given. -/
def boundsOf (line : Option Int) (start stop : Expr) (step : Option Expr) :
    Act σ (Value × Value × Value) := do
  let first ← facilities.eval start
  let last ← facilities.eval stop
  let step ← match step with
    | none => pure (.int 1)
    | some e => facilities.eval e
  facilities.setLine line
  Value.checkRange first last step
  return (first, last, step)

/-- What a loop runs over. -/
def itemsOf (line : Option Int) (items : Expr) : Act σ (List Value) := do
  let v ← facilities.eval items
  let heap ← facilities.getHeap
  match v with
  | .list ref => return (heap.items ref).toList
  | .text s => return s.toList.map fun c => .text c.toString
  | _ =>
    let typeName := v.typeName heap
    refuseAt line s!"Can only loop over a list or a string, got {typeName}"
      (some "Check that the value after 'in' is a list or a string.")

/-- Whether a value of the loop variable comes before the end, in the direction of the step. -/
def inRange (v stop step : Value) : Act σ Bool := do
  let up := match step with
    | .number n => Number.lt (.int 0) n
    | _ => false
  let heap ← facilities.getHeap
  let result ← if up then Value.lessThan heap v stop else Value.greaterThan heap v stop
  return result.isTruthy heap

/-- Adds the step to the variable of a range loop. -/
def advanceRange (var : Name) (step : Value) : Act σ Value := do
  let v ← facilities.lookup var
  let v ← Value.add (← facilities.getHeap) v step
  facilities.store var v
  return v

end Facilities

namespace Walker

/-- What a walker has for evaluation. -/
def facilities (invoke : Invoke) : Facilities Walker where
  getHeap := getHeap
  setHeap := setHeap
  lookup := lookup
  store := store
  setLine := setLine
  getFunctions := do return (← get).functions
  getClasses := do return (← get).classes
  callOutside name args := outside fun engine => engine.call name args
  callBuiltin name args := outside fun engine => engine.callBuiltin name args
  invoke _ := invoke

section Own

variable (invoke : Invoke)

theorem instantiate_facilities (className : Name) (args : List Value) :
    (facilities invoke).instantiate className args = instantiate invoke className args := rfl

theorem call_facilities (name : Name) (args : List Value) :
    (facilities invoke).call name args = call invoke name args := by
  funext w
  show (if w.classes.has name = true then instantiate invoke name args else _) w =
    (if w.classes.has name = true then instantiate invoke name args else _) w
  split
  · rfl
  · show (match w.functions.get? name with | some f => _ | none => _ : Walk Value) w = _
    rfl

theorem callMethod_facilities (receiver : Value) (method : Name) (args : List Value) :
    (facilities invoke).callMethod receiver method args =
      callMethod invoke receiver method args := by
  funext w
  cases receiver with
  | inst ref => rfl
  | _ =>
    show (if (Builtin.ofName? method).isSome then _ else _ : Walk Value) w =
      (if (Builtin.ofName? method).isSome then _ else _ : Walk Value) w
    rfl

theorem memberName_facilities (object : Value) (property : Constant) :
    (Facilities.memberName object property : Walk Name) = memberName object property := rfl

mutual

theorem eval_facilities : ∀ e : Expr, (facilities invoke).eval e = eval invoke e
  | .literal _ _ _ => by
    simp only [Facilities.eval, eval]
  | .var _ name => by
    simp only [Facilities.eval, eval]
    rfl
  | .binary _ op left right => by
    have first := eval_facilities left
    have second := eval_facilities right
    cases op <;> simp only [Facilities.eval, eval, first, second] <;> rfl
  | .unary _ op operand => by
    simp only [Facilities.eval, eval, eval_facilities operand]
    rfl
  | .call _ callee args => by
    simp only [Facilities.eval, eval, evalAll_facilities args, call_facilities]
  | .new _ className args => by
    simp only [Facilities.eval, eval, evalAll_facilities args, instantiate_facilities]
  | .invoke _ object method args => by
    simp only [Facilities.eval, eval, eval_facilities object, evalAll_facilities args,
      callMethod_facilities]
  | .list _ elements => by
    simp only [Facilities.eval, eval, evalAll_facilities elements]
    rfl
  | .record _ entries => by
    simp only [Facilities.eval, eval, evalEntries_facilities entries]
    rfl
  | .index _ object position => by
    simp only [Facilities.eval, eval, eval_facilities object, eval_facilities position]
    rfl
  | .slice _ object start stop => by
    simp only [Facilities.eval, eval, eval_facilities object, evalOption_facilities start,
      evalOption_facilities stop]
    rfl
  | .member _ object property => by
    simp only [Facilities.eval, eval, eval_facilities object, memberName_facilities]
    rfl
  | .alien _ => by
    simp only [Facilities.eval, eval]
    rfl

theorem evalAll_facilities : ∀ es : List Expr, (facilities invoke).evalAll es = evalAll invoke es
  | [] => by simp only [Facilities.evalAll, evalAll]
  | e :: es => by
    simp only [Facilities.evalAll, evalAll, eval_facilities e, evalAll_facilities es]

theorem evalOption_facilities : ∀ e : Option Expr,
    (facilities invoke).evalOption e = evalOption invoke e
  | none => by simp only [Facilities.evalOption, evalOption]
  | some e => by simp only [Facilities.evalOption, evalOption, eval_facilities e]

theorem evalEntries_facilities : ∀ entries : List (Constant × Expr),
    (facilities invoke).evalEntries entries = evalEntries invoke entries
  | [] => by simp only [Facilities.evalEntries, evalEntries]
  | (key, e) :: entries => by
    simp only [Facilities.evalEntries, evalEntries, eval_facilities e,
      evalEntries_facilities entries]

end

theorem test_facilities (e : Expr) : (facilities invoke).test e = test invoke e := by
  rw [Facilities.test, test, eval_facilities]
  rfl

theorem countOf_facilities (line : Option Int) (count : Expr) :
    (facilities invoke).countOf line count = countOf invoke line count := by
  rw [Facilities.countOf, countOf, eval_facilities]
  rfl

theorem boundsOf_facilities (line : Option Int) (start stop : Expr) (step : Option Expr) :
    (facilities invoke).boundsOf line start stop step = boundsOf invoke line start stop step := by
  unfold Facilities.boundsOf boundsOf
  simp only [eval_facilities]
  rfl

theorem itemsOf_facilities (line : Option Int) (items : Expr) :
    (facilities invoke).itemsOf line items = itemsOf invoke line items := by
  rw [Facilities.itemsOf, itemsOf, eval_facilities]
  rfl

end Own

end Walker

end Stepwise
