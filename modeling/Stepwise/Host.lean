import Stepwise.Value.Copy

/-!
Functions that the host lends to a program. A command acts on the host's world and a sensor asks it
something; a program calls both like any other function. A handler answers from its arguments and
from the arguments of its earlier calls. It is given the list of its arguments itself, so what
stands in that list afterwards is up to the handler.
-/
namespace Stepwise

/-- What a handler may ask of the engine that called it. -/
inductive Request where
  | pause
  | setGlobal (name : Name) (value : Value)
  deriving Inhabited

structure Reply where
  heap : Heap
  requests : List Request := []
  outcome : Except Failure Value
  /-- The list of arguments as the handler leaves it. -/
  left : List Value

/-- The arguments of the earlier calls, the latest first, the arguments of this call and the heap
decide the reply. -/
abbrev Handler := List (List Value) → List Value → Heap → Reply

namespace Handler

/-- Answers with a fresh copy of a value. -/
def copying (template : Value) : Handler := fun _ args heap =>
  let (v, heap) := heap.copy template
  { heap, outcome := .ok v, left := args }

/-- Answers with the list of arguments. -/
def echoing : Handler := fun _ args heap =>
  let (v, heap) := heap.newList args.toArray
  { heap, outcome := .ok v, left := args }

/-- Answers with the number of calls so far, this one included. -/
def counting : Handler := fun earlier args heap =>
  { heap, outcome := .ok (.int (earlier.length + 1)), left := args }

/-- Answers with the given values in turn, then with null. -/
def inTurn (values : List Value) : Handler := fun earlier args heap =>
  { heap, outcome := .ok (values.getD earlier.length .null), left := args }

/-- Pauses the engine and answers with a fresh copy of a value. -/
def pausing (template : Value) : Handler := fun _ args heap =>
  let (v, heap) := heap.copy template
  { heap, requests := [.pause], outcome := .ok v, left := args }

/-- Binds a global variable to the first argument, or to null without one. -/
def assigning (name : Name) : Handler := fun _ args heap =>
  { heap, requests := [.setGlobal name (args.headD .null)], outcome := .ok .null, left := args }

/-- Stops the program with a fault. -/
def faulting (message : String) : Handler := fun _ args heap =>
  { heap, outcome := complain message, left := args }

/-- Fails in a way that the engine passes on. -/
def failing (message : String) : Handler := fun _ args heap =>
  { heap, outcome := .error (.host (.handler message)), left := args }

end Handler

inductive Role where
  | command
  | sensor
  deriving DecidableEq, Inhabited

/-- A handler and the arguments it was called with so far, the latest first. -/
structure Bound where
  handler : Handler
  earlier : List (List Value) := []

structure HostCall where
  role : Role
  name : Name
  args : List Value
  /-- The list of arguments as the handler left it. -/
  left : List Value
  deriving Inhabited

structure Host where
  commands : Bindings Bound := []
  sensors : Bindings Bound := []
  /-- Every call made so far, the latest first. -/
  calls : List HostCall := []
  deriving Inhabited

namespace Host

/-- Binds a name; a handler that had it before is forgotten with its calls. -/
def register (host : Host) (role : Role) (name : Name) (handler : Handler) : Host :=
  match role with
  | .command => { host with commands := host.commands.put name { handler } }
  | .sensor => { host with sensors := host.sensors.put name { handler } }

/-- Takes a name away from both roles. -/
def unregister (host : Host) (name : Name) : Host :=
  { host with commands := host.commands.erase name, sensors := host.sensors.erase name }

/-- Commands come before sensors of the same name. -/
def find? (host : Host) (name : Name) : Option (Role × Bound) :=
  match host.commands.get? name with
  | some bound => some (.command, bound)
  | none => (host.sensors.get? name).map fun bound => (.sensor, bound)

/-- A host that lends one command. -/
theorem find?_single (handler : Handler) (name other : Name) :
    (Host.register {} .command name handler).find? other =
      if name.key = other.key then some (.command, { handler }) else none := by
  by_cases same : name.key = other.key <;> simp [register, find?, Bindings.put, Bindings.get?, same]

/-- Notes that a bound handler was called. -/
def note (host : Host) (role : Role) (name : Name) (bound : Bound) (args left : List Value) :
    Host :=
  let bound := { bound with earlier := args :: bound.earlier }
  let calls := { role, name, args, left } :: host.calls
  match role with
  | .command => { host with commands := host.commands.put name bound, calls }
  | .sensor => { host with sensors := host.sensors.put name bound, calls }

theorem note_calls (host : Host) (role : Role) (name : Name) (bound : Bound)
    (args left : List Value) :
    (host.note role name bound args left).calls = ⟨role, name, args, left⟩ :: host.calls := by
  cases role <;> rfl

end Host

end Stepwise
