import Stepwise.Machine
import Stepwise.Proofs.Code.Entries
import Stepwise.Proofs.Code.Operand
import Stepwise.Proofs.Machine.Frame
import Stepwise.Proofs.Renaming.Machines

/-!
What two engines share while they run the same program: the world, the host with its calls, the
global variables that are visible and the message of a fault. A call that leaves the program gives
the same on both and they go on sharing all of it. The variables in which the machine keeps the bounds
of loops are hidden: what is visible of some bindings does not depend on them, and a variable of one
loop is not touched by binding a visible name or a variable of a loop with another number.
-/
namespace Stepwise

/-- The hidden variable of a loop: what it bounds, and the number of the loop. -/
def loopVar (bound : String) (number : Nat) : Name := .text s!"{Code.rangeMark}{bound}{number}"

/-- What a loop keeps in a hidden variable. -/
def loopBounds : List String := ["count_", "end_", "step_"]

theorem loopVar_chars (bound : String) (number : Nat) :
    loopVar bound number =
      .text (String.ofList
        (Code.rangeMark.toList ++ (bound.toList ++ Nat.toDigits 10 number))) := by
  simp [loopVar, ← String.toList_inj, ToString.toString, Nat.toList_repr]

/-- Loops with other numbers have other variables. -/
theorem loopVar_inj {bound other : String} {m n : Nat} (known : bound ∈ loopBounds)
    (known' : other ∈ loopBounds) (same : (loopVar bound m).key = (loopVar other n).key) :
    bound = other ∧ m = n := by
  have texts := text_of_key_eq (loopVar_chars other n ▸ same)
  rw [loopVar_chars, Scalar.text.injEq, String.ofList_inj, List.append_cancel_left_eq] at texts
  have digits {m n : Nat} (same : Nat.toDigits 10 m = Nat.toDigits 10 n) : m = n := by
    rw [← Decimal.numeral_toDigits m, same, Decimal.numeral_toDigits]
  simp only [loopBounds, List.mem_cons, List.not_mem_nil, or_false] at known known'
  rcases known with rfl | rfl | rfl <;> rcases known' with rfl | rfl | rfl <;>
    simp at texts <;> exact ⟨rfl, digits texts⟩

namespace Machine

theorem isHidden_loopVar (bound : String) (number : Nat) :
    isHidden (loopVar bound number) = true := by
  rw [loopVar_chars]
  simp [isHidden]

theorem isHidden_congr {name other : Name} (same : name.key = other.key) :
    isHidden name = isHidden other := by
  cases other with
  | text s => rw [text_of_key_eq same]
  | _ =>
    cases name with
    | text s => rw [text_of_key_eq same.symm]
    | _ => rfl

/-- A visible name is not that of a hidden variable. -/
theorem key_ne_of_hidden {name other : Name} (shown : isHidden name = false)
    (hidden : isHidden other = true) : other.key ≠ name.key := by
  intro same
  rw [isHidden_congr same, shown] at hidden
  cases hidden

variable {bindings : Bindings Value}

theorem visible_cons (binding : Name × Value) (rest : Bindings Value) :
    visible (binding :: rest) =
      if isHidden binding.1 then visible rest else binding :: visible rest := by
  unfold visible
  rw [List.filter_cons]
  cases isHidden binding.1 <;> rfl

theorem get?_visible {name : Name} (shown : isHidden name = false) :
    (visible bindings).get? name = bindings.get? name := by
  induction bindings with
  | nil => rfl
  | cons binding rest ih =>
    rw [visible_cons]
    split
    next hidden =>
      rw [ih, Bindings.get?, if_neg (key_ne_of_hidden shown hidden)]
    next =>
      rw [Bindings.get?, Bindings.get?, ih]

/-- Binding a hidden name shows nothing, and binding a visible one shows it. -/
theorem visible_put (name : Name) (v : Value) :
    visible (bindings.put name v) =
      if isHidden name then visible bindings else (visible bindings).put name v := by
  induction bindings with
  | nil =>
    rw [Bindings.put, visible_cons]
    rfl
  | cons binding rest ih =>
    obtain ⟨known, old⟩ := binding
    by_cases same : known.key = name.key
    · have alike := isHidden_congr same
      rw [Bindings.put, if_pos same, visible_cons, visible_cons, alike]
      split
      · rfl
      · rw [Bindings.put, if_pos same]
    · rw [Bindings.put, if_neg same, visible_cons, visible_cons, ih]
      dsimp only
      split <;> split
      · rfl
      · rfl
      · rfl
      · rw [Bindings.put, if_neg same]

/-- What is visible behind a binding depends on what was visible before it. -/
theorem visible_put_congr {other : Bindings Value} (same : visible bindings = visible other)
    (name : Name) (v : Value) : visible (bindings.put name v) = visible (other.put name v) := by
  rw [visible_put, visible_put, same]

end Machine

/-- A handler that asks for no hidden variable to be bound. -/
def Handler.Discreet (handler : Handler) : Prop :=
  ∀ earlier args heap name v, .setGlobal name v ∈ (handler earlier args heap).requests →
    Machine.isHidden name = false

def Host.Discreet (host : Host) : Prop :=
  ∀ name role bound, host.find? name = some (role, bound) → bound.handler.Discreet

/-- A host that lends a single command. -/
theorem Host.Discreet.single {handler : Handler} (discreet : handler.Discreet) (name : Name) :
    (Host.register {} .command name handler).Discreet := by
  intro other role bound found
  rw [Host.find?_single] at found
  split at found
  · cases found
    exact discreet
  · cases found

theorem Host.Discreet.note {host : Host} (discreet : host.Discreet) {role : Role} {name : Name}
    {bound : Bound} (found : host.find? name = some (role, bound)) (args left : List Value) :
    (host.note role name bound args left).Discreet := by
  intro other role' bound' found'
  rcases Host.find?_note found' with before | rfl
  · exact discreet other role' bound' before
  · exact discreet name role bound found

namespace Engine

/-- The part of an engine that depends on the program, not on how it is run. -/
structure Shares (engine other : Engine) : Prop where
  world : engine.world = other.world
  host : engine.host = other.host
  globals : Machine.visible engine.globals = Machine.visible other.globals
  message : engine.fault.map Fault.message = other.fault.map Fault.message

variable {engine other : Engine}

theorem Shares.trans {third : Engine} (first : engine.Shares other) (rest : other.Shares third) :
    engine.Shares third :=
  ⟨first.world.trans rest.world, first.host.trans rest.host, first.globals.trans rest.globals,
    first.message.trans rest.message⟩

theorem Shares.heap (shares : engine.Shares other) : engine.heap = other.heap :=
  congrArg World.heap shares.world

theorem Shares.fail (shares : engine.Shares other) {fault fault' : Fault}
    (same : fault.message = fault'.message) : (engine.fail fault).Shares (other.fail fault') :=
  ⟨shares.world, shares.host, shares.globals, congrArg some same⟩

theorem Shares.grant (shares : engine.Shares other) (request : Request) :
    (engine.grant request).Shares (other.grant request) := by
  have paused (engine : Engine) : ∃ status, engine.pause = { engine with status } := by
    unfold pause
    split
    · exact ⟨_, rfl⟩
    · exact ⟨engine.status, rfl⟩
  cases request with
  | pause =>
    obtain ⟨_, same⟩ := paused engine
    obtain ⟨_, same'⟩ := paused other
    rw [Engine.grant, Engine.grant, same, same']
    exact ⟨shares.world, shares.host, shares.globals, shares.message⟩
  | setGlobal name v =>
    exact ⟨shares.world, shares.host, Machine.visible_put_congr shares.globals name v,
      shares.message⟩

theorem Shares.grants (shares : engine.Shares other) (requests : List Request) :
    (requests.foldl Engine.grant engine).Shares (requests.foldl Engine.grant other) := by
  induction requests generalizing engine other with
  | nil => exact shares
  | cons request requests ih => exact ih (shares.grant request)

/-- A call that leaves the program ends alike on engines that share all it depends on. -/
theorem Shares.call (shares : engine.Shares other) (name : Name) (args : List Value) :
    (engine.call name args).1 = (other.call name args).1 ∧
      (engine.call name args).2.Shares (other.call name args).2 := by
  unfold Engine.call
  rw [← shares.host]
  split
  next role bound _ =>
    unfold callHandler
    rw [← shares.heap]
    generalize bound.handler bound.earlier args engine.heap = reply
    have noted : Shares (engine.replied role name bound args reply)
        (other.replied role name bound args reply) :=
      ⟨congrArg (World.withHeap · reply.heap) shares.world,
        congrArg (Host.note · role name bound args reply.left) shares.host, shares.globals,
        shares.message⟩
    have granted := noted.grants reply.requests
    dsimp only
    split
    · exact ⟨rfl, granted.world, granted.host, granted.globals, granted.message⟩
    · exact ⟨rfl, granted⟩
  next =>
    unfold callBuiltin
    rw [← shares.world]
    split
    · exact ⟨rfl, rfl, shares.host, shares.globals, shares.message⟩
    · exact ⟨rfl, shares⟩

theorem Shares.callBuiltin (shares : engine.Shares other) (name : Name) (args : List Value) :
    (engine.callBuiltin name args).1 = (other.callBuiltin name args).1 ∧
      (engine.callBuiltin name args).2.Shares (other.callBuiltin name args).2 := by
  unfold Engine.callBuiltin
  rw [← shares.world]
  split
  · exact ⟨rfl, rfl, shares.host, shares.globals, shares.message⟩
  · exact ⟨rfl, shares⟩

/-- What a call that leaves the program has to leave alone for a program under way: hidden
variables, and that the program is under way. -/
structure Leaves (engine later : Engine) : Prop where
  hidden : ∀ name, Machine.isHidden name = true → later.globals.get? name = engine.globals.get? name
  discreet : later.host.Discreet
  unfinished : later.status.isFinal = false
  undone : later.report.done = engine.report.done

variable {later : Engine}

theorem Leaves.grant (leaves : engine.Leaves later) {request : Request}
    (asked : ∀ name v, request = .setGlobal name v → Machine.isHidden name = false) :
    engine.Leaves (later.grant request) := by
  cases request with
  | pause =>
    show engine.Leaves later.pause
    unfold pause
    split
    · exact ⟨leaves.hidden, leaves.discreet, rfl, leaves.undone⟩
    · exact leaves
  | setGlobal name v =>
    refine ⟨fun other hidden => ?_, leaves.discreet, leaves.unfinished, leaves.undone⟩
    refine (Bindings.get?_put_other ?_ ..).trans (leaves.hidden other hidden)
    exact Machine.key_ne_of_hidden (asked name v rfl) hidden

theorem Leaves.grants (leaves : engine.Leaves later) {requests : List Request}
    (asked : ∀ name v, .setGlobal name v ∈ requests → Machine.isHidden name = false) :
    engine.Leaves (requests.foldl Engine.grant later) := by
  induction requests generalizing later with
  | nil => exact leaves
  | cons request requests ih =>
    refine ih (leaves.grant fun name v same => ?_) fun name v member => ?_
    · exact asked name v (same ▸ List.mem_cons_self)
    · exact asked name v (List.mem_cons_of_mem _ member)

theorem leaves_call (discreet : engine.host.Discreet) (unfinished : engine.status.isFinal = false)
    (name : Name) (args : List Value) : engine.Leaves (engine.call name args).2 := by
  unfold call
  split
  next role bound found =>
    unfold callHandler
    dsimp only
    generalize same : bound.handler bound.earlier args engine.heap = reply
    have asked : ∀ name v, .setGlobal name v ∈ reply.requests → Machine.isHidden name = false :=
      same ▸ discreet name role bound found bound.earlier args engine.heap
    have noted : engine.Leaves (engine.replied role name bound args reply) :=
      ⟨fun _ _ => rfl, discreet.note found _ _, unfinished, rfl⟩
    have granted := noted.grants asked
    split
    · refine ⟨granted.hidden, granted.discreet, granted.unfinished, ?_⟩
      cases role <;> exact granted.undone
    · exact granted
  next =>
    unfold callBuiltin
    split
    · exact ⟨fun _ _ => rfl, discreet, unfinished, rfl⟩
    · exact ⟨fun _ _ => rfl, discreet, unfinished, rfl⟩

theorem leaves_callBuiltin (discreet : engine.host.Discreet)
    (unfinished : engine.status.isFinal = false) (name : Name) (args : List Value) :
    engine.Leaves (engine.callBuiltin name args).2 := by
  unfold callBuiltin
  split
  · exact ⟨fun _ _ => rfl, discreet, unfinished, rfl⟩
  · exact ⟨fun _ _ => rfl, discreet, unfinished, rfl⟩

end Engine

end Stepwise
