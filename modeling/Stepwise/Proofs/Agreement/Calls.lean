import Stepwise.Proofs.Agreement.Objects
import Stepwise.Proofs.Agreement.Portable
import Stepwise.Proofs.Code.Program

/-!
Calls on both engines, as far as they do not depend on what is called: calls that leave the
program, and the way into a function, a constructor or a method, given that calls of the program's
own are served.
-/
namespace Stepwise

open Machine (Keeps Reaches isHidden)

variable {S : Setting} {height number pc : Nat} {stack args : List Value} {w : Walker}
  {m k : Machine} {line : Option Int}

theorem calleeOf_eq (op : Opcode) (name : String) (argc : Nat) (line : Option Int) :
    Machine.calleeOf ⟨op, .text (callOperand name argc), line⟩ =
      if argc < pow10 Decimal.digitLimit then pure (name, (argc : Int))
      else throw (.host .malformed) := by
  have read := readCallOperand?_callOperand name argc
  unfold Machine.calleeOf
  by_cases few : argc < pow10 Decimal.digitLimit
  · rw [if_pos few] at read ⊢
    simp only [read]
  · rw [if_neg few] at read ⊢
    simp only [read]

theorem calleeOf_callOperand {op : Opcode} {name : String} {argc : Nat}
    (countable : Countable argc) :
    Machine.calleeOf ⟨op, .text (callOperand name argc), line⟩ = pure (name, (argc : Int)) := by
  rw [calleeOf_eq, if_pos ((Decimal.length_digits_le_iff argc (by decide)).mp countable)]

section Outside

variable {call : Engine → Except Failure Value × Engine}

/-- A call that leaves the program, on engines that share what it depends on. -/
theorem carries_outside (during : During S height w k pc stack)
    (alike : (call w.toEngine).1 = (call k.toEngine).1 ∧
      (call w.toEngine).2.Shares (call k.toEngine).2)
    (spares : w.toEngine.Spares (call w.toEngine).2)
    (spares' : k.toEngine.Spares (call k.toEngine).2)
    (leaves : w.toEngine.Leaves (call w.toEngine).2)
    (leaves' : k.toEngine.Leaves (call k.toEngine).2) :
    Carries number (Walker.outside call) w
      (do Machine.push (← Machine.outside call)) k (Pushes S height pc stack) := by
  rcases walked : call w.toEngine with ⟨result, engine⟩
  rcases run : call k.toEngine with ⟨result', engine'⟩
  rw [walked, run] at alike
  rw [walked] at spares leaves
  rw [run] at spares' leaves'
  obtain ⟨rfl, shares⟩ : result = result' ∧ engine.Shares engine' := alike
  have walks : Walker.outside call w = (result, { w with toEngine := engine }) := by
    unfold Walker.outside
    rw [walked]
  have runs : Machine.outside call k = (result, { k with toEngine := engine' }) := by
    unfold Machine.outside
    rw [run]
  cases result with
  | error failure =>
    have broken := Act.bind_error (f := fun v => Machine.push v) runs
    cases failure with
    | fault fault => exact carries_stopped walks broken rfl shares
    | host failure => exact carries_broken walks broken shares
  | ok v =>
    rw [← bind_pure (Walker.outside call)]
    refine carries_walk walks ⟨rfl, rfl, spares.stepCount, spares.maxSteps⟩ ?_
    refine carries_machine runs (.of_hidden rfl leaves'.hidden) ?_
    have after : During S height { w with toEngine := engine } { k with toEngine := engine' } pc
        stack :=
      ⟨{ during.toAt with
          depth := spares'.maxCallDepth.trans during.depth
          unfinished := leaves'.unfinished
          shares
          discreet := leaves'.discreet
          limit := spares.maxCallDepth.trans during.limit
          awake := leaves.unfinished }, leaves'.undone.trans during.going⟩
    exact carries_push after fun _ => id

theorem carries_call (during : During S height w k pc stack) (name : Name) :
    Carries number (Walker.outside fun engine => engine.call name args) w
      (do Machine.push (← Machine.outside fun engine => engine.call name args)) k
      (Pushes S height pc stack) :=
  carries_outside during (during.shares.call name args) (Engine.spares_call ..)
    (Engine.spares_call ..) (Engine.leaves_call during.modest during.awake name args)
    (Engine.leaves_call during.discreet during.unfinished name args)

theorem carries_callBuiltin (during : During S height w k pc stack) (name : Name) :
    Carries number (Walker.outside fun engine => engine.callBuiltin name args) w
      (do Machine.push (← Machine.outside fun engine => engine.callBuiltin name args)) k
      (Pushes S height pc stack) :=
  carries_outside during (during.shares.callBuiltin name args)
    (Engine.quiet_callBuiltin ..).toSpares (Engine.quiet_callBuiltin ..).toSpares
    (Engine.leaves_callBuiltin during.modest during.awake name args)
    (Engine.leaves_callBuiltin during.discreet during.unfinished name args)

end Outside

/-- A function of the program as the machine enters it. -/
structure Setting.Enters (S : Setting) (name : String) (f : Func) (bound : Bool) (address : Int) :
    Prop where
  arity : S.code.arities.get? name = some (f.params.length : Int)
  shown : f.name.plain = if bound then Machine.unqualified name else name
  common : f.Common
  placed : ∃ base : Nat, address = base ∧ FuncAt S.code S.scope base f

/-- What the machine knows of a method, next to what the walker knows. -/
def Setting.SameMethod (S : Setting) (name : String) : Option Func → Option Int → Prop
  | none, none => True
  | some f, some address => S.Enters name f true address
  | _, _ => False

/-- The two engines know the same functions and classes. -/
structure Setting.Sound (S : Setting) : Prop where
  callOpcode : ∀ s : String, '.' ∉ s.toList → S.scope.callOpcode s =
    if S.classes.has s then .new else if (S.functions.get? s).isSome then .callUser else .call
  functions : ∀ (s : String) (f : Func), '.' ∉ s.toList → S.functions.get? s = some f →
    ∃ address, S.code.functions.get? s = some address ∧ S.Enters s f false address
  unknown : ∀ className, S.classes.get? className = none → S.table.get? className = none
  methods : ∀ className methods, S.classes.get? className = some methods →
    ∃ table, S.table.get? className = some table ∧ ∀ method : String,
      S.SameMethod s!"{className}.{method}" (methods.get? method) (table.get? method)

/-- The value that a call gives: a constructor gives its receiver. -/
def Machine.resultOf (name : String) (receiver : Option Value) (v : Value) : Value :=
  if receiver.isSome && isConstructor name then receiver.getD .null else v

theorem isConstructor_qualified (className method : String) :
    Machine.isConstructor s!"{className}.{method}" =
      ('.' :: constructorName.toList).isSuffixOf (className.toList ++ '.' :: method.toList) := by
  simp [Machine.isConstructor, ToString.toString]

theorem resultOf_constructor (className : String) (receiver v : Value) :
    Machine.resultOf s!"{className}.{constructorName}" (some receiver) v = receiver := by
  have constructor := isConstructor_qualified className constructorName
  have ends : ('.' :: constructorName.toList).isSuffixOf
      (className.toList ++ '.' :: constructorName.toList) = true :=
    List.isSuffixOf_iff_suffix.mpr (List.suffix_append ..)
  rw [ends] at constructor
  rw [Machine.resultOf, constructor]
  rfl

/-- Other methods give what they return. -/
theorem resultOf_method (className : String) {method : String} (pointless : '.' ∉ method.toList)
    (other : method ≠ constructorName) (receiver v : Value) :
    Machine.resultOf s!"{className}.{method}" (some receiver) v = v := by
  have constructor := isConstructor_qualified className method
  have apart : ('.' :: constructorName.toList).isSuffixOf
      (className.toList ++ '.' :: method.toList) = false := by
    rw [Bool.eq_false_iff, ne_eq, List.isSuffixOf_iff_suffix]
    rintro ⟨front, same⟩
    have reversed := congrArg List.reverse same
    simp only [List.reverse_append, List.reverse_cons, List.append_assoc, List.singleton_append]
      at reversed
    have parts := append_point_inj (by simp [constructorName]) (by simpa using pointless) reversed
    exact other (String.toList_inj.mp (List.reverse_inj.mp parts.1).symm)
  rw [apart] at constructor
  rw [Machine.resultOf, constructor]
  rfl

/-- Calls of the functions of a program are followed by the machine, from some depth of calls on.
-/
def Serves (S : Setting) (invoke : Walker.Invoke) (height : Nat) : Prop :=
  ∀ ⦃number : Nat⦄ ⦃w : Walker⦄ ⦃k : Machine⦄ ⦃pc : Nat⦄ ⦃stack args : List Value⦄ ⦃f : Func⦄
    ⦃name : String⦄ ⦃address argc base : Int⦄ ⦃line : Option Int⦄ ⦃receiver : Option Value⦄,
    S.Enters name f receiver.isSome address →
    During S height w k pc (args.reverse ++ stack) →
    argc + (if receiver.isSome then 1 else 0) = args.length → base = stack.length →
    Carries number (invoke f args receiver.isSome) w
      (Machine.enter name address argc line base receiver) k fun v =>
        Pushes S height pc stack (Machine.resultOf name receiver v)

section Program

theorem execute_new (operand : Value) : Machine.execute ⟨.new, operand, line⟩ = (do
    let (className, argc) ← Machine.calleeOf ⟨.new, operand, line⟩
    Machine.instantiate className argc line) := rfl

theorem execute_call (operand : Value) : Machine.execute ⟨.call, operand, line⟩ = (do
    let (name, argc) ← Machine.calleeOf ⟨.call, operand, line⟩
    let args ← Machine.take argc
    Machine.push (← Machine.outside fun engine => engine.call name args)) := rfl

theorem execute_callUser (operand : Value) : Machine.execute ⟨.callUser, operand, line⟩ = (do
    let (name, argc) ← Machine.calleeOf ⟨.callUser, operand, line⟩
    let m ← get
    match m.code.bind fun code => code.functions.get? name with
    | none => Machine.refuse s!"Undefined function '{name}'"
    | some address =>
      Machine.enter name address argc line (m.stack.length - argc) none) := rfl

theorem execute_methodCall (operand : Value) : Machine.execute ⟨.methodCall, operand, line⟩ = (do
    let (method, argc) ← Machine.calleeOf ⟨.methodCall, operand, line⟩
    Machine.callMethod method argc line) := rfl

variable {invoke : Walker.Invoke}

/-- Looking something up among the functions or classes of the program. -/
theorem carries_getWalker {α : Type} {f : Walker → Walker.Walk α} {y : Machine.Action Unit}
    {post : α → Walker → Machine → Prop} (rest : Carries number (f w) w y k post) :
    Carries number (get >>= f) w y k post :=
  carries_walk rfl (.refl w) rest

theorem carries_getMachine {α : Type} {x : Walker.Walk α} {g : Machine → Machine.Action Unit}
    {post : α → Walker → Machine → Prop} (rest : Carries number x w (g k) k post) :
    Carries number x w (get >>= g) k post :=
  carries_machine rfl (.refl k) rest

theorem carries_instantiate (sound : S.Sound) (serves : Serves S invoke height) {className : String}
    (during : During S height w k pc (args.reverse ++ stack)) :
    Carries number (Walker.instantiate invoke className args) w
      (Machine.instantiate className args.length line) k (Pushes S height pc stack) := by
  unfold Walker.instantiate Machine.instantiate
  refine carries_take during rfl fun during => ?_
  generalize ({ k with stack := stack } : Machine) = k at during ⊢
  refine carries_getWalker (carries_getMachine ?_)
  rw [during.classes, during.table]
  cases known : S.classes.get? className with
  | none =>
    rw [sound.unknown _ known]
    exact carries_stopped rfl rfl rfl during.shares
  | some methods =>
    obtain ⟨table, found, same⟩ := sound.methods _ _ known
    have same := same constructorName
    rw [found]
    dsimp only
    unfold Setting.SameMethod at same
    split at same
    next noMethod noAddress =>
      rw [noMethod, noAddress]
      dsimp only
      split
      next =>
        exact carries_heap during (carries_make during)
      next => exact carries_stopped rfl rfl rfl during.shares
    next f address hasMethod hasAddress =>
      rw [hasMethod, hasAddress]
      dsimp only
      refine carries_heap during (carries_setHeap during fun during => ?_)
      refine carries_getMachine (carries_pushAll during fun entered => ?_)
      have enters : S.Enters _ f (some (w.heap.newInst className []).1).isSome address := same
      refine Carries.bind (serves enters entered rfl ?_) fun v w' m' gives => ?_
      · exact congrArg (fun stack : List Value => (stack.length : Int)) during.stack
      · have result := resultOf_constructor className (w.heap.newInst className []).1 v
        exact tracks_pure (result ▸ gives)
    next => exact same.elim

theorem tracks_new (sound : S.Sound) (serves : Serves S invoke height) {className : String}
    (countable : Countable args.length) (here : At S height w m pc (args.reverse ++ stack))
    (has : S.code.Has pc ⟨.new, .text (callOperand className args.length), line⟩) :
    Tracks number (Walker.instantiate invoke className args) w m
      (Pushes S height (pc + 1) stack) := by
  refine here.perform has fun during => ?_
  rw [execute_new, calleeOf_callOperand countable, pure_bind]
  exact carries_instantiate sound serves during

/-- A call by name makes an object of a class, enters a function of the program or asks outside. -/
theorem At.call_eq (here : At S height w m pc stack) (name : String) (args : List Value) :
    Walker.call invoke name args w =
      (if S.classes.has name then Walker.instantiate invoke name args
      else match S.functions.get? name with
        | some f => invoke f args false
        | none => Walker.outside fun engine => engine.call name args) w := by
  rw [← here.classes, ← here.functions]
  rfl

/-- A plain call, in code that the scope of the program decided on. -/
theorem tracks_call (sound : S.Sound) (serves : Serves S invoke height) {name : String}
    (pointless : '.' ∉ name.toList) (countable : Countable args.length)
    (here : At S height w m pc (args.reverse ++ stack))
    (has : S.code.Has pc ⟨S.scope.callOpcode name, .text (callOperand name args.length), line⟩) :
    Tracks number (Walker.call invoke name args) w m (Pushes S height (pc + 1) stack) := by
  refine tracks_congr (here.call_eq name args) ?_
  rw [sound.callOpcode name pointless] at has
  split at has
  next isClass =>
    rw [if_pos isClass]
    exact tracks_new sound serves countable here has
  next noClass =>
    rw [if_neg noClass]
    cases known : S.functions.get? name with
    | some f =>
      rw [known, Option.isSome_some, if_pos rfl] at has
      obtain ⟨address, found, enters⟩ := sound.functions name f pointless known
      refine here.perform has fun during => ?_
      rw [execute_callUser, calleeOf_callOperand countable, pure_bind]
      refine carries_getMachine ?_
      rw [during.code, Option.bind_some, found]
      have enters : S.Enters name f (none : Option Value).isSome address := enters
      refine serves enters during (Int.add_zero _) ?_
      rw [during.stack, List.length_append, List.length_reverse]
      omega
    | none =>
      rw [known, Option.isSome_none, if_neg Bool.false_ne_true] at has
      refine here.perform has fun during => ?_
      rw [execute_call, calleeOf_callOperand countable, pure_bind]
      exact carries_take during rfl fun during => carries_call during name

theorem carries_callMethod (sound : S.Sound) (serves : Serves S invoke height) {method : String}
    (pointless : '.' ∉ method.toList) (other : method ≠ constructorName) {receiver : Value}
    (during : During S height w k pc ((receiver :: args).reverse ++ stack)) :
    Carries number (Walker.callMethod invoke receiver method args) w
      (Machine.callMethod method (args.length + 1 : Nat) line) k (Pushes S height pc stack) := by
  unfold Walker.callMethod Machine.callMethod
  refine carries_take during rfl fun taken => ?_
  clear during
  generalize ({ k with stack := stack } : Machine) = k at taken ⊢
  refine carries_getWalker (carries_getMachine ?_)
  have builtin : Carries number
      (if (Builtin.ofName? method).isSome then
        Walker.outside fun engine => engine.callBuiltin method (receiver :: args)
      else Walker.refuse s!"A {receiver.typeName w.heap} has no method \"{method}\"") w
      (if (Builtin.ofName? method).isSome then do
        Machine.push (← Machine.outside fun engine => engine.callBuiltin method (receiver :: args))
      else Machine.refuse s!"A {receiver.typeName k.heap} has no method \"{method}\"") k
      (Pushes S height pc stack) := by
    split
    · exact carries_callBuiltin taken method
    · refine carries_stopped rfl rfl ?_ taken.shares
      rw [taken.shares.heap]
  cases receiver
  case inst ref =>
    dsimp only
    rw [taken.classes, taken.table, taken.shares.heap]
    cases known : S.classes.get? (k.heap.className ref) with
    | none =>
      rw [sound.unknown _ known]
      exact carries_stopped rfl rfl rfl taken.shares
    | some methods =>
      obtain ⟨table, found, same⟩ := sound.methods _ _ known
      have same := same method
      rw [found, Option.bind_some, Option.bind_some]
      unfold Setting.SameMethod at same
      split at same
      next noMethod noAddress =>
        rw [noMethod, noAddress]
        exact carries_stopped rfl rfl rfl taken.shares
      next f address hasMethod hasAddress =>
        rw [hasMethod, hasAddress]
        dsimp only
        refine carries_pushAll taken fun entered => ?_
        rw [← bind_pure (invoke f _ true)]
        have enters : S.Enters _ f (some (Value.inst ref)).isSome address := same
        refine Carries.bind (serves enters entered ?_ ?_)
          fun v w' m' gives => ?_
        · exact Int.sub_add_cancel ..
        · rw [taken.stack]
        · have result :=
            resultOf_method (toString (k.heap.className ref)) pointless other (.inst ref) v
          exact tracks_pure (result ▸ gives)
      next => exact same.elim
  all_goals exact builtin

theorem tracks_method (sound : S.Sound) (serves : Serves S invoke height) {method : String}
    (pointless : '.' ∉ method.toList) (other : method ≠ constructorName) {receiver : Value}
    (countable : Countable (args.length + 1))
    (here : At S height w m pc ((receiver :: args).reverse ++ stack))
    (has : S.code.Has pc ⟨.methodCall, .text (callOperand method (args.length + 1)), line⟩) :
    Tracks number (Walker.callMethod invoke receiver method args) w m
      (Pushes S height (pc + 1) stack) := by
  refine here.perform has fun during => ?_
  rw [execute_methodCall, calleeOf_callOperand countable, pure_bind]
  exact carries_callMethod sound serves pointless other during

end Program

end Stepwise
