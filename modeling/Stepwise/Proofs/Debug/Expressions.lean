import Stepwise.Proofs.Agreement.Expressions
import Stepwise.Proofs.Code.Misuse
import Stepwise.Proofs.Control.Faults
import Stepwise.Proofs.Debug.Evaluation

/-!
Evaluating an expression without calls. The machine computes what the walker does over the same global
variables, wherever the program is; nothing that was there before is touched (`evaluate_callFree`). The
code of an expression is followed part by part (`follows_eval`), one rule for each instruction.
-/
namespace Stepwise

/-- Neither a call nor a method call nor an instantiation. -/
def Expr.IsCallFree : Expr → Prop
  | .call _ _ _ | .new _ _ _ | .invoke _ _ _ _ => False
  | _ => True

/-- An item of a list in a variable, counted from the end, and something added to it. -/
def Stmt.isItemSum : Stmt → Bool
  | .expr _ (.binary _ .add (.index _ (.var _ _) (.unary _ .neg (.literal _ _ _))) (.literal _ _ _)) => true
  | _ => false

/-- Whether a value is a given integer. -/
instance (v : Value) (n : Int) : Decidable (v = .int n) :=
  match v with
  | .number (.int k) => decidable_of_iff (k = n) (by simp [Value.int])
  | .number (.float _) | .null | .bool _ | .text _ | .list _ | .map _ | .inst _ => isFalse nofun

/-- The machine and the walker at the same point of an evaluation outside of calls. -/
structure Probing (code : Code) (w : Walker) (m : Machine) (pc : Nat) (stack : List Value) : Prop where
  code : m.code = some code
  pc : m.pc = pc
  stack : m.stack = stack
  outer : m.frames = []
  under : m.status.isFinal = false
  globals : m.globals = w.globals
  heap : m.heap = w.heap
  locals : w.locals = none

/-- A machine that has read an instruction of an evaluation. -/
def Machine.reading (m : Machine) (i : Instruction) : Machine :=
  { m.going with pc := m.pc + 1, report := { highlightLine := i.line } }

namespace Probing

/-- A value was left on top of some operands. -/
def Leaves (code : Code) (pc : Nat) (stack : List Value) (v : Value) (w : Walker) (m : Machine) : Prop :=
  Probing code w m pc (v :: stack)

variable {α β : Type} {code : Code} {pc : Nat} {stack operands : List Value} {w w' : Walker}
  {m m' next : Machine} {i : Instruction} {line : Option Int}

/-- The machine follows a computation of the walker: it gets to where that leaves the walker, or comes
to nothing if it fails. -/
def Follows (x : Walker.Walk α) (w : Walker) (m : Machine) (good : α → Walker → Machine → Prop) : Prop :=
  match x w with
  | (.ok a, w') => ∃ m', m.Leads m' ∧ m.Untouched m' ∧ good a w' m'
  | (.error _, _) => m.ComesToNothing

section Follows

variable {x : Walker.Walk α} {f : α → Walker.Walk β} {good : α → Walker → Machine → Prop}
  {good' : β → Walker → Machine → Prop}

theorem follows_done {a : α} (walked : x w = (.ok a, w')) (leads : m.Leads m')
    (untouched : m.Untouched m') (holds : good a w' m') : Follows x w m good := by
  unfold Follows
  rw [walked]
  exact ⟨m', leads, untouched, holds⟩

theorem follows_pure {a : α} (holds : good a w m) : Follows (pure a) w m good :=
  follows_done rfl (.refl m) (.of_eq rfl rfl) holds

theorem follows_failed {failure : Failure} (walked : x w = (.error failure, w'))
    (nothing : m.ComesToNothing) : Follows x w m good := by
  unfold Follows
  rw [walked]
  exact nothing

/-- Only what a computation does to the walker it starts from counts. -/
theorem follows_congr {y : Walker.Walk α} (same : x w = y w) (follows : Follows y w m good) :
    Follows x w m good := by
  unfold Follows at follows ⊢
  rwa [same]

/-- The machine may do something that the walker does not. -/
theorem Follows.after (leads : m.Leads m') (untouched : m.Untouched m')
    (rest : Follows x w m' good) : Follows x w m good := by
  unfold Follows at rest ⊢
  split
  next done =>
    rw [done] at rest
    obtain ⟨last, leads', untouched', holds⟩ := rest
    exact ⟨last, leads.trans leads', untouched.trans untouched', holds⟩
  next failed =>
    rw [failed] at rest
    exact rest.after leads untouched

theorem Follows.bind (first : Follows x w m good)
    (rest : ∀ a w' m', good a w' m' → Follows (f a) w' m' good') : Follows (x >>= f) w m good' := by
  unfold Follows at first
  split at first
  next a w' done =>
    obtain ⟨m', leads, untouched, holds⟩ := first
    refine .after leads untouched ?_
    have rest := rest a w' m' holds
    unfold Follows at rest ⊢
    rwa [Act.bind_ok done]
  next failure w' failed => exact follows_failed (Act.bind_error failed) first

theorem follows_walk {a : α} (walked : x w = (.ok a, w)) (rest : Follows (f a) w m good') :
    Follows (x >>= f) w m good' := by
  unfold Follows at rest ⊢
  rwa [Act.bind_ok walked]

end Follows

/-! Instructions. -/

theorem read (here : Probing code w m pc stack) (i : Instruction) :
    Probing code w (m.reading i) (pc + 1) stack :=
  { here with
    pc := by
      show m.pc + 1 = _
      rw [here.pc]
      rfl
    under := rfl }

theorem withStack (here : Probing code w m pc stack) (stack' : List Value) :
    Probing code w { m with stack := stack' } pc stack' :=
  { here with stack := rfl }

theorem advance_eq (here : Probing code w m pc stack) (has : code.Has pc i) :
    m.going.advance = match Machine.execute i (m.reading i) with
      | (.ok (), next) => (.ok next.report, next)
      | (.error (.fault fault), next) => (.ok { done := true, highlightLine := i.line },
          next.stoppedAt m.pc (fault.withLine i.line))
      | (.error (.host failure), next) => (.error failure, next) := by
  have inside := Machine.lt_size_of_has has
  unfold Machine.advance
  rw [show m.going.code = some code from here.code]
  dsimp only
  rw [show m.going.pc = pc from here.pc, if_neg (by omega), Machine.at?_of_has has]
  rfl

/-- An instruction that goes well. -/
theorem leads (here : Probing code w m pc stack) (has : code.Has pc i)
    (ran : Machine.execute i (m.reading i) = (.ok (), next)) : m.Leads next := by
  have advanced := here.advance_eq has
  rw [ran] at advanced
  exact ⟨1, fun n v ended evaluates => .further here.under advanced evaluates⟩

/-- An instruction that fails. -/
theorem fails {failure : Failure} (here : Probing code w m pc stack) (has : code.Has pc i)
    (ran : Machine.execute i (m.reading i) = (.error failure, next)) (untouched : m.Untouched next) :
    m.ComesToNothing := by
  have advanced := here.advance_eq has
  rw [ran] at advanced
  cases failure with
  | fault f => exact ⟨1, _, .further here.under advanced (.stopped rfl), untouched.globals, untouched.cells⟩
  | host f => exact ⟨1, _, .broken here.under advanced, untouched⟩

/-- An instruction that leaves a value in the place of its operands, or fails, as the walker does. -/
theorem value {x : Walker.Walk Value} {e : Except Failure Value}
    (here : Probing code w m pc operands) (has : code.Has pc i) (walks : x w = (e, w))
    (runs : ∀ k, Probing code w k (pc + 1) operands →
      Machine.execute i k = (liftM e >>= Machine.push) { k with stack }) :
    Follows x w m (Leaves code (pc + 1) stack) := by
  have ran := runs _ (here.read i)
  cases e with
  | error failure => exact follows_failed walks (here.fails has ran (.of_eq rfl rfl))
  | ok v => exact follows_done walks (here.leads has ran) (.of_eq rfl rfl) ((here.read i).withStack _)

/-- An instruction that makes a value, or fails, as the walker does. -/
theorem fresh {x : Walker.Walk Value} {e : Except Failure (Value × Heap)}
    (here : Probing code w m pc operands) (has : code.Has pc i)
    (walks : x w = (do
      let (v, heap) ← liftM e
      Walker.setHeap heap
      return v : Walker.Walk Value) w)
    (grows : ∀ v heap, e = .ok (v, heap) → ∀ ref cell, w.heap.get? ref = some cell →
      heap.get? ref = some cell)
    (runs : ∀ k, Probing code w k (pc + 1) operands →
      Machine.execute i k = (do
        let (v, heap) ← liftM e
        Machine.setHeap heap
        Machine.push v : Machine.Action Unit) { k with stack }) :
    Follows x w m (Leaves code (pc + 1) stack) := by
  have ran := runs _ (here.read i)
  cases e with
  | error failure => exact follows_failed walks (here.fails has ran (.of_eq rfl rfl))
  | ok made =>
    refine follows_done walks (here.leads has ran) ⟨rfl, ?_⟩ { here.read i with stack := rfl, heap := rfl }
    rw [here.heap]
    exact grows _ _ rfl

/-- An instruction of the machine alone. -/
theorem alone {x : Walker.Walk α} {good : α → Walker → Machine → Prop} {pc' : Nat}
    (here : Probing code w m pc operands) (has : code.Has pc i)
    (runs : ∀ k, Probing code w k (pc + 1) operands →
      Machine.execute i k = (.ok (), { k with pc := (pc' : Int), stack }))
    (rest : ∀ m', Probing code w m' pc' stack → Follows x w m' good) : Follows x w m good :=
  .after (here.leads has (runs _ (here.read i))) (.of_eq rfl rfl)
    (rest _ { here.read i with pc := rfl, stack := rfl })

section Instructions

variable {a b v : Value}

theorem follows_push (here : Probing code w m pc stack) (has : code.Has pc ⟨.push, v, line⟩) :
    Follows (pure v) w m (Leaves code (pc + 1) stack) :=
  here.value (e := .ok v) has rfl fun k within => by
    rw [← within.stack]
    rfl

theorem follows_load {name : Name} (here : Probing code w m pc stack)
    (has : code.Has pc ⟨.load, name.toValue, line⟩) :
    Follows (Walker.lookup name) w m (Leaves code (pc + 1) stack) := by
  refine here.value (e := (w.globals.get? name).elim (.error (.fault (undefinedVariable name))) .ok) has ?_
    fun k within => ?_
  · unfold Walker.lookup
    rw [Act.bind_ok (Act.get_apply w), here.locals]
    cases w.globals.get? name <;> rfl
  · have looked := k.lookup_eq name
    have var : k.var name = w.globals.get? name := by
      unfold Machine.var
      rw [within.outer, within.globals]
      rfl
    rw [var] at looked
    rw [← within.stack]
    refine (Act.bind_ok (nameOf_toValue name)).trans ?_
    cases found : w.globals.get? name with
    | none =>
      rw [found] at looked
      exact Act.bind_error looked
    | some v =>
      rw [found] at looked
      exact Act.bind_ok looked

theorem follows_binary (op : BinaryOp) (here : Probing code w m pc (b :: a :: stack)) {opcode : Opcode}
    (known : Code.binaryOpcode? op = some opcode) (has : code.Has pc ⟨opcode, .null, line⟩) :
    Follows (do Value.binary op (← Walker.getHeap) a b) w m (Leaves code (pc + 1) stack) := by
  refine here.value (e := Value.binary op w.heap a b) has rfl fun k within => ?_
  rw [execute_binary known, Machine.binary, Act.bind_ok (Machine.pop_cons within.stack),
    Act.bind_ok (Machine.pop_cons rfl), ← within.heap]
  rfl

theorem follows_neg (here : Probing code w m pc (a :: stack)) (has : code.Has pc ⟨.neg, .null, line⟩) :
    Follows (do Value.negate (← Walker.getHeap) a) w m (Leaves code (pc + 1) stack) := by
  refine here.value (e := Value.negate w.heap a) has rfl fun k within => ?_
  rw [← within.heap]
  refine (Act.bind_ok (Machine.pop_cons within.stack)).trans ?_
  rfl

theorem follows_not (here : Probing code w m pc (a :: stack)) (has : code.Has pc ⟨.not, .null, line⟩) :
    Follows (do return .bool !(a.isTruthy (← Walker.getHeap))) w m (Leaves code (pc + 1) stack) := by
  refine here.value (e := .ok (.bool !(a.isTruthy w.heap))) has rfl fun k within => ?_
  rw [← within.heap]
  refine (Act.bind_ok (Machine.pop_cons within.stack)).trans ?_
  rfl

theorem follows_index {object position : Value} (here : Probing code w m pc (position :: object :: stack))
    (has : code.Has pc ⟨.arrayGet, .null, line⟩) :
    Follows (do Value.getIndex (← Walker.getHeap) object position) w m (Leaves code (pc + 1) stack) := by
  refine here.value (e := Value.getIndex w.heap object position) has rfl fun k within => ?_
  rw [← within.heap]
  refine (Act.bind_ok (Machine.pop_cons within.stack)).trans ?_
  refine (Act.bind_ok (Machine.pop_cons rfl)).trans ?_
  rfl

theorem follows_member {object : Value} {property : String}
    (here : Probing code w m pc (.text property :: object :: stack))
    (has : code.Has pc ⟨.memberGet, .null, line⟩) :
    Follows (do Value.getMember (← Walker.getHeap) object (.text property)) w m
      (Leaves code (pc + 1) stack) := by
  refine here.value (e := Value.getMember w.heap object (.text property)) has rfl fun k within => ?_
  rw [← within.heap]
  refine (Act.bind_ok (Machine.pop_cons within.stack)).trans ?_
  refine (Act.bind_ok (Machine.pop_cons rfl)).trans ?_
  rfl

/-- Operands are taken in the order in which they were left. -/
theorem taken {values : List Value} {k : Machine} (operands : k.stack = values.reverse ++ stack) {n : Int}
    (counted : n = values.length) : Machine.take n k = (.ok values, { k with stack }) := by
  have enough : values.length ≤ k.stack.length := by
    rw [operands, List.length_append, List.length_reverse]
    omega
  have taken := Machine.take_eq enough
  rwa [operands, List.take_left' List.length_reverse, List.reverse_reverse,
    List.drop_left' List.length_reverse, ← counted] at taken

theorem follows_list {values : List Value} (here : Probing code w m pc (values.reverse ++ stack))
    (has : code.Has pc ⟨.arrayCreate, .int values.length, line⟩) :
    Follows (do
      let (v, heap) := (← Walker.getHeap).newList values.toArray
      Walker.setHeap heap
      return v) w m (Leaves code (pc + 1) stack) := by
  refine here.fresh (e := .ok (w.heap.newList values.toArray)) has rfl ?_ fun k within => ?_
  · rintro _ _ ⟨⟩ ref cell
    exact Machine.get?_alloc_old
  · rw [← within.heap]
    refine (Act.bind_ok (taken within.stack (Int.one_mul _))).trans ?_
    rfl

theorem get?_slice {heap heap' : Heap} {object start stop : Value}
    (sliced : Value.slice heap object start stop = .ok (v, heap')) (ref : Ref) (cell : Cell)
    (here : heap.get? ref = some cell) : heap'.get? ref = some cell := by
  unfold Value.slice at sliced
  split at sliced
  · obtain ⟨_, _, sliced⟩ := bind_eq_ok.mp sliced
    obtain ⟨_, _, sliced⟩ := bind_eq_ok.mp sliced
    cases sliced
    exact Machine.get?_alloc_old here
  · obtain ⟨_, _, sliced⟩ := bind_eq_ok.mp sliced
    obtain ⟨_, _, sliced⟩ := bind_eq_ok.mp sliced
    cases sliced
    exact here
  · cases sliced

theorem follows_slice {object start stop : Value}
    (here : Probing code w m pc (stop :: start :: object :: stack))
    (has : code.Has pc ⟨.slice, .null, line⟩) :
    Follows (do
      let (v, heap) ← Value.slice (← Walker.getHeap) object start stop
      Walker.setHeap heap
      return v) w m (Leaves code (pc + 1) stack) := by
  refine here.fresh (e := Value.slice w.heap object start stop) has rfl ?_ fun k within => ?_
  · exact fun v heap => get?_slice
  · rw [← within.heap]
    refine (Act.bind_ok (Machine.pop_cons within.stack)).trans ?_
    refine (Act.bind_ok (Machine.pop_cons rfl)).trans ?_
    refine (Act.bind_ok (Machine.pop_cons rfl)).trans ?_
    rfl

/-- A jump that depends on the value on top. -/
theorem after_jumpIf {x : Walker.Walk α} {good : α → Walker → Machine → Prop} {target : Nat}
    (here : Probing code w m pc (a :: stack)) (has : code.Has pc ⟨.jumpIf, .int target, line⟩)
    (rest : ∀ m', Probing code w m' (if a.isTruthy w.heap then target else pc + 1) stack →
      Follows x w m' good) : Follows x w m good := by
  refine here.alone has (fun k within => ?_) rest
  rw [← within.heap]
  refine (Act.bind_ok (Machine.pop_cons within.stack)).trans ?_
  show (if a.isTruthy k.heap then Machine.jumpTo target else pure ()) { k with stack } = _
  split
  · rfl
  · rw [← within.pc]
    rfl

theorem after_jumpIfNot {x : Walker.Walk α} {good : α → Walker → Machine → Prop} {target : Nat}
    (here : Probing code w m pc (a :: stack)) (has : code.Has pc ⟨.jumpIfNot, .int target, line⟩)
    (rest : ∀ m', Probing code w m' (if a.isTruthy w.heap then pc + 1 else target) stack →
      Follows x w m' good) : Follows x w m good := by
  refine here.alone has (fun k within => ?_) rest
  rw [← within.heap]
  refine (Act.bind_ok (Machine.pop_cons within.stack)).trans ?_
  show (if a.isTruthy k.heap then pure () else Machine.jumpTo target) { k with stack } = _
  split
  · rw [← within.pc]
    rfl
  · rfl

theorem after_dup {x : Walker.Walk α} {good : α → Walker → Machine → Prop} {operand : Value}
    (here : Probing code w m pc (a :: stack)) (has : code.Has pc ⟨.dup, operand, line⟩)
    (rest : ∀ m', Probing code w m' (pc + 1) (a :: a :: stack) → Follows x w m' good) :
    Follows x w m good := by
  refine here.alone has (fun k within => ?_) rest
  refine (Act.bind_ok (peek_cons within.stack)).trans ?_
  rw [← within.pc, ← within.stack]
  rfl

theorem after_pop {x : Walker.Walk α} {good : α → Walker → Machine → Prop} {operand : Value}
    (here : Probing code w m pc (a :: stack)) (has : code.Has pc ⟨.pop, operand, line⟩)
    (rest : ∀ m', Probing code w m' (pc + 1) stack → Follows x w m' good) :
    Follows x w m good := by
  refine here.alone has (fun k within => ?_) rest
  refine (Act.bind_ok (Machine.pop_cons within.stack)).trans ?_
  rw [← within.pc]
  rfl

theorem after_push {x : Walker.Walk α} {good : α → Walker → Machine → Prop}
    (here : Probing code w m pc stack) (has : code.Has pc ⟨.push, v, line⟩)
    (rest : ∀ m', Probing code w m' (pc + 1) (v :: stack) → Follows x w m' good) :
    Follows x w m good := by
  refine here.alone has (fun k within => ?_) rest
  rw [← within.pc, ← within.stack]
  rfl

theorem follows_record {entries : List (Name × Value)}
    (named : ∀ entry ∈ entries, entry.1.isText = true)
    (here : Probing code w m pc ((alternating entries).reverse ++ stack))
    (has : code.Has pc ⟨.objectCreate, .int entries.length, line⟩) :
    Follows (do
      let (v, heap) := (← Walker.getHeap).newMap (Bindings.ofList entries)
      Walker.setHeap heap
      return v) w m (Leaves code (pc + 1) stack) := by
  refine here.fresh (e := .ok (w.heap.newMap (Bindings.ofList entries))) has rfl ?_ fun k within => ?_
  · rintro _ _ ⟨⟩ ref cell
    exact Machine.get?_alloc_old
  · rw [← within.heap]
    have counted : (2 * entries.length : Int) = (alternating entries).length := by
      rw [length_alternating]
      omega
    have heap : Machine.getHeap k = (.ok k.heap, k) := rfl
    refine (Act.bind_ok heap).trans ?_
    refine (Act.bind_ok (taken within.stack counted)).trans ?_
    refine (Act.bind_ok (pairUp_alternating named ..)).trans ?_
    rfl

end Instructions

/-! Expressions. -/

/-- Values were left on top of some operands, the last one on top. -/
def LeavesAll (code : Code) (pc : Nat) (stack : List Value) (count : Nat) (values : List Value)
    (w : Walker) (m : Machine) : Prop :=
  Probing code w m pc (values.reverse ++ stack) ∧ values.length = count

/-- The entries of a record were left on top of some operands, each as its key and its value. -/
def LeavesEntries (code : Code) (pc : Nat) (stack : List Value) (count : Nat)
    (entries : List (Name × Value)) (w : Walker) (m : Machine) : Prop :=
  Probing code w m pc ((alternating entries).reverse ++ stack) ∧ entries.length = count ∧
    ∀ entry ∈ entries, entry.1.isText = true

variable (invoke : Walker.Invoke) {scope : Scope}

mutual

theorem follows_eval : ∀ (e : Expr) {base next : Nat} {line : Option Int} {stack : List Value}
    {w : Walker} {m : Machine}, ExprAt code scope line base e next → e.Every Expr.Shaped →
    e.Every Expr.IsCallFree → Probing code w m base stack →
    Follows (Walker.eval invoke e) w m (Leaves code next stack)
  | .literal _ _ value, _, _, _, _, _, _, placed, _, _, here => by
    cases placed with | literal has =>
    simp only [Walker.eval]
    exact follows_push here has
  | .var _ name, _, _, _, _, _, _, placed, shaped, _, here => by
    cases placed with | var has =>
    obtain ⟨s, rfl, -⟩ := show name.IsName from shaped
    simp only [Walker.eval]
    exact follows_walk (a := .text s) rfl (follows_load here has)
  | .binary pos op left right, _, _, _, _, _, _, placed, shaped, free, here => by
    cases placed with
    | and first dup skip pop second =>
      simp only [Walker.eval]
      refine (follows_eval left first shaped.2.1 free.2.1 here).bind fun v w m here => ?_
      refine follows_walk rfl ?_
      refine after_dup here dup fun m here => after_jumpIfNot here skip fun m here => ?_
      split at here
      next yes =>
        rw [if_pos yes]
        refine after_pop here pop fun m here => ?_
        exact follows_eval right second shaped.2.2 free.2.2 here
      next no =>
        rw [if_neg no]
        exact follows_pure here
    | or first dup skip pop second =>
      simp only [Walker.eval]
      refine (follows_eval left first shaped.2.1 free.2.1 here).bind fun v w m here => ?_
      refine follows_walk rfl ?_
      refine after_dup here dup fun m here => after_jumpIf here skip fun m here => ?_
      split at here
      next yes =>
        rw [if_pos yes]
        exact follows_pure here
      next no =>
        rw [if_neg no]
        refine after_pop here pop fun m here => ?_
        exact follows_eval right second shaped.2.2 free.2.2 here
    | binary known first second has =>
      have walks : Walker.eval invoke (.binary pos op left right) = (do
          let a ← Walker.eval invoke left
          let b ← Walker.eval invoke right
          Value.binary op (← Walker.getHeap) a b) := by
        cases op <;> cases known <;> simp only [Walker.eval]
      rw [walks]
      refine (follows_eval left first shaped.2.1 free.2.1 here).bind fun a w m here => ?_
      refine (follows_eval right second shaped.2.2 free.2.2 here).bind fun b w m here => ?_
      exact follows_binary op here known has
  | .unary _ op operand, _, _, _, _, _, _, placed, shaped, free, here => by
    cases placed with
    | neg inner has =>
      simp only [Walker.eval]
      refine (follows_eval operand inner shaped.2 free.2 here).bind fun v w m here => ?_
      exact follows_neg here has
    | not inner has =>
      simp only [Walker.eval]
      refine (follows_eval operand inner shaped.2 free.2 here).bind fun v w m here => ?_
      exact follows_not here has
  | .call _ _ _, _, _, _, _, _, _, _, _, free, _ => False.elim free.1
  | .new _ _ _, _, _, _, _, _, _, _, _, free, _ => False.elim free.1
  | .invoke _ _ _ _, _, _, _, _, _, _, _, _, free, _ => False.elim free.1
  | .list _ elements, _, _, _, _, _, _, placed, shaped, free, here => by
    cases placed with | list inner has =>
    simp only [Walker.eval]
    refine (follows_evalAll elements inner shaped.2 free.2 here).bind fun values w m given => ?_
    obtain ⟨here, length⟩ := given
    rw [← length] at has
    exact follows_list here has
  | .record _ entries, _, _, _, _, _, _, placed, shaped, free, here => by
    cases placed with | record inner has =>
    simp only [Walker.eval]
    refine (follows_evalEntries entries inner shaped.1 shaped.2 free.2 here).bind
      fun values w m given => ?_
    obtain ⟨here, length, named⟩ := given
    rw [← length] at has
    exact follows_record named here has
  | .index _ object position, _, _, _, _, _, _, placed, shaped, free, here => by
    cases placed with | index first second has =>
    simp only [Walker.eval]
    refine (follows_eval object first shaped.2.1 free.2.1 here).bind fun v w m here => ?_
    refine (follows_eval position second shaped.2.2 free.2.2 here).bind fun v w m here => ?_
    exact follows_index here has
  | .slice _ object start stop, _, _, _, _, _, _, placed, shaped, free, here => by
    cases placed with | slice first second third has =>
    simp only [Walker.eval]
    refine (follows_eval object first shaped.2.1 free.2.1 here).bind fun v w m here => ?_
    refine (follows_evalOption start second shaped.2.2.1 free.2.2.1 here).bind fun v w m here => ?_
    refine (follows_evalOption stop third shaped.2.2.2 free.2.2.2 here).bind fun v w m here => ?_
    exact follows_slice here has
  | .member _ object property, _, _, _, _, _, _, placed, shaped, free, here => by
    cases placed with | member inner push get =>
    obtain ⟨s, rfl, -⟩ := show property.IsName from shaped.1
    simp only [Walker.eval]
    refine (follows_eval object inner shaped.2 free.2 here).bind fun v w m here => ?_
    refine after_push here push fun m here => ?_
    exact follows_congr (bind_memberName ..) (follows_member here get)
  | .alien _, _, _, _, _, _, _, placed, _, _, _ => nomatch placed

theorem follows_evalAll : ∀ (es : List Expr) {base next : Nat} {line : Option Int}
    {stack : List Value} {w : Walker} {m : Machine}, ExprsAt code scope line base es next →
    Expr.EveryIn Expr.Shaped es → Expr.EveryIn Expr.IsCallFree es → Probing code w m base stack →
    Follows (Walker.evalAll invoke es) w m (LeavesAll code next stack es.length)
  | [], _, _, _, _, _, _, placed, _, _, here => by
    cases placed
    simp only [Walker.evalAll]
    exact follows_pure ⟨here, rfl⟩
  | e :: es, _, _, _, _, _, _, placed, shaped, free, here => by
    cases placed with | cons first rest =>
    simp only [Walker.evalAll]
    refine (follows_eval e first shaped.1 free.1 here).bind fun v w m here => ?_
    refine (follows_evalAll es rest shaped.2 free.2 here).bind fun values w m given => ?_
    obtain ⟨here, length⟩ := given
    refine follows_pure ⟨?_, by rw [List.length_cons, List.length_cons, length]⟩
    rwa [List.reverse_cons, List.append_assoc]

theorem follows_evalOption : ∀ (bound : Option Expr) {base next : Nat} {line : Option Int}
    {stack : List Value} {w : Walker} {m : Machine}, BoundAt code scope line base bound next →
    Expr.EveryBound Expr.Shaped bound → Expr.EveryBound Expr.IsCallFree bound →
    Probing code w m base stack →
    Follows (Walker.evalOption invoke bound) w m (Leaves code next stack)
  | none, _, _, _, _, _, _, placed, _, _, here => by
    cases placed with | absent has =>
    simp only [Walker.evalOption]
    exact follows_push here has
  | some e, _, _, _, _, _, _, placed, shaped, free, here => by
    cases placed with | present inner =>
    simp only [Walker.evalOption]
    exact follows_eval e inner shaped free here

theorem follows_evalEntries : ∀ (entries : List (Constant × Expr)) {base next : Nat}
    {line : Option Int} {stack : List Value} {w : Walker} {m : Machine},
    EntriesAt code scope line base entries next → (∀ entry ∈ entries, entry.1.IsText) →
    Expr.EveryEntry Expr.Shaped entries → Expr.EveryEntry Expr.IsCallFree entries →
    Probing code w m base stack →
    Follows (Walker.evalEntries invoke entries) w m (LeavesEntries code next stack entries.length)
  | [], _, _, _, _, _, _, placed, _, _, _, here => by
    cases placed
    simp only [Walker.evalEntries]
    exact follows_pure ⟨here, rfl, fun _ member => nomatch member⟩
  | (key, e) :: entries, _, _, _, _, _, _, placed, named, shaped, free, here => by
    cases placed with | cons has first rest =>
    obtain ⟨s, rfl⟩ := named _ List.mem_cons_self
    simp only [Walker.evalEntries]
    refine follows_walk (a := s) rfl ?_
    refine after_push here has fun m here => ?_
    refine (follows_eval e first shaped.1 free.1 here).bind fun v w m here => ?_
    refine (follows_evalEntries entries rest
      (fun entry member => named entry (List.mem_cons_of_mem _ member)) shaped.2 free.2 here).bind
      fun values w m given => ?_
    obtain ⟨here, length, texts⟩ := given
    refine follows_pure ⟨?_, by rw [List.length_cons, List.length_cons, length], ?_⟩
    · simpa [alternating, Constant.value] using here
    · rintro entry (_ | ⟨_, member⟩)
      · rfl
      · exact texts entry member

end

end Probing

namespace Machine

/-- Where the code of an expression stands that is compiled by itself. -/
theorem exprAt_of_single {source : String} {program : Program} {pos : Pos} {e : Expr}
    (parsed : Program.parse source expressionSource = .ok program) (single : program.body = [.expr pos e]) :
    ∃ code scope finish, compileExpression source = .ok code ∧
      ExprAt code scope pos.line 0 e finish ∧ code.Has finish ⟨.halt, .null, none⟩ := by
  have main : program.main = [.expr pos e] := by
    unfold Program.main
    rw [single]
    rfl
  have fine : ¬ ∃ body, program.Compiles body ∧ Stmt.Misuse body := by
    rintro ⟨body, compiles, misuse⟩
    cases compiles with
    | main =>
      rw [main, Stmt.misuse_iff, Stmt.misusedIn_leaf rfl rfl] at misuse
      exact misuse
    | @function before after f split => 
      have member : .define f ∈ program.body := by simp [split]
      simp [single] at member
    | @method before after pos' name methods f split =>
      have member : .defineClass pos' name methods ∈ program.body := by simp [split]
      simp [single] at member
  obtain ⟨code, compiled⟩ := (Program.compile_refused_iff parsed expressionSource true).2.mpr fine
  obtain ⟨finish, laidOut⟩ := Program.laidOut_of_compile (Program.parse_shaped parsed) compiled
  have outermost : program.classes.length = 0 := by
    unfold Program.classes
    rw [single]
    rfl
  have compiled : compileExpression source = .ok code := by
    unfold compileExpression
    rw [parsed]
    exact compiled
  refine ⟨code, program.scope expressionSource, finish, compiled, ?_⟩
  have placed := laidOut.main
  rw [main, outermost] at placed
  cases placed with
  | plain other => exact absurd rfl (other rfl pos e)
  | @kept init _ _ _ mid _ same placed inner halt =>
    obtain ⟨rfl, last⟩ := @List.append_inj' _ [] _ _ _ same rfl
    cases last
    cases placed
    exact ⟨inner, halt⟩

/-- An expression without calls is worth what the walker computes over the same global variables and
cells, wherever the program of the machine is: in the middle of calls, finished or not yet begun. If
the walker fails there is no value. It takes a limit that allows for the instructions that are
executed, the halt included. Global variables and the cells that were there stay as they are. -/
theorem evaluate_callFree {m : Machine} {source : String} {program : Program} {pos : Pos} {e : Expr}
    (parsed : Program.parse source expressionSource = .ok program) (single : program.body = [.expr pos e])
    (free : e.Every Expr.IsCallFree) (invoke : Walker.Invoke) {w : Walker}
    (globals : w.globals = m.globals) (heap : w.heap = m.heap) (outside : w.locals = none) :
    ∃ code n, compileExpression source = .ok code ∧ (∀ k, (m.probe code).Executes k ↔ k = n) ∧
      (n ≤ m.evaluationSteps →
        (match Walker.eval invoke e w with
          | (.ok v, w') => (m.evaluate source).1 = v ∧ (m.evaluate source).2.heap = w'.heap
          | (.error _, _) => (m.evaluate source).1 = .null) ∧
        m.Untouched (m.evaluate source).2) := by
  obtain ⟨code, scope, finish, compiled, placed, halt⟩ := exprAt_of_single parsed single
  have shaped : e.Every Expr.Shaped := by
    have shaped := Program.shaped_of_mem (Program.parse_shaped parsed)
      (show Stmt.expr pos e ∈ program.body by simp [single])
    exact shaped.2
  have here : Probing code w (m.probe code) 0 [] :=
    ⟨rfl, rfl, rfl, rfl, rfl, globals.symm, heap.symm, outside⟩
  have follows := Probing.follows_eval invoke e placed shaped free here
  suffices ∃ n v ended, (m.probe code).Evaluates n v ended ∧ (m.probe code).Untouched ended ∧
      match Walker.eval invoke e w with
      | (.ok u, w') => v = some u ∧ ended.heap = w'.heap
      | (.error _, _) => v = none by
    obtain ⟨n, v, ended, evaluates, untouched, same⟩ := this
    refine ⟨code, n, compiled, fun k => ⟨?_, ?_⟩, fun enough => ?_⟩
    · rintro ⟨_, _, other⟩
      exact (evaluates.unique other).1
    · rintro rfl
      exact ⟨v, ended, evaluates⟩
    · have finished := evaluates.finishWithin (show n ≤ m.evaluationSteps.toNat by omega)
      have evaluated : m.evaluate source = (v.getD .null, ended.reinstate m) := by
        unfold evaluate
        rw [compiled]
        dsimp only
        rw [finished]
      rw [evaluated]
      refine ⟨?_, untouched.globals, untouched.cells⟩
      split at same
      · exact ⟨by rw [same.1]; rfl, same.2⟩
      · rw [same]
        rfl
  rcases walked : Walker.eval invoke e w with ⟨failure | v, w'⟩
  all_goals
    unfold Probing.Follows at follows
    rw [walked] at follows
  · obtain ⟨n, ended, evaluates, untouched⟩ := follows
    exact ⟨n, none, ended, evaluates, untouched, rfl⟩
  · obtain ⟨last, ⟨k, leads⟩, untouched, there⟩ := follows
    obtain ⟨k', halts⟩ := there.leads halt rfl
    have ended := leads _ _ _ (halts _ _ _ (.completed rfl))
    refine ⟨_, _, _, ended, ⟨untouched.globals, untouched.cells⟩, ?_, there.heap⟩
    show last.stack.head? = some v
    rw [there.stack]
    rfl

/-- Two calls deep, with a list in a global variable. -/
theorem evaluate_callFree_nested : ∃ (m : Machine) (w : Walker) (program : Program) (pos : Pos) (e : Expr),
    (m.frames.length = 2 ∧ w.globals = m.globals ∧ w.heap = m.heap ∧ w.locals = none) ∧
    Program.parse "items[-1] + 2" expressionSource = .ok program ∧ program.body = [.expr pos e] ∧
    e.Every Expr.IsCallFree ∧ (m.evaluate "items[-1] + 2").1 = .int 7 ∧
    ∃ code n, compileExpression "items[-1] + 2" = .ok code ∧ (∀ k, (m.probe code).Executes k ↔ k = n) ∧
      (n ≤ m.evaluationSteps →
        (match Walker.eval (fun _ _ _ => pure .null) e w with
          | (.ok v, w') => (m.evaluate "items[-1] + 2").1 = v ∧ (m.evaluate "items[-1] + 2").2.heap = w'.heap
          | (.error _, _) => (m.evaluate "items[-1] + 2").1 = .null) ∧
        m.Untouched (m.evaluate "items[-1] + 2").2) := by
  let globals : Bindings Value := [(.text "items", .list 0)]
  let heap : Heap := ⟨#[.list #[.int 3, .int 5]]⟩
  let m : Machine := { Machine.new {} with globals, world := { heap }, frames := [default, default] }
  let w : Walker := { Walker.new {} with globals, world := { heap } }
  have checked : (Program.parse "items[-1] + 2" expressionSource).toOption.any (fun program =>
      program.body.length = 1 && program.body.all Stmt.isItemSum) = true := by decide +kernel
  rcases parsed : Program.parse "items[-1] + 2" expressionSource with failure | program
  · rw [parsed] at checked
    cases checked
  rw [parsed] at checked
  simp only [Except.toOption, Option.any_some] at checked
  obtain ⟨pos, e, single, free⟩ : ∃ pos e, program.body = [.expr pos e] ∧ e.Every Expr.IsCallFree := by
    rw [Bool.and_eq_true, decide_eq_true_eq] at checked
    obtain ⟨s, alone⟩ := List.length_eq_one_iff.mp checked.1
    have sum : s.isItemSum = true := by simpa [alone] using checked.2
    unfold Stmt.isItemSum at sum
    split at sum
    next => exact ⟨_, _, alone, by simp only [Expr.Every, Expr.IsCallFree, and_self]⟩
    next => cases sum
  refine ⟨m, w, program, pos, e, ⟨rfl, rfl, rfl, rfl⟩, rfl, single, free, by decide +kernel,
    evaluate_callFree parsed single free _ rfl rfl rfl⟩

end Machine

end Stepwise
