import Stepwise.Proofs.Agreement.Relation

/-!
What single instructions do for a computation of the walker that they stand for: taking and
leaving operands, the operators, variables and jumps.
-/
namespace Stepwise

open Machine (Keeps Reaches isHidden)

variable {S : Setting} {height number pc : Nat} {stack : List Value} {w : Walker} {m k : Machine}
  {α β : Type}

namespace At

/-- The state of both after operands were taken and left. -/
theorem withStack (here : At S height w m pc stack) (stack' : List Value) :
    At S height w { m with stack := stack' } pc stack' :=
  { here with stack := rfl }

theorem withPc (here : At S height w m pc stack) (pc' : Nat) :
    At S height w { m with pc := (pc' : Int) } pc' stack :=
  { here with pc := rfl }

theorem withHeap (here : At S height w m pc stack) (heap : Heap) :
    At S height { w with world := w.world.withHeap heap }
      { m with world := m.world.withHeap heap } pc stack :=
  { here with
    shares := ⟨by rw [here.shares.world], here.shares.host, here.shares.globals,
      here.shares.message⟩ }

/-- A line and a count of statements are the walker's own. -/
theorem withLine (here : At S height w m pc stack) (line : Option Int) (begun : Nat) :
    At S height { w with line, begun } m pc stack :=
  { here with
    shares := ⟨here.shares.world, here.shares.host, here.shares.globals, here.shares.message⟩ }

end At

namespace During

theorem withStack (here : During S height w k pc stack) (stack' : List Value) :
    During S height w { k with stack := stack' } pc stack' :=
  ⟨here.toAt.withStack stack', here.going⟩

theorem withHeap (here : During S height w k pc stack) (heap : Heap) :
    During S height { w with world := w.world.withHeap heap }
      { k with world := k.world.withHeap heap } pc stack :=
  ⟨here.toAt.withHeap heap, here.going⟩

end During

section Rules

variable {x : Walker.Walk α} {post : α → Walker → Machine → Prop} {v : Value} {values : List Value}

theorem carries_pop {g : Value → Machine.Action Unit} (here : During S height w k pc (v :: stack))
    (rest : During S height w { k with stack } pc stack →
      Carries number x w (g v) { k with stack } post) :
    Carries number x w (Machine.pop >>= g) k post :=
  carries_machine (Machine.pop_cons here.stack) (.of_eq rfl rfl) (rest (here.withStack stack))

/-- Operands are taken in the order in which they were left. -/
theorem carries_take {g : List Value → Machine.Action Unit}
    (here : During S height w k pc (values.reverse ++ stack)) {n : Int}
    (counted : n = values.length)
    (rest : During S height w { k with stack } pc stack →
      Carries number x w (g values) { k with stack } post) :
    Carries number x w (Machine.take n >>= g) k post := by
  have enough : values.length ≤ k.stack.length := by
    rw [here.stack, List.length_append, List.length_reverse]
    omega
  have taken := Machine.take_eq enough
  rw [here.stack, List.take_left' List.length_reverse, List.reverse_reverse,
    List.drop_left' List.length_reverse, ← counted] at taken
  exact carries_machine taken (.of_eq rfl rfl) (rest (here.withStack stack))

theorem carries_pushAll {g : Unit → Machine.Action Unit} (here : During S height w k pc stack)
    (rest : During S height w { k with stack := values.reverse ++ stack } pc
        (values.reverse ++ stack) →
      Carries number x w (g ()) { k with stack := values.reverse ++ stack } post) :
    Carries number x w (Machine.pushAll values >>= g) k post := by
  refine carries_machine (j := { k with stack := values.reverse ++ stack }) ?_ (.of_eq rfl rfl)
    (rest (here.withStack _))
  rw [← here.stack]
  rfl

/-- An instruction that ends by leaving a value. -/
theorem carries_push (here : During S height w k pc stack) {a : α}
    (holds : ∀ m', At S height w m' pc (v :: stack) → post a w m') :
    Carries number (pure a) w (Machine.push v) k post := by
  refine carries_done (j := { k with stack := v :: stack }) ?_ here.going (.of_eq rfl rfl)
    (holds _ (here.toAt.withStack _))
  rw [← here.stack]
  rfl

theorem carries_jump (here : During S height w k pc stack) {a : α} {target : Nat}
    (holds : ∀ m', At S height w m' target stack → post a w m') :
    Carries number (pure a) w (Machine.jumpTo target) k post :=
  carries_done rfl here.going (.of_eq rfl rfl) (holds _ (here.toAt.withPc target))

theorem carries_heap {f : Heap → Walker.Walk α} {g : Heap → Machine.Action Unit}
    (here : During S height w k pc stack) (rest : Carries number (f w.heap) w (g w.heap) k post) :
    Carries number (Walker.getHeap >>= f) w (Machine.getHeap >>= g) k post := by
  refine carries_walk (a := w.heap) rfl (.refl w) (carries_machine (b := w.heap) ?_ (.refl _) rest)
  rw [here.shares.heap]
  rfl

theorem carries_machineHeap {g : Heap → Machine.Action Unit} (here : During S height w k pc stack)
    (rest : Carries number x w (g w.heap) k post) :
    Carries number x w (Machine.getHeap >>= g) k post := by
  refine carries_machine (b := w.heap) ?_ (.refl _) rest
  rw [here.shares.heap]
  rfl

theorem carries_setHeap {f : Unit → Walker.Walk α} {g : Unit → Machine.Action Unit} {heap : Heap}
    (here : During S height w k pc stack)
    (rest : During S height { w with world := w.world.withHeap heap }
        { k with world := k.world.withHeap heap } pc stack →
      Carries number (f ()) { w with world := w.world.withHeap heap } (g ())
        { k with world := k.world.withHeap heap } post) :
    Carries number (Walker.setHeap heap >>= f) w (Machine.setHeap heap >>= g) k post :=
  carries_walk rfl ⟨rfl, rfl, rfl, rfl⟩
    (carries_machine rfl (.of_eq rfl rfl) (rest (here.withHeap heap)))

end Rules

/-- A value was left on top of some operands. -/
def Pushes (S : Setting) (height pc : Nat) (stack : List Value) (v : Value) (w : Walker)
    (m : Machine) : Prop :=
  At S height w m pc (v :: stack)

/-- The machine is at an address, with some operands. -/
def Rests (S : Setting) (height pc : Nat) (stack : List Value) (_ : α) (w : Walker) (m : Machine) :
    Prop :=
  At S height w m pc stack

section Operands

variable {v : Value} {line : Option Int}

theorem tracks_push (here : At S height w m pc stack) (has : S.code.Has pc ⟨.push, v, line⟩) :
    Tracks number (pure v) w m (Pushes S height (pc + 1) stack) :=
  here.perform has fun during => carries_push during fun _ => id

theorem tracks_pop (here : At S height w m pc (v :: stack)) {operand : Value}
    (has : S.code.Has pc ⟨.pop, operand, line⟩) :
    Tracks number (pure ()) w m (Rests S height (pc + 1) stack) := by
  refine here.perform has fun during => ?_
  refine carries_pop (g := fun _ => pure ()) during fun during => ?_
  exact carries_done rfl during.going (.refl _) during.toAt

theorem peek_cons (top : k.stack = v :: stack) : Machine.peek k = (.ok v, k) := by
  simp only [Machine.peek, Act.bind_apply, Act.get_apply, top, Act.pure_apply]

theorem tracks_dup (here : At S height w m pc (v :: stack)) {operand : Value}
    (has : S.code.Has pc ⟨.dup, operand, line⟩) :
    Tracks number (pure ()) w m (Rests S height (pc + 1) (v :: v :: stack)) := by
  refine here.perform has fun during => ?_
  have peeked := peek_cons during.stack
  refine carries_machine (g := fun v => Machine.push v) peeked (.refl _) ?_
  exact carries_push during fun _ => id

theorem tracks_nop (here : At S height w m pc stack) {operand : Value}
    (has : S.code.Has pc ⟨.nop, operand, line⟩) :
    Tracks number (pure ()) w m (Rests S height (pc + 1) stack) :=
  here.perform has fun during => carries_done rfl during.going (.refl _) during.toAt

theorem tracks_jump (here : At S height w m pc stack) {target : Nat}
    (has : S.code.Has pc ⟨.jump, .int target, line⟩) :
    Tracks number (pure ()) w m (Rests S height target stack) := by
  refine here.perform has fun during => ?_
  refine carries_machine (g := fun address => Machine.jumpTo address) (b := (target : Int)) rfl
    (.refl _) ?_
  exact carries_jump during fun _ => id

/-- A jump that depends on the value on top. -/
theorem tracks_jumpIf (here : At S height w m pc (v :: stack)) {target : Nat}
    (has : S.code.Has pc ⟨.jumpIf, .int target, line⟩) :
    Tracks number (pure ()) w m
      (Rests S height (if v.isTruthy w.heap then target else pc + 1) stack) := by
  refine here.perform has fun during => ?_
  refine carries_pop (g := fun v => do
    if v.isTruthy (← Machine.getHeap) then
      Machine.jumpTo (← Machine.addressOf ⟨.jumpIf, .int target, line⟩)) during fun during => ?_
  refine carries_machineHeap during ?_
  split
  next => 
    refine carries_machine (g := fun address => Machine.jumpTo address) (b := (target : Int)) rfl
      (.refl _) ?_
    exact carries_jump during fun _ => id
  next => exact carries_done rfl during.going (.refl _) during.toAt

theorem tracks_jumpIfNot (here : At S height w m pc (v :: stack)) {target : Nat}
    (has : S.code.Has pc ⟨.jumpIfNot, .int target, line⟩) :
    Tracks number (pure ()) w m
      (Rests S height (if v.isTruthy w.heap then pc + 1 else target) stack) := by
  refine here.perform has fun during => ?_
  refine carries_pop (g := fun v => do
    unless v.isTruthy (← Machine.getHeap) do
      Machine.jumpTo (← Machine.addressOf ⟨.jumpIfNot, .int target, line⟩)) during fun during => ?_
  refine carries_machineHeap during ?_
  split
  next => exact carries_done rfl during.going (.refl _) during.toAt
  next => 
    refine carries_machine (g := fun address => Machine.jumpTo address) (b := (target : Int)) rfl
      (.refl _) ?_
    exact carries_jump during fun _ => id

end Operands

section Operators

variable {a b : Value} {line : Option Int}

theorem execute_binary {op : BinaryOp} {opcode : Opcode} (known : Code.binaryOpcode? op = some opcode) :
    Machine.execute ⟨opcode, .null, line⟩ = Machine.binary op := by
  cases op <;> cases known <;> rfl

theorem tracks_binary (op : BinaryOp) (here : At S height w m pc (b :: a :: stack))
    {opcode : Opcode} (known : Code.binaryOpcode? op = some opcode)
    (has : S.code.Has pc ⟨opcode, .null, line⟩) :
    Tracks number (do Value.binary op (← Walker.getHeap) a b) w m
      (Pushes S height (pc + 1) stack) := by
  refine here.perform has fun during => ?_
  rw [execute_binary known]
  refine carries_pop during fun during => carries_pop during fun during => ?_
  refine carries_heap during ?_
  exact carries_value during.shares fun v _ => carries_push during fun _ => id

theorem tracks_neg (here : At S height w m pc (a :: stack))
    (has : S.code.Has pc ⟨.neg, .null, line⟩) :
    Tracks number (do Value.negate (← Walker.getHeap) a) w m (Pushes S height (pc + 1) stack) := by
  refine here.perform has fun during => ?_
  refine carries_pop (g := fun v => do
    Machine.push (← Value.negate (← Machine.getHeap) v)) during fun during => ?_
  refine carries_heap during ?_
  exact carries_value during.shares fun v _ => carries_push during fun _ => id

theorem tracks_not (here : At S height w m pc (a :: stack))
    (has : S.code.Has pc ⟨.not, .null, line⟩) :
    Tracks number (do return .bool !(a.isTruthy (← Walker.getHeap))) w m
      (Pushes S height (pc + 1) stack) := by
  refine here.perform has fun during => ?_
  refine carries_pop (g := fun v => do
    Machine.push (.bool !(v.isTruthy (← Machine.getHeap)))) during fun during => ?_
  refine carries_heap during ?_
  exact carries_push during fun _ => id

end Operators

section Variables

variable {name : Name} {v : Value} {line : Option Int}

theorem nameOf_toValue {op : Opcode} (name : Name) :
    Machine.nameOf ⟨op, name.toValue, line⟩ k = (.ok name, k) := by
  cases name <;> rfl

theorem Machine.lookup_eq (m : Machine) (name : Name) : Machine.lookup name m =
    match m.var name with
    | some v => (.ok v, m)
    | none => (.error (.fault (undefinedVariable name)), m) := by
  unfold Machine.lookup Machine.var
  rw [Act.bind_ok (Act.get_apply m)]
  split <;> rename_i found <;> rw [found] <;> rfl

/-- A name that is not hidden stands for the same on both. -/
theorem At.var (here : At S height w m pc stack) (shown : isHidden name = false) :
    (w.locals.bind fun locals => locals.get? name).or (w.globals.get? name) = m.var name := by
  have globals : w.globals.get? name = m.globals.get? name := by
    rw [← Machine.get?_visible shown, here.shares.globals, Machine.get?_visible shown]
  have agreed : Machine.Scoped w.locals m.frames := here.locals
  unfold Machine.var
  rw [globals]
  generalize w.locals = locals at agreed ⊢
  generalize m.frames = frames at agreed ⊢
  cases locals with
  | none =>
    cases frames with
    | nil => rfl
    | cons => exact agreed.elim
  | some locals =>
    cases frames with
    | nil => exact agreed.elim
    | cons frame callers =>
      have same : locals.get? name = frame.locals.get? name := agreed name shown
      simp [same]

theorem walker_lookup (here : At S height w m pc stack) (shown : isHidden name = false) :
    Walker.lookup name w = match m.var name with
      | some v => (.ok v, w)
      | none => (.error (.fault (undefinedVariable name)), w) := by
  unfold Walker.lookup
  rw [Act.bind_ok (Act.get_apply w), here.var shown]
  split <;> rename_i found <;> rw [found] <;> rfl

theorem tracks_load (here : At S height w m pc stack) (shown : isHidden name = false)
    (has : S.code.Has pc ⟨.load, name.toValue, line⟩) :
    Tracks number (Walker.lookup name) w m (Pushes S height (pc + 1) stack) := by
  refine here.perform has fun during => ?_
  refine carries_machine (g := fun name => do Machine.push (← Machine.lookup name))
    (nameOf_toValue name) (.refl _) ?_
  have walked := walker_lookup during.toAt shown
  have looked := (m.fetched ⟨.load, name.toValue, line⟩).lookup_eq name
  cases found : (m.fetched ⟨.load, name.toValue, line⟩).var name with
  | none =>
    rw [found] at walked looked
    exact carries_stopped walked (Act.bind_error looked) rfl during.shares
  | some v =>
    rw [found] at walked looked
    have walked : Walker.lookup name w = (pure v : Walker.Walk Value) w := walked
    refine carries_machine looked (.refl _) (carries_congr walked ?_)
    exact carries_push during fun _ => id

/-- A hidden variable belongs to the machine alone. -/
theorem tracks_loadHidden (here : At S height w m pc stack) (known : m.var name = some v)
    (has : S.code.Has pc ⟨.load, name.toValue, line⟩) :
    Tracks number (pure v) w m (Pushes S height (pc + 1) stack) := by
  refine here.perform has fun during => ?_
  have looked := (m.fetched ⟨.load, name.toValue, line⟩).lookup_eq name
  have same : (m.fetched ⟨.load, name.toValue, line⟩).var name = some v := known
  rw [same] at looked
  refine carries_machine (g := fun name => do Machine.push (← Machine.lookup name))
    (nameOf_toValue name) (.refl _) (carries_machine looked (.refl _) ?_)
  exact carries_push during fun _ => id

/-- What binding a variable does to a machine. -/
def Machine.stored (m : Machine) (name : Name) (v : Value) : Machine :=
  match m.frames with
  | [] => { m with globals := m.globals.put name v }
  | frame :: callers =>
    { m with frames := { frame with locals := frame.locals.put name v } :: callers }

theorem Machine.store_eq (m : Machine) (name : Name) (v : Value) :
    Machine.store name v m = (.ok (), m.stored name v) := by
  unfold Machine.stored
  split
  next outer => exact Machine.store_global name v outer
  next inner => exact Machine.store_local name v inner

theorem Machine.var_stored (m : Machine) (name other : Name) (v : Value) :
    (m.stored name v).var other = if other.key = name.key then some v else m.var other := by
  unfold Machine.stored Machine.var
  split
  next outer =>
    simp only [outer, List.head?_nil, Option.bind_none, Option.none_or, Bindings.get?_put]
  next inner =>
    simp only [inner, List.head?_cons, Option.bind_some, Bindings.get?_put]
    split <;> rfl

/-- The machine binds a variable that is hidden. -/
theorem At.hide (here : At S height w m pc stack) (hidden : isHidden name = true) :
    At S height w (m.stored name v) pc stack := by
  have agreed : Machine.Scoped w.locals m.frames := here.locals
  unfold Machine.stored
  split
  next outer =>
    refine { here with shares := ⟨here.shares.world, here.shares.host, ?_, here.shares.message⟩ }
    show Machine.visible w.globals = Machine.visible (m.globals.put name v)
    rw [Machine.visible_put, if_pos hidden, here.shares.globals]
  next frame callers inner =>
    rw [inner] at agreed
    refine { here with height := ?_, locals := ?_ }
    · rw [← here.height, inner]
      rfl
    · cases locals : w.locals with
      | none =>
        rw [locals] at agreed
        exact agreed.elim
      | some bindings =>
        rw [locals] at agreed
        intro other shown
        have apart := (Machine.key_ne_of_hidden shown hidden).symm
        exact (agreed other shown).trans (Bindings.get?_put_other apart ..).symm

/-- Binding a variable that is not that of an outer loop leaves those alone. -/
theorem Machine.keeps_stored (m : Machine) {name : Name} (v : Value)
    (apart : ∀ bound ∈ loopBounds, ∀ k < number, (loopVar bound k).key ≠ name.key) :
    m.Keeps number (m.stored name v) := by
  unfold Machine.stored
  split
  next outer =>
    refine ⟨sameCalls_refl _, fun bound known k less => ?_⟩
    exact Bindings.get?_put_other (apart bound known k (less outer)) ..
  next frame callers inner =>
    refine ⟨?_, fun _ _ _ _ => rfl⟩
    rw [inner]
    exact .inner fun bound known k less => Bindings.get?_put_other (apart bound known k less) ..

theorem Machine.done_stored (m : Machine) (name : Name) (v : Value) :
    (m.stored name v).report = m.report := by
  unfold Machine.stored
  split <;> rfl

theorem Walker.steady_store (w : Walker) (name : Name) (v : Value) :
    w.Steady (Walker.store name v w).2 := by
  simp only [Walker.store, Act.modify_apply]
  split <;> exact ⟨rfl, rfl, rfl, rfl⟩

/-- Both bind a variable that is not hidden. -/
theorem At.stored (here : At S height w m pc stack) :
    At S height (Walker.store name v w).2 (m.stored name v) pc stack := by
  have agreed : Machine.Scoped w.locals m.frames := here.locals
  simp only [Walker.store, Act.modify_apply]
  unfold Machine.stored
  cases frames : m.frames with
  | nil =>
    rw [frames] at agreed
    cases locals : w.locals with
    | some => 
      rw [locals] at agreed
      exact agreed.elim
    | none =>
      refine { here with height := ?_, locals := trivial, shares := ?_ }
      · rw [← here.height, frames]
      · exact ⟨here.shares.world, here.shares.host,
          Machine.visible_put_congr here.shares.globals name v, here.shares.message⟩
  | cons frame callers =>
    rw [frames] at agreed
    cases locals : w.locals with
    | none => 
      rw [locals] at agreed
      exact agreed.elim
    | some bindings =>
      rw [locals] at agreed
      refine { here with height := ?_, locals := ?_ }
      · rw [← here.height, frames]
        rfl
      · intro other seen
        show (bindings.put name v).get? other = (frame.locals.put name v).get? other
        rw [Bindings.get?_put, Bindings.get?_put, agreed other seen]

theorem tracks_store (here : At S height w m pc (v :: stack)) (shown : isHidden name = false)
    (has : S.code.Has pc ⟨.store, name.toValue, line⟩) :
    Tracks number (Walker.store name v) w m fun _ w' m' => At S height w' m' (pc + 1) stack ∧
      ∀ other : Name, isHidden other = true → m'.var other = m.var other := by
  refine here.perform has fun during => ?_
  refine carries_pop (g := fun v => do
    Machine.store (← Machine.nameOf ⟨.store, name.toValue, line⟩) v) during fun during => ?_
  refine carries_machine (nameOf_toValue name) (.refl _) ?_
  refine carries_ends rfl (w.steady_store name v) (Machine.store_eq _ name v) ?_
    (Machine.keeps_stored _ v ?_) ?_
  · rw [Machine.done_stored]
    exact during.going
  · exact fun bound _ k _ => Machine.key_ne_of_hidden shown (Machine.isHidden_loopVar bound k)
  · refine ⟨during.toAt.stored, fun other hidden => ?_⟩
    rw [Machine.var_stored, if_neg (Machine.key_ne_of_hidden shown hidden)]
    rfl

/-- The machine binds a hidden variable of a loop. -/
theorem tracks_hide (here : At S height w m pc (v :: stack)) (bound : String)
    (known : bound ∈ loopBounds) {n : Nat} (fresh : number ≤ n)
    (has : S.code.Has pc ⟨.store, (loopVar bound n).toValue, line⟩) :
    Tracks number (pure ()) w m fun _ w' m' => At S height w' m' (pc + 1) stack ∧ ∀ name : Name,
      m'.var name = if name.key = (loopVar bound n).key then some v else m.var name := by
  refine here.perform has fun during => ?_
  refine carries_pop (g := fun v => do
    Machine.store (← Machine.nameOf ⟨.store, (loopVar bound n).toValue, line⟩) v) during
    fun during => ?_
  refine carries_machine (nameOf_toValue _) (.refl _) ?_
  refine carries_done (Machine.store_eq _ _ v) ?_ (Machine.keeps_stored _ v ?_) ⟨?_, ?_⟩
  · rw [Machine.done_stored]
    exact during.going
  · intro other known' k less same
    have := (loopVar_inj known' known same).2
    omega
  · exact during.toAt.hide (Machine.isHidden_loopVar bound n)
  · exact fun name => Machine.var_stored ..

end Variables

end Stepwise
