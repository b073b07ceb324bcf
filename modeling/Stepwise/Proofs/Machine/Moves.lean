import Stepwise.Proofs.Host.Replies

/-!
What an instruction does to a machine and what it does not look at, said once for all instructions.
`Worked` lists what can happen to a machine within a step, and no instruction can tell machines apart
that differ in breakpoints and watches only. Main statement: `works_execute`.
-/
namespace Stepwise.Machine

variable {α β : Type} {m m' : Machine}

/-- A machine with other breakpoints and watches. -/
def watching (m : Machine) (breakpoints : List Int) (watches : List Name) : Machine :=
  { m with breakpoints, watches }

/-- What happens to a machine within a step. Only the end of the program marks a report as done. -/
inductive Worked : Machine → Machine → Prop where
  | still {m : Machine} {engine : Engine} {pc : Int} {stack : List Value} {frames : List CallFrame}
      {classes : Bindings (Bindings Int)} : m.toEngine.Still engine →
      Worked m { m with toEngine := engine, pc, stack, frames, classes }
  /-- A call leaves the program; it may be answered or not. -/
  | called {m : Machine} (name : Name) (args : List Value) :
      Worked m { m with toEngine := (m.toEngine.call name args).2 }
  | completed {m : Machine} :
      Worked m { m with status := .completed, report := { m.report with done := true } }
  | trans {m m' m'' : Machine} : Worked m m' → Worked m' m'' → Worked m m''

theorem Worked.refl (m : Machine) : Worked m m := .still (.refl _)

/-- However an action ends, it goes the ways that are listed, and it does the same to a machine with
other breakpoints and watches. -/
structure Works (x : Action α) : Prop where
  worked : ∀ m, Worked m (x m).2
  blind : ∀ (m : Machine) (breakpoints : List Int) (watches : List Name),
    x (m.watching breakpoints watches) = ((x m).1, (x m).2.watching breakpoints watches)

namespace Works

theorem bind {x : Action α} {f : α → Action β} (first : Works x) (rest : ∀ a, Works (f a)) :
    Works (x >>= f) where
  worked m := by
    have early := first.worked m
    rcases Act.bind_state x f m with same | ⟨a, -, late⟩
    · exact same ▸ early
    · exact late ▸ early.trans ((rest a).worked _)
  blind m breakpoints watches := by
    rw [Act.bind_apply, Act.bind_apply, first.blind]
    rcases x m with ⟨failure | a, next⟩
    · rfl
    · exact (rest a).blind next breakpoints watches

theorem ite {c : Prop} [Decidable c] {x y : Action α} (yes : Works x) (no : Works y) :
    Works (if c then x else y) := by
  split
  · exact yes
  · exact no

end Works

section Actions

theorem works_pure (a : α) : Works (pure a : Action α) := ⟨.refl, fun _ _ _ => rfl⟩

theorem works_throw (failure : Failure) : Works (throw failure : Action α) :=
  ⟨.refl, fun _ _ _ => rfl⟩

theorem works_lift (x : Except Failure α) : Works (liftM x : Action α) := ⟨.refl, fun _ _ _ => rfl⟩

/-- Looking at a machine without looking at its breakpoints and watches. -/
theorem works_get {f : Machine → Action α} (works : ∀ m, Works (f m))
    (blind : ∀ (m : Machine) (breakpoints : List Int) (watches : List Name),
      f (m.watching breakpoints watches) = f m) : Works (get >>= f) where
  worked m := (works m).worked m
  blind m breakpoints watches := by
    rw [Act.bind_apply, Act.bind_apply, Act.get_apply, Act.get_apply]
    dsimp only
    rw [blind]
    exact (works m).blind m breakpoints watches

theorem works_getHeap : Works getHeap := ⟨.refl, fun _ _ _ => rfl⟩

theorem works_setHeap (heap : Heap) : Works (setHeap heap) where
  worked m := .still
    (Engine.still_work m.toEngine m.globals (m.world.withHeap heap) m.report.highlightLine)
  blind _ _ _ := rfl

theorem works_push (v : Value) : Works (push v) := ⟨fun _ => .still (.refl _), fun _ _ _ => rfl⟩

theorem works_pushAll (values : List Value) : Works (pushAll values) :=
  ⟨fun _ => .still (.refl _), fun _ _ _ => rfl⟩

theorem works_jumpTo (address : Int) : Works (jumpTo address) :=
  ⟨fun _ => .still (.refl _), fun _ _ _ => rfl⟩

theorem works_pop : Works pop where
  worked m := by
    cases top : m.stack with
    | nil =>
      rw [pop_nil top]
      exact .refl m
    | cons v rest =>
      rw [pop_cons top]
      exact .still (.refl _)
  blind m breakpoints watches := by
    cases top : m.stack with
    | nil =>
      rw [pop_nil top, pop_nil (m := m.watching breakpoints watches) top]
    | cons v rest =>
      rw [pop_cons top, pop_cons (m := m.watching breakpoints watches) top]
      rfl

theorem works_peek : Works peek := by
  refine works_get (fun m => ?_) fun _ _ _ => rfl
  split
  · exact works_throw _
  · exact works_pure _

theorem works_take (count : Int) : Works (take count) where
  worked m := by
    obtain ⟨stack, taken⟩ := take_state (m := m) count
    rw [taken]
    exact .still (.refl _)
  blind m breakpoints watches := by
    simp only [take, Act.bind_apply, Act.get_apply, watching]
    split <;> rfl

theorem works_lookup (name : Name) : Works (lookup name) := by
  refine works_get (fun m => ?_) fun _ _ _ => rfl
  split
  · exact works_pure _
  · exact works_throw _

theorem works_store (name : Name) (v : Value) : Works (store name v) where
  worked m := by
    cases frames : m.frames with
    | nil =>
      rw [store_global name v frames]
      exact .still (Engine.still_work m.toEngine (m.globals.put name v) m.world _)
    | cons frame callers =>
      rw [store_local name v frames]
      exact .still (.refl _)
  blind m breakpoints watches := by
    cases frames : m.frames with
    | nil =>
      rw [store_global name v frames, store_global (m := m.watching breakpoints watches) name v frames]
      rfl
    | cons frame callers =>
      rw [store_local name v frames, store_local (m := m.watching breakpoints watches) name v frames]
      rfl

theorem works_call (name : Name) (args : List Value) :
    Works (outside fun engine => engine.call name args) :=
  ⟨fun _ => .called name args, fun _ _ _ => rfl⟩

theorem works_callBuiltin (name : Name) (args : List Value) :
    Works (outside fun engine => engine.callBuiltin name args) :=
  ⟨fun m => .still (Engine.still_callBuiltin m.toEngine name args), fun _ _ _ => rfl⟩

end Actions

section Operands

variable (i : Instruction)

theorem works_nameOf : Works (nameOf i) := by
  unfold nameOf
  split
  · exact works_pure _
  · exact works_throw _

theorem works_addressOf : Works (addressOf i) := by
  unfold addressOf
  split
  · exact works_pure _
  · exact works_throw _

theorem works_calleeOf : Works (calleeOf i) := by
  unfold calleeOf
  split
  · split
    · exact works_pure _
    · exact works_throw _
  · exact works_throw _

theorem works_takeCounted (factor : Int) : Works (takeCounted i factor) := by
  unfold takeCounted
  split
  · exact works_take _
  · refine works_get (fun m => ?_) fun _ _ _ => rfl
    exact .ite (works_throw _) (.ite (works_pure _) (works_throw _))
  · exact works_throw _

end Operands

theorem works_pairUp (heap : Heap) (values : List Value) : Works (pairUp heap values) := by
  induction values using pairUp.induct with
  | case1 => exact works_pure _
  | case2 key v rest ih =>
    unfold pairUp
    exact (works_lift _).bind fun _ => ih.bind fun _ => works_pure _
  | case3 => exact works_throw _

theorem works_binary (op : BinaryOp) : Works (binary op) :=
  works_pop.bind fun _ => works_pop.bind fun _ => works_getHeap.bind fun _ =>
    (works_lift _).bind works_push

theorem works_enter (name : String) (address argc : Int) (line : Option Int) (base : Int)
    (receiver : Option Value) : Works (enter name address argc line base receiver) where
  worked m := by
    rw [enter_eq]
    split
    · exact .refl m
    · exact .still (.refl _)
  blind m breakpoints watches := by
    have same : (m.watching breakpoints watches).callFault? name argc receiver =
      m.callFault? name argc receiver := rfl
    rw [enter_eq, enter_eq, same]
    cases m.callFault? name argc receiver <;> rfl

/-- Returning outside of calls ends the program, and nothing else marks it as done. -/
theorem works_leave : Works leave where
  worked m := by
    cases top : m.stack with
    | nil =>
      unfold leave
      rw [Act.bind_apply, pop_nil top]
      exact .refl m
    | cons v rest =>
      cases frames : m.frames with
      | nil =>
        rw [leave_outer top frames]
        have alone : Worked m { m with stack := [v] } := .still (.refl _)
        exact alone.trans .completed
      | cons frame callers =>
        rw [leave_inner top frames]
        exact .still (.refl _)
  blind m breakpoints watches := by
    cases top : m.stack with
    | nil =>
      unfold leave
      rw [Act.bind_apply, Act.bind_apply, pop_nil top,
        pop_nil (m := m.watching breakpoints watches) top]
    | cons v rest =>
      cases frames : m.frames with
      | nil =>
        rw [leave_outer top frames, leave_outer (m := m.watching breakpoints watches) top frames]
        rfl
      | cons frame callers =>
        rw [leave_inner top frames, leave_inner (m := m.watching breakpoints watches) top frames]
        rfl

theorem works_instantiate (className : String) (argc : Int) (line : Option Int) :
    Works (instantiate className argc line) := by
  refine (works_take _).bind fun args => works_get (fun m => ?_) fun _ _ _ => rfl
  split
  next => exact works_throw _
  next =>
    split
    next =>
      refine .ite (works_getHeap.bind fun _ => ?_) (works_throw _)
      exact (works_setHeap _).bind fun _ => works_push _
    next =>
      refine works_getHeap.bind fun _ => (works_setHeap _).bind fun _ => ?_
      exact works_get (fun m => (works_pushAll _).bind fun _ => works_enter _ _ _ _ _ _)
        fun _ _ _ => rfl

theorem works_callMethod (method : String) (argc : Int) (line : Option Int) :
    Works (callMethod method argc line) := by
  refine (works_take _).bind fun taken => ?_
  split
  next => exact works_throw _
  next receiver args =>
    refine works_get (fun m => ?_) fun _ _ _ => rfl
    split
    next =>
      dsimp only
      split
      next => exact works_throw _
      next => exact (works_pushAll _).bind fun _ => works_enter _ _ _ _ _ _
    next =>
      refine .ite ?_ (works_throw _)
      exact (works_callBuiltin _ _).bind fun _ => works_push _

/-- Every instruction works as listed. -/
theorem works_execute (i : Instruction) : Works (execute i) := by
  obtain ⟨op, operand, line⟩ := i
  unfold execute
  cases op
  case push => exact works_push _
  case pop => exact works_pop.bind fun _ => works_pure _
  case dup => exact works_peek.bind fun _ => works_push _
  case load => exact (works_nameOf _).bind fun _ => (works_lookup _).bind fun _ => works_push _
  case store => exact works_pop.bind fun _ => (works_nameOf _).bind fun _ => works_store _ _
  case add | sub | mul | div | mod | floorDiv | pow | eq | neq | lt | gt | lte | gte | isIn =>
    exact works_binary _
  case neg | repeatCount =>
    exact works_pop.bind fun _ => works_getHeap.bind fun _ => (works_lift _).bind fun _ =>
      works_push _
  case not => exact works_pop.bind fun _ => works_getHeap.bind fun _ => works_push _
  case jump => exact (works_addressOf _).bind works_jumpTo
  case jumpIf =>
    refine works_pop.bind fun _ => works_getHeap.bind fun _ => ?_
    exact .ite ((works_addressOf _).bind works_jumpTo) (works_pure _)
  case jumpIfNot =>
    refine works_pop.bind fun _ => works_getHeap.bind fun _ => ?_
    exact .ite (works_pure _) ((works_addressOf _).bind works_jumpTo)
  case halt =>
    refine ⟨fun m => ?_, fun _ _ _ => rfl⟩
    have back : Worked m { m with pc := m.pc - 1 } := .still (.refl _)
    exact back.trans .completed
  case nop => exact works_pure _
  case rangeCheck =>
    refine (works_take _).bind fun bounds => ?_
    dsimp only
    split
    · exact (works_lift _).bind fun _ => works_pushAll _
    · exact works_pushAll _
  case call =>
    exact (works_calleeOf _).bind fun _ => (works_take _).bind fun _ => (works_call _ _).bind fun _ =>
      works_push _
  case callUser =>
    refine (works_calleeOf _).bind fun _ => works_get (fun m => ?_) fun _ _ _ => rfl
    split
    · exact works_throw _
    · exact works_enter _ _ _ _ _ _
  case ret => exact works_leave
  case arrayCreate =>
    refine (works_takeCounted _ _).bind fun _ => works_getHeap.bind fun _ => ?_
    exact (works_setHeap _).bind fun _ => works_push _
  case arrayGet =>
    exact works_pop.bind fun _ => works_pop.bind fun _ => works_getHeap.bind fun _ =>
      (works_lift _).bind fun _ => works_push _
  case arraySet =>
    exact works_pop.bind fun _ => works_pop.bind fun _ => works_pop.bind fun _ =>
      works_getHeap.bind fun _ => (works_lift _).bind fun _ => works_setHeap _
  case slice =>
    refine works_pop.bind fun _ => works_pop.bind fun _ => works_pop.bind fun _ =>
      works_getHeap.bind fun _ => (works_lift _).bind fun _ => ?_
    exact (works_setHeap _).bind fun _ => works_push _
  case objectCreate =>
    refine works_getHeap.bind fun _ => (works_takeCounted _ _).bind fun _ =>
      (works_pairUp _ _).bind fun _ => works_getHeap.bind fun _ => ?_
    exact (works_setHeap _).bind fun _ => works_push _
  case classDef =>
    refine (works_nameOf _).bind fun name => ⟨fun m => ?_, fun _ _ _ => rfl⟩
    exact .still (.refl _)
  case new => exact (works_calleeOf _).bind fun _ => works_instantiate _ _ _
  case memberGet =>
    exact works_pop.bind fun _ => works_pop.bind fun _ => works_getHeap.bind fun _ =>
      (works_lift _).bind fun _ => (works_lift _).bind fun _ => works_push _
  case memberSet =>
    exact works_pop.bind fun _ => works_pop.bind fun _ => works_pop.bind fun _ =>
      works_getHeap.bind fun _ => (works_lift _).bind fun _ => (works_lift _).bind fun _ =>
      works_setHeap _
  case methodCall => exact (works_calleeOf _).bind fun _ => works_callMethod _ _ _

end Stepwise.Machine
