import Stepwise.Machine.Debug
import Stepwise.Proofs.Machine.Steps
import Stepwise.Proofs.Renaming.Builtins

/-!
Machines do not depend on how cells are numbered. A machine and one with the same state under other
numbers execute an instruction alike, as long as the calls that leave the program do.
-/
namespace Stepwise

open Value (Image)

/-- A handler that refers to cells only: when what it is given does, so does what it hands out. -/
def Handler.Sound (handler : Handler) : Prop :=
  ∀ earlier args heap, heap.Closed → (∀ call ∈ earlier, ∀ v ∈ call, v.Below heap.size) →
    (∀ v ∈ args, v.Below heap.size) →
    let reply := handler earlier args heap
    reply.heap.Closed ∧ heap.size ≤ reply.heap.size ∧
      (∀ v, reply.outcome = .ok v → v.Below reply.heap.size) ∧
      ∀ name v, .setGlobal name v ∈ reply.requests → v.Below reply.heap.size

/-- A host whose handlers are sound and have been called with values below a size. -/
def Host.Sound (size : Nat) (host : Host) : Prop :=
  ∀ name role bound, host.find? name = some (role, bound) →
    bound.handler.Sound ∧ ∀ args ∈ bound.earlier, ∀ v ∈ args, v.Below size

/-- A sound host. Nothing is said about how handlers take other numbers, so there are none where the
numbers change. -/
def Host.Tame (ρ : Ref → Ref) (size : Nat) (host : Host) : Prop :=
  host.Sound size ∧ (ρ = id ∨ ∀ name, host.find? name = none)

theorem Host.Sound.mono {size more : Nat} {host : Host} (sound : host.Sound size)
    (le : size ≤ more) : host.Sound more := by
  intro name role bound found
  obtain ⟨sound, earlier⟩ := sound name role bound found
  exact ⟨sound, fun args member v arg => (earlier args member v arg).mono le⟩

theorem Host.Tame.mono {ρ : Ref → Ref} {size more : Nat} {host : Host} (tame : host.Tame ρ size)
    (le : size ≤ more) : host.Tame ρ more :=
  ⟨tame.1.mono le, tame.2⟩

theorem Host.find?_note {host : Host} {role role' : Role} {name other : Name}
    {bound bound' : Bound} {args left : List Value}
    (found : (host.note role name bound args left).find? other = some (role', bound')) :
    host.find? other = some (role', bound') ∨
      bound' = { bound with earlier := args :: bound.earlier } := by
  unfold note find? at found
  unfold find?
  cases role with
  | command =>
    simp only [Bindings.get?_put] at found
    split at found
    next bound'' here =>
      split at here
      · cases here
        cases found
        exact .inr rfl
      · rw [here]
        exact .inl found
    next none =>
      split at none
      · cases none
      · rw [none]
        exact .inl found
  | sensor =>
    simp only [Bindings.get?_put] at found
    split at found
    next => exact .inl found
    next =>
      split at found
      · cases found
        exact .inr rfl
      · exact .inl found

namespace Machine

/-- A machine in the state of another one, under other numbers. Only what a step depends on
counts. -/
structure Embeds (ρ : Ref → Ref) (x m : Machine) : Prop where
  world : x.world.Embeds ρ m.world
  stack : Images ρ x.heap.size x.stack m.stack
  globals : (∀ entry ∈ x.globals, entry.2.Below x.heap.size) ∧ m.globals = x.globals.rename ρ
  frames : (∀ frame ∈ x.frames, ∀ v ∈ frame.roots, v.Below x.heap.size) ∧
    m.frames = x.frames.map (CallFrame.rename ρ)
  host : x.host.Tame ρ x.heap.size ∧ m.host = x.host
  code : m.code = x.code
  pc : m.pc = x.pc
  classes : m.classes = x.classes
  status : m.status = x.status
  fault : m.fault = x.fault
  stepCount : m.stepCount = x.stepCount
  maxSteps : m.maxSteps = x.maxSteps
  maxCallDepth : m.maxCallDepth = x.maxCallDepth
  report : m.report = x.report

/-- What no instruction changes. -/
structure Fixed where
  code : Option Code
  history : List Snapshot
  historyCap : Nat
  fault : Option Fault
  stepCount : Nat
  maxSteps : Int
  maxCallDepth : Int

def fixed (x : Machine) : Fixed :=
  ⟨x.code, x.history, x.historyCap, x.fault, x.stepCount, x.maxSteps, x.maxCallDepth⟩

/-- How a machine may differ from what it was before an instruction. -/
structure After (chance : Prop) (x x' : Machine) : Prop where
  world : x.world.Grows chance x'.world
  fixed : x'.fixed = x.fixed
  done : x.report.done = x.status.isFinal → x'.report.done = x'.status.isFinal
  host : (∀ name, x.host.find? name = none) → x'.host = x.host

theorem After.refl {chance : Prop} (x : Machine) : x.After chance x :=
  ⟨.refl _, rfl, id, fun _ => rfl⟩

theorem After.trans {chance : Prop} {x y z : Machine} (first : x.After chance y)
    (second : y.After chance z) : x.After chance z := by
  refine ⟨first.world.trans second.world, second.fixed.trans first.fixed,
    second.done ∘ first.done, fun none => ?_⟩
  have same := first.host none
  exact (second.host (by rwa [same])).trans same

/-- Two actions that do the same to a machine and to an image of it. -/
def Mirrored {α β : Type} (ρ : Ref → Ref) (chance : Prop) (R : Machine → α → β → Prop) (act : Action α)
    (act' : Action β) (x m : Machine) : Prop :=
  match act x, act' m with
  | (.ok a, x'), (.ok b, m') => Embeds ρ x' m' ∧ x.After chance x' ∧ R x' a b
  | (.error failure, x'), (.error failure', m') =>
    failure = failure' ∧ Embeds ρ x' m' ∧ x.After chance x'
  | _, _ => False

/-- Results that are images of each other. -/
def ValueImage (ρ : Ref → Ref) (x : Machine) (v w : Value) : Prop := Image ρ x.heap.size v w

/-- Any results. -/
def Done {α β : Type} (_ : Machine) (_ : α) (_ : β) : Prop := True

/-- The same results. -/
def Same {α : Type} (_ : Machine) (a b : α) : Prop := a = b

variable {α β γ δ : Type} {ρ : Ref → Ref} {chance : Prop} {R : Machine → α → β → Prop}
  {S : Machine → γ → δ → Prop} {x m : Machine}

theorem Mirrored.bind {act : Action α} {act' : Action β} {f : α → Action γ} {f' : β → Action δ}
    (first : Mirrored ρ chance R act act' x m)
    (rest : ∀ a b x' m', Embeds ρ x' m' → x.After chance x' → R x' a b →
      Mirrored ρ chance S (f a) (f' b) x' m') :
    Mirrored ρ chance S (act >>= f) (act' >>= f') x m := by
  unfold Mirrored at first ⊢
  rw [Act.bind_apply, Act.bind_apply]
  generalize act x = result at first
  generalize act' m = result' at first
  rcases result with ⟨failure | a, x'⟩ <;> rcases result' with ⟨failure' | b, m'⟩
  · exact first
  · exact first.elim
  · exact first.elim
  · obtain ⟨embeds, after, related⟩ := first
    have rest := rest a b x' m' embeds after related
    unfold Mirrored at rest
    dsimp only
    generalize f a x' = result at rest
    generalize f' b m' = result' at rest
    rcases result with ⟨failure | c, x''⟩ <;> rcases result' with ⟨failure' | d, m''⟩
    · exact ⟨rest.1, rest.2.1, after.trans rest.2.2⟩
    · exact rest
    · exact rest
    · exact ⟨rest.1, after.trans rest.2.1, rest.2.2⟩

theorem Mirrored.pure {a : α} {b : β} (embeds : Embeds ρ x m) (related : R x a b) :
    Mirrored ρ chance R (Pure.pure a) (Pure.pure b) x m := ⟨embeds, .refl x, related⟩

theorem Mirrored.throw (embeds : Embeds ρ x m) (failure : Failure) :
    Mirrored ρ chance R (throw failure) (throw failure) x m := ⟨rfl, embeds, .refl x⟩

/-- Computations that do not look at the machine come first. -/
theorem Mirrored.lift {Q : α → β → Prop} {act : Except Failure α} {act' : Except Failure β}
    {f : α → Action γ} {f' : β → Action δ} (embeds : Embeds ρ x m) (alike : Alike Q act act')
    (rest : ∀ a b, Q a b → Mirrored ρ chance S (f a) (f' b) x m) :
    Mirrored ρ chance S (liftM act >>= f) (liftM act' >>= f') x m := by
  cases alike with
  | ok related => exact rest _ _ related
  | error => exact ⟨rfl, embeds, .refl x⟩

theorem Mirrored.done {act : Action α} {act' : Action β} (mirrored : Mirrored ρ chance R act act' x m) :
    Mirrored ρ chance Done act act' x m := by
  unfold Mirrored at mirrored ⊢
  generalize act x = result at mirrored ⊢
  generalize act' m = result' at mirrored ⊢
  rcases result with ⟨failure | a, x'⟩ <;> rcases result' with ⟨failure' | b, m'⟩
  · exact mirrored
  · exact mirrored
  · exact mirrored
  · exact ⟨mirrored.1, mirrored.2.1, trivial⟩

/-- An action that only changes the machine. -/
theorem Mirrored.state {act : Action α} {act' : Action β} {a : α} {b : β} {x' m' : Machine}
    (done : act x = (.ok a, x')) (done' : act' m = (.ok b, m')) (embeds : Embeds ρ x' m')
    (after : x.After chance x') (related : R x' a b) : Mirrored ρ chance R act act' x m := by
  unfold Mirrored
  rw [done, done']
  exact ⟨embeds, after, related⟩

theorem mirrored_push (embeds : Embeds ρ x m) {v w : Value} (image : Image ρ x.heap.size v w) :
    Mirrored ρ chance Done (push v) (push w) x m := by
  refine .state rfl rfl { embeds with stack := ⟨?_, ?_⟩ } ⟨.refl _, rfl, id, fun _ => rfl⟩ trivial
  · intro u member
    rcases List.mem_cons.mp member with rfl | under
    · exact image.1
    · exact embeds.stack.1 u under
  · show w :: m.stack = (v :: x.stack).map _
    rw [List.map_cons, image.2, embeds.stack.2]

theorem mirrored_emptyStack (embeds : Embeds ρ x m) : Mirrored ρ chance R emptyStack emptyStack x m :=
  .throw embeds _

theorem mirrored_pop (embeds : Embeds ρ x m) : Mirrored ρ chance (ValueImage ρ) pop pop x m := by
  have below := embeds.stack.1
  have same := embeds.stack.2
  cases stack : x.stack with
  | nil =>
    rw [stack] at same
    unfold Mirrored pop
    simp only [Act.bind_apply, Act.get_apply, stack, same]
    exact ⟨rfl, embeds, .refl x⟩
  | cons v rest =>
    rw [stack] at same below
    refine .state (pop_cons stack) (pop_cons same) { embeds with stack := ⟨?_, rfl⟩ }
      ⟨.refl _, rfl, id, fun _ => rfl⟩ ⟨?_, rfl⟩
    · exact fun u member => below u (.tail _ member)
    · exact below v (.head _)

theorem mirrored_peek (embeds : Embeds ρ x m) : Mirrored ρ chance (ValueImage ρ) peek peek x m := by
  have below := embeds.stack.1
  have same := embeds.stack.2
  unfold Mirrored peek
  simp only [Act.bind_apply, Act.get_apply, same]
  cases stack : x.stack with
  | nil => exact ⟨rfl, embeds, .refl x⟩
  | cons v rest =>
    rw [stack] at below
    exact ⟨embeds, .refl x, below v (.head _), rfl⟩

theorem mirrored_take (embeds : Embeds ρ x m) (count : Int) :
    Mirrored ρ chance (fun _ => Images ρ x.heap.size) (take count) (take count) x m := by
  have below := embeds.stack.1
  have same := embeds.stack.2
  unfold Mirrored take
  simp only [Act.bind_apply, Act.get_apply, same, List.length_map]
  by_cases missing : count > (x.stack.length : Int)
  · simp only [if_pos missing]
    exact ⟨rfl, embeds, .refl x⟩
  · simp only [if_neg missing, Act.bind_apply, Act.set_apply, Act.pure_apply]
    generalize (if count < 0 then x.stack.length - count.natAbs else count.toNat) = taken
    refine ⟨{ embeds with stack := ⟨?_, ?_⟩ }, ⟨.refl _, rfl, id, fun _ => rfl⟩, ?_, ?_⟩
    · exact fun v member => below v (List.mem_of_mem_drop member)
    · exact (List.map_drop ..).symm
    · exact fun v member => below v (List.mem_of_mem_take (List.mem_reverse.mp member))
    · rw [List.map_reverse, List.map_take]

theorem mirrored_pushAll (embeds : Embeds ρ x m) {vs ws : List Value}
    (images : Images ρ x.heap.size vs ws) : Mirrored ρ chance Done (pushAll vs) (pushAll ws) x m := by
  refine .state rfl rfl { embeds with stack := ⟨?_, ?_⟩ } ⟨.refl _, rfl, id, fun _ => rfl⟩ trivial
  · intro v member
    rcases List.mem_append.mp member with top | under
    · exact images.1 v (List.mem_reverse.mp top)
    · exact embeds.stack.1 v under
  · show ws.reverse ++ m.stack = (vs.reverse ++ x.stack).map _
    rw [List.map_append, List.map_reverse, images.2, embeds.stack.2]

/-- The heaps of a machine and of its image. -/
def Heaps (ρ : Ref → Ref) (x : Machine) (core heap : Heap) : Prop :=
  core = x.heap ∧ core.Embeds ρ heap

theorem mirrored_getHeap (embeds : Embeds ρ x m) : Mirrored ρ chance (Heaps ρ) getHeap getHeap x m :=
  ⟨embeds, .refl x, rfl, embeds.world.heap⟩

/-- A bigger heap leaves the rest of a machine in order. -/
theorem Embeds.withHeap (embeds : Embeds ρ x m) {core heap : Heap}
    (grown : Heap.Embeds.Grown ρ x.heap core heap) :
    Embeds ρ { x with world := x.world.withHeap core } { m with world := m.world.withHeap heap } := by
  obtain ⟨le, heaps⟩ := grown
  refine { embeds with
    world := ⟨heaps, embeds.world.output, embeds.world.numbers, embeds.world.drawn⟩
    stack := ⟨fun v member => (embeds.stack.1 v member).mono le, embeds.stack.2⟩
    globals := ⟨fun entry member => (embeds.globals.1 entry member).mono le, embeds.globals.2⟩
    frames := ⟨fun frame member v root => (embeds.frames.1 frame member v root).mono le,
      embeds.frames.2⟩
    host := ⟨embeds.host.1.mono le, embeds.host.2⟩ }

theorem mirrored_setHeap (embeds : Embeds ρ x m) {core heap : Heap}
    (grown : Heap.Embeds.Grown ρ x.heap core heap) :
    Mirrored ρ chance (fun x' _ _ => x'.heap = core) (setHeap core) (setHeap heap) x m :=
  .state rfl rfl (embeds.withHeap grown) ⟨⟨grown.1, List.prefix_rfl, rfl, .inr rfl⟩, rfl, id, fun _ => rfl⟩
    rfl

theorem mirrored_jumpTo (embeds : Embeds ρ x m) (address : Int) :
    Mirrored ρ chance Done (jumpTo address) (jumpTo address) x m :=
  .state rfl rfl { embeds with pc := rfl } ⟨.refl _, rfl, id, fun _ => rfl⟩ trivial

theorem mirrored_nameOf (embeds : Embeds ρ x m) (i : Instruction) :
    Mirrored ρ chance Same (nameOf i) (nameOf i) x m := by
  unfold nameOf
  split
  · exact .pure embeds rfl
  · exact .throw embeds _

theorem mirrored_addressOf (embeds : Embeds ρ x m) (i : Instruction) :
    Mirrored ρ chance Same (addressOf i) (addressOf i) x m := by
  unfold addressOf
  split
  · exact .pure embeds rfl
  · exact .throw embeds _

theorem mirrored_calleeOf (embeds : Embeds ρ x m) (i : Instruction) :
    Mirrored ρ chance Same (calleeOf i) (calleeOf i) x m := by
  unfold calleeOf
  split
  · split
    · exact .pure embeds rfl
    · exact .throw embeds _
  · exact .throw embeds _

theorem mirrored_get (embeds : Embeds ρ x m) :
    Mirrored ρ chance (fun x' a b => a = x' ∧ Embeds ρ a b) (get : Action Machine) get x m :=
  ⟨embeds, .refl x, rfl, embeds⟩

theorem Embeds.height (embeds : Embeds ρ x m) : m.stack.length = x.stack.length := by
  rw [embeds.stack.2, List.length_map]

theorem mirrored_takeCounted (embeds : Embeds ρ x m) (i : Instruction) (factor : Int) :
    Mirrored ρ chance (fun _ => Images ρ x.heap.size) (takeCounted i factor) (takeCounted i factor)
      x m := by
  unfold takeCounted
  split
  · exact mirrored_take embeds _
  · refine .bind (mirrored_get embeds) ?_
    rintro a b x' m' embeds' - ⟨-, both⟩
    rw [both.height]
    split
    · exact mirrored_emptyStack embeds'
    · split
      · exact .pure embeds' ⟨(fun _ member => nomatch member), rfl⟩
      · exact .throw embeds' _
  · exact .throw embeds _

theorem mirrored_lookup (embeds : Embeds ρ x m) (name : Name) :
    Mirrored ρ chance (ValueImage ρ) (lookup name) (lookup name) x m := by
  have own : (m.frames.head?.bind fun frame => frame.locals.get? name) =
      (x.frames.head?.bind fun frame => frame.locals.get? name).map (Value.rename ρ) := by
    rw [embeds.frames.2]
    cases x.frames with
    | nil => rfl
    | cons frame callers => exact Bindings.get?_rename ρ frame.locals name
  have others : m.globals.get? name = (x.globals.get? name).map (Value.rename ρ) := by
    rw [embeds.globals.2, Bindings.get?_rename]
  have below : ∀ v, ((x.frames.head?.bind fun frame => frame.locals.get? name).or
      (x.globals.get? name)) = some v → v.Below x.heap.size := by
    intro v found
    rcases Option.or_eq_some_iff.mp found with inFrame | ⟨-, inGlobals⟩
    · obtain ⟨frame, head, here⟩ := Option.bind_eq_some_iff.mp inFrame
      obtain ⟨known, member, -⟩ := Bindings.mem_of_get? here
      refine embeds.frames.1 frame (List.mem_of_head? head) v ?_
      exact List.mem_append_left _ (List.mem_map_of_mem member)
    · exact Bindings.below_of_get? embeds.globals.1 inGlobals
  unfold Mirrored lookup
  simp only [Act.bind_apply, Act.get_apply, own, others]
  cases found : ((x.frames.head?.bind fun frame => frame.locals.get? name).or
      (x.globals.get? name)) with
  | none =>
    obtain ⟨none, none'⟩ := Option.or_eq_none_iff.mp found
    simp only [none, none', Option.map_none, Option.or_none]
    exact ⟨rfl, embeds, .refl x⟩
  | some v =>
    rw [← Option.map_or, found]
    exact ⟨embeds, .refl x, below v found, rfl⟩

theorem mirrored_store (embeds : Embeds ρ x m) (name : Name) {v w : Value}
    (image : Image ρ x.heap.size v w) :
    Mirrored ρ chance Done (store name v) (store name w) x m := by
  obtain ⟨below, rfl⟩ := image
  obtain ⟨known, same⟩ := embeds.frames
  cases inner : x.frames with
  | nil =>
    rw [inner] at same
    refine .state (store_global name v inner) (store_global name _ same)
      { embeds with globals := ⟨?_, ?_⟩ } ⟨.refl _, rfl, id, fun _ => rfl⟩ trivial
    · exact Bindings.below_put embeds.globals.1 below
    · show Bindings.put _ _ m.globals = (Bindings.put name v x.globals).rename ρ
      rw [Bindings.put_rename, embeds.globals.2]
  | cons frame callers =>
    rw [inner] at same known
    refine .state (store_local name v inner) (store_local name _ same)
      { embeds with frames := ⟨?_, ?_⟩ } ⟨.refl _, rfl, id, fun _ => rfl⟩ trivial
    · intro other member u root
      rcases List.mem_cons.mp member with rfl | outer
      · rcases List.mem_append.mp root with bound | receiver
        · obtain ⟨entry, there, rfl⟩ := List.mem_map.mp bound
          refine Bindings.below_put (fun entry old => ?_) below entry there
          exact known frame (.head _) _ (List.mem_append_left _ (List.mem_map_of_mem old))
        · exact known frame (.head _) u (List.mem_append_right _ receiver)
      · exact known other (.tail _ outer) u root
    · show _ :: _ = _ :: _
      simp only [CallFrame.rename, Bindings.put_rename]

/-- A call of a name draws a number only where there may be chance. -/
def Draws (chance : Prop) (name : Name) : Prop :=
  ∀ b, Builtin.ofName? name = some b → b.isRandom = true → chance

theorem mirrored_callBuiltin (embeds : Embeds ρ x m) {name : Name} (draws : Draws chance name)
    {args : List Value} (below : ∀ v ∈ args, v.Below x.heap.size) :
    Mirrored ρ chance (ValueImage ρ) (outside fun engine => engine.callBuiltin name args)
      (outside fun engine => engine.callBuiltin name (args.map (Value.rename ρ))) x m := by
  have called := Builtin.call_alike embeds.world name draws below
  unfold Mirrored outside Engine.callBuiltin
  dsimp only
  generalize Builtin.call name x.world args = result at called
  generalize Builtin.call name m.world (args.map (Value.rename ρ)) = result' at called
  cases called with
  | error => exact ⟨rfl, embeds, .refl x⟩
  | @ok made made' related =>
    obtain ⟨grows, image, world⟩ := related
    have grown : Heap.Embeds.Grown ρ x.heap made.2.heap made'.2.heap := ⟨grows.cells, world.heap⟩
    have moved := embeds.withHeap grown
    refine ⟨?_, ⟨grows, rfl, id, fun _ => rfl⟩, image⟩
    exact { moved with world := world }

/-- Under the same numbers, the same engine. -/
theorem Embeds.engine_eq (embeds : Embeds id x m) : m.toEngine = x.toEngine := by
  have globals : m.globals = x.globals := by rw [embeds.globals.2, Bindings.rename_same]
  have world : m.world = x.world := by
    have heap := embeds.world.heap.eq_of_id
    have output := embeds.world.output
    have numbers := embeds.world.numbers
    have drawn := embeds.world.drawn
    revert heap output numbers drawn
    cases m.world
    cases x.world
    rintro rfl rfl rfl rfl
    rfl
  have status := embeds.status
  have fault := embeds.fault
  have stepCount := embeds.stepCount
  have maxSteps := embeds.maxSteps
  have maxCallDepth := embeds.maxCallDepth
  have host := embeds.host.2
  have report := embeds.report
  revert globals world status fault stepCount maxSteps maxCallDepth host report
  cases m.toEngine
  cases x.toEngine
  rintro rfl rfl rfl rfl rfl rfl rfl rfl rfl
  rfl

/-- Another engine in both machines, with the same numbers. -/
theorem Embeds.withEngine (embeds : Embeds id x m) {engine : Engine}
    (le : x.heap.size ≤ engine.heap.size) (closed : engine.heap.Closed)
    (globals : ∀ entry ∈ engine.globals, entry.2.Below engine.heap.size)
    (sound : engine.host.Sound engine.heap.size) :
    Embeds id { x with toEngine := engine } { m with toEngine := engine } where
  world := ⟨closed.embeds, rfl, rfl, rfl⟩
  stack := ⟨fun v member => (embeds.stack.1 v member).mono le, embeds.stack.2⟩
  globals := ⟨globals, (Bindings.rename_same _).symm⟩
  frames := ⟨fun frame member v root => (embeds.frames.1 frame member v root).mono le,
    embeds.frames.2⟩
  host := ⟨⟨sound, .inl rfl⟩, rfl⟩
  code := embeds.code
  pc := embeds.pc
  classes := embeds.classes
  status := rfl
  fault := rfl
  stepCount := rfl
  maxSteps := rfl
  maxCallDepth := rfl
  report := rfl

end Machine

/-- What the requests of a handler leave alone. -/
structure Engine.Granted (size : Nat) (engine engine' : Engine) : Prop where
  world : engine'.world = engine.world
  host : engine'.host = engine.host
  fault : engine'.fault = engine.fault
  stepCount : engine'.stepCount = engine.stepCount
  maxSteps : engine'.maxSteps = engine.maxSteps
  maxCallDepth : engine'.maxCallDepth = engine.maxCallDepth
  report : engine'.report = engine.report
  final : engine'.status.isFinal = engine.status.isFinal
  globals : (∀ entry ∈ engine.globals, entry.2.Below size) →
    ∀ entry ∈ engine'.globals, entry.2.Below size

theorem Engine.granted {size : Nat} {requests : List Request}
    (below : ∀ name v, .setGlobal name v ∈ requests → v.Below size) (engine : Engine) :
    engine.Granted size (requests.foldl grant engine) := by
  induction requests generalizing engine with
  | nil => exact ⟨rfl, rfl, rfl, rfl, rfl, rfl, rfl, rfl, id⟩
  | cons request requests ih =>
    have rest := ih (fun name v member => below name v (.tail _ member)) (engine.grant request)
    have first : engine.Granted size (engine.grant request) := by
      cases request with
      | pause =>
        show engine.Granted size engine.pause
        unfold pause
        split
        next running =>
          refine ⟨rfl, rfl, rfl, rfl, rfl, rfl, rfl, ?_, id⟩
          rw [running]
          rfl
        next => exact ⟨rfl, rfl, rfl, rfl, rfl, rfl, rfl, rfl, id⟩
      | setGlobal name v =>
        refine ⟨rfl, rfl, rfl, rfl, rfl, rfl, rfl, rfl, fun known => ?_⟩
        exact Bindings.below_put known (below name v (.head _))
    exact ⟨rest.world.trans first.world, rest.host.trans first.host, rest.fault.trans first.fault,
      rest.stepCount.trans first.stepCount, rest.maxSteps.trans first.maxSteps,
      rest.maxCallDepth.trans first.maxCallDepth,
      rest.report.trans first.report, rest.final.trans first.final, rest.globals ∘ first.globals⟩

theorem Host.Sound.note {size : Nat} {host : Host} (sound : host.Sound size) {name : Name}
    {role : Role} {bound : Bound} (found : host.find? name = some (role, bound))
    {args : List Value} (below : ∀ v ∈ args, v.Below size) (left : List Value) :
    (host.note role name bound args left).Sound size := by
  intro other role' bound' found'
  rcases Host.find?_note found' with old | rfl
  · exact sound other role' bound' old
  · obtain ⟨sound, earlier⟩ := sound name role bound found
    exact ⟨sound, List.forall_mem_cons.mpr ⟨below, earlier⟩⟩

namespace Machine

/-- A sound handler keeps a machine in order. -/
theorem mirrored_callHandler (embeds : Embeds id x m) {name : Name} {role : Role} {bound : Bound}
    (found : x.host.find? name = some (role, bound)) {args : List Value}
    (below : ∀ v ∈ args, v.Below x.heap.size) :
    Mirrored id chance (ValueImage id)
      (outside fun engine => engine.callHandler role name bound args)
      (outside fun engine => engine.callHandler role name bound args) x m := by
  obtain ⟨sound, earlier⟩ := embeds.host.1.1 name role bound found
  obtain ⟨closed, le, answer, asked⟩ :=
    sound bound.earlier args x.heap embeds.world.heap.closed earlier below
  unfold Mirrored outside Engine.callHandler
  simp only [embeds.engine_eq]
  generalize bound.handler bound.earlier args x.heap = reply at closed le answer asked
  have granted := Engine.granted asked (x.toEngine.replied role name bound args reply)
  generalize List.foldl Engine.grant _ reply.requests = engine at granted
  have heap : engine.heap = reply.heap := congrArg World.heap granted.world
  have noted := (embeds.host.1.1.note found below reply.left).mono le
  have moved : Embeds id { x with toEngine := engine } { m with toEngine := engine } := by
    refine embeds.withEngine ?_ ?_ ?_ ?_
    · rwa [heap]
    · rwa [heap]
    · rw [heap]
      exact granted.globals fun entry member => (embeds.globals.1 entry member).mono le
    · rw [heap, granted.host]
      exact noted
  have world : x.world.Grows chance engine.world := by
    rw [granted.world]
    exact ⟨le, List.prefix_rfl, rfl, .inr rfl⟩
  have ending : x.report.done = x.status.isFinal → engine.report.done = engine.status.isFinal := by
    rw [granted.report, granted.final]
    exact id
  have fixed : { x with toEngine := engine }.fixed = x.fixed := by
    simp only [Machine.fixed, granted.fault, granted.stepCount, granted.maxSteps,
      granted.maxCallDepth]
    rfl
  have lent : ¬ ∀ other, x.host.find? other = none := by
    intro none
    rw [none] at found
    cases found
  cases outcome : reply.outcome with
  | error failure => exact ⟨rfl, moved, world, fixed, ending, fun none => (lent none).elim⟩
  | ok v =>
    refine ⟨{ moved with report := rfl }, ⟨world, fixed, ?_, fun none => (lent none).elim⟩, ?_, ?_⟩
    · cases role <;> exact ending
    · have low := answer v outcome
      rwa [← heap] at low
    · exact (Value.rename_same v).symm

theorem mirrored_call (embeds : Embeds ρ x m) {name : Name} (draws : Draws chance name)
    {args : List Value} (below : ∀ v ∈ args, v.Below x.heap.size) :
    Mirrored ρ chance (ValueImage ρ) (outside fun engine => engine.call name args)
      (outside fun engine => engine.call name (args.map (Value.rename ρ))) x m := by
  have builtin := mirrored_callBuiltin embeds draws below
  have hosts := embeds.host.2
  cases found : x.host.find? name with
  | none =>
    have found' : m.host.find? name = none := by rw [hosts, found]
    unfold Mirrored outside Engine.call at *
    simpa only [found, found'] using builtin
  | some entry =>
    obtain ⟨role, bound⟩ := entry
    have found' : m.host.find? name = some (role, bound) := by rw [hosts, found]
    have same : ρ = id := by
      refine embeds.host.1.2.resolve_right fun none => ?_
      rw [none] at found
      cases found
    subst same
    have handled : Mirrored id chance _ _ _ x m := mirrored_callHandler embeds found below
    rw [funext Value.rename_same, List.map_id']
    unfold Mirrored outside Engine.call at *
    simpa only [found, found'] using handled

end Machine

end Stepwise
