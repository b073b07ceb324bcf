import Stepwise.Proofs.Renaming.Machines

/-!
Instructions do not depend on how cells are numbered: `mirrored_execute` says it of all of them.
-/
namespace Stepwise

open Value (Image)

theorem Images.cons {ρ : Ref → Ref} {size : Nat} {v w : Value} {vs ws : List Value}
    (image : Image ρ size v w) (images : Images ρ size vs ws) :
    Images ρ size (v :: vs) (w :: ws) := by
  obtain ⟨below, rfl⟩ := image
  obtain ⟨known, rfl⟩ := images
  exact ⟨List.forall_mem_cons.mpr ⟨below, known⟩, rfl⟩

theorem Bindings.ofList_rename (ρ : Ref → Ref) (pairs : List (Name × Value)) :
    (ofList pairs).rename ρ = ofList (Bindings.rename ρ pairs) := by
  suffices general : ∀ earlier : Bindings Value, (earlier.update pairs).rename ρ =
      (earlier.rename ρ).update (Bindings.rename ρ pairs) from general []
  induction pairs with
  | nil => exact fun _ => rfl
  | cons pair pairs ih =>
    intro earlier
    have rest := ih (put pair.1 pair.2 earlier)
    rw [put_rename] at rest
    exact rest

namespace Machine

variable {ρ : Ref → Ref} {chance : Prop} {x x' m : Machine} {v w : Value}

/-- Images stay images while a machine goes on. -/
theorem After.image (after : x.After chance x') (image : Image ρ x.heap.size v w) :
    Image ρ x'.heap.size v w :=
  ⟨image.1.mono after.world.cells, image.2⟩

theorem After.images (after : x.After chance x') {vs ws : List Value}
    (images : Images ρ x.heap.size vs ws) : Images ρ x'.heap.size vs ws :=
  ⟨fun v member => (images.1 v member).mono after.world.cells, images.2⟩

theorem mirrored_refuse {R : Machine → Unit → Unit → Prop} (embeds : Embeds ρ x m)
    (message : String) (suggestion : Option String) :
    Mirrored ρ chance R (refuse message suggestion) (refuse message suggestion) x m :=
  .throw embeds _

/-- An operand is taken off the stack and looked at in the heap. -/
theorem mirrored_operand (embeds : Embeds ρ x m) {f f' : Value → Heap → Action Unit}
    (rest : ∀ v heap x' m', Embeds ρ x' m' → x.After chance x' → x'.heap.Embeds ρ heap →
      v.Below x'.heap.size → Mirrored ρ chance Done (f v x'.heap) (f' (v.rename ρ) heap) x' m') :
    Mirrored ρ chance Done (do f (← pop) (← getHeap)) (do f' (← pop) (← getHeap)) x m := by
  refine .bind (mirrored_pop embeds) fun v w x₁ m₁ embeds after image => ?_
  refine .bind (mirrored_getHeap embeds) ?_
  rintro core heap x₂ m₂ embeds after' ⟨rfl, heaps⟩
  obtain ⟨below, rfl⟩ := after'.image image
  exact rest v heap x₂ m₂ embeds (after.trans after') heaps below

/-- Two operands are taken off the stack, the second one first. -/
theorem mirrored_operands₂ (embeds : Embeds ρ x m) {f f' : Value → Value → Heap → Action Unit}
    (rest : ∀ b a heap x' m', Embeds ρ x' m' → x'.heap.Embeds ρ heap → b.Below x'.heap.size →
      a.Below x'.heap.size →
      Mirrored ρ chance Done (f b a x'.heap) (f' (b.rename ρ) (a.rename ρ) heap) x' m') :
    Mirrored ρ chance Done (do let b ← pop; let a ← pop; f b a (← getHeap))
      (do let b ← pop; let a ← pop; f' b a (← getHeap)) x m := by
  refine .bind (mirrored_pop embeds) fun b b' x₁ m₁ embeds _ image => ?_
  refine mirrored_operand embeds fun a heap x₂ m₂ embeds after heaps belowA => ?_
  obtain ⟨belowB, rfl⟩ := after.image image
  exact rest b a heap x₂ m₂ embeds heaps belowB belowA

/-- Three operands are taken off the stack, the third one first. -/
theorem mirrored_operands₃ (embeds : Embeds ρ x m)
    {f f' : Value → Value → Value → Heap → Action Unit}
    (rest : ∀ c b a heap x' m', Embeds ρ x' m' → x'.heap.Embeds ρ heap → c.Below x'.heap.size →
      b.Below x'.heap.size → a.Below x'.heap.size →
      Mirrored ρ chance Done (f c b a x'.heap) (f' (c.rename ρ) (b.rename ρ) (a.rename ρ) heap) x'
        m') :
    Mirrored ρ chance Done (do let c ← pop; let b ← pop; let a ← pop; f c b a (← getHeap))
      (do let c ← pop; let b ← pop; let a ← pop; f' c b a (← getHeap)) x m := by
  refine .bind (mirrored_pop embeds) fun c c' x₁ m₁ embeds _ imageC => ?_
  refine .bind (mirrored_pop embeds) fun b b' x₂ m₂ embeds after imageB => ?_
  refine mirrored_operand embeds fun a heap x₃ m₃ embeds after' heaps belowA => ?_
  obtain ⟨belowC, rfl⟩ := after'.image (after.image imageC)
  obtain ⟨belowB, rfl⟩ := after'.image imageB
  exact rest c b a heap x₃ m₃ embeds heaps belowC belowB belowA

theorem mirrored_binary (embeds : Embeds ρ x m) (op : BinaryOp) :
    Mirrored ρ chance Done (binary op) (binary op) x m := by
  refine mirrored_operands₂ embeds fun b a heap x₁ m₁ embeds heaps belowB belowA => ?_
  exact .lift embeds (heaps.binary op belowA belowB) fun v w image => mirrored_push embeds image

theorem below_stack_rename (base : Int) (stack : List Value) :
    below base (stack.map (Value.rename ρ)) = (below base stack).map (Value.rename ρ) := by
  simp only [below, List.length_map, List.map_drop]

theorem mem_of_mem_below {base : Int} {stack : List Value} (member : v ∈ below base stack) :
    v ∈ stack :=
  List.mem_of_mem_drop member

theorem mirrored_leave (embeds : Embeds ρ x m) :
    Mirrored ρ chance Done leave leave x m := by
  obtain ⟨known, same⟩ := embeds.frames
  obtain ⟨low, stacked⟩ := embeds.stack
  cases top : x.stack with
  | nil =>
    rw [top] at stacked
    unfold Mirrored leave pop
    simp only [Act.bind_apply, Act.get_apply, top, stacked]
    exact ⟨rfl, embeds, .refl x⟩
  | cons v rest =>
    rw [top] at stacked low
    cases inner : x.frames with
    | nil =>
      rw [inner] at same
      refine .state (leave_outer top inner) (leave_outer stacked same)
        { embeds with stack := ⟨?_, rfl⟩, status := rfl, report := ?_ }
        ⟨.refl _, rfl, (fun _ => rfl), fun _ => rfl⟩ trivial
      · intro u member
        rw [List.mem_singleton.mp member]
        exact low v (.head _)
      · show { m.report with done := true } = { x.report with done := true }
        rw [embeds.report]
    | cons frame callers =>
      rw [inner] at same known
      have receives : ∀ u, frame.receiver = some u → u.Below x.heap.size := by
        intro u here
        refine known frame (.head _) u (List.mem_append_right _ ?_)
        rw [here]
        exact .head _
      refine .state (leave_inner top inner) (leave_inner stacked same)
        { embeds with pc := rfl, frames := ⟨fun other outer => known other (.tail _ outer), rfl⟩,
                      stack := ⟨?_, ?_⟩ } ⟨.refl _, rfl, id, fun _ => rfl⟩ trivial
      · intro u member
        rcases List.mem_cons.mp member with rfl | under
        · split
          · cases here : frame.receiver with
            | none => exact Value.below_null _
            | some u => exact receives u here
          · exact low v (.head _)
        · exact low u (.tail _ (mem_of_mem_below under))
      · show (if frame.isConstructor then _ else _) :: below frame.stackBase _ = _ :: _
        rw [below_stack_rename]
        congr 1
        split
        · unfold CallFrame.rename
          cases frame.receiver <;> rfl
        · rfl

theorem callFault?_rename (embeds : Embeds ρ x m) (name : String) (argc : Int)
    (receiver : Option Value) :
    m.callFault? name argc (receiver.map (Value.rename ρ)) = x.callFault? name argc receiver := by
  simp only [callFault?, Option.isSome_map, embeds.code, embeds.maxCallDepth, embeds.frames.2,
    List.length_map]

theorem mirrored_enter (embeds : Embeds ρ x m) (name : String) (address argc : Int)
    (line : Option Int) (base : Int) {receiver : Option Value}
    (below : ∀ v, receiver = some v → v.Below x.heap.size) :
    Mirrored ρ chance Done (enter name address argc line base receiver)
      (enter name address argc line base (receiver.map (Value.rename ρ))) x m := by
  unfold Mirrored
  rw [enter_eq, enter_eq, callFault?_rename embeds]
  cases x.callFault? name argc receiver with
  | some fault => exact ⟨rfl, embeds, .refl x⟩
  | none =>
    refine ⟨{ embeds with pc := rfl, frames := ⟨?_, ?_⟩ }, ⟨.refl _, rfl, id, fun _ => rfl⟩,
      trivial⟩
    · intro frame member v root
      rcases List.mem_cons.mp member with rfl | outer
      · exact below v (Option.mem_toList.mp root)
      · exact embeds.frames.1 frame outer v root
    · show _ :: m.frames = (_ :: x.frames).map _
      rw [List.map_cons, embeds.frames.2]
      simp only [opened, CallFrame.rename, Option.isSome_map, embeds.pc]
      rfl

theorem made_newInst {core heap : Heap} (heaps : core.Embeds ρ heap) (className : Name) :
    Heap.Embeds.Made ρ core (core.newInst className []) (heap.newInst className []) := by
  refine ⟨?_, heaps.newInst className⟩
  show core.size ≤ (core.alloc _).2.size
  rw [Heap.size_alloc]
  exact Nat.le_succ _

theorem made_ofList {core heap : Heap} (heaps : core.Embeds ρ heap) {entries : List (Name × Value)}
    (below : ∀ entry ∈ entries, entry.2.Below core.size) :
    Heap.Embeds.Made ρ core (core.newMap (Bindings.ofList entries))
      (heap.newMap (Bindings.ofList (Bindings.rename ρ entries))) := by
  rw [← Bindings.ofList_rename]
  refine ⟨?_, heaps.newMap ?_⟩
  · show core.size ≤ (core.alloc _).2.size
    rw [Heap.size_alloc]
    exact Nat.le_succ _
  · intro entry member
    obtain ⟨name, there, -⟩ := Bindings.mem_of_mem_ofList member
    exact below (name, entry.2) there

/-- What was made in the heaps is put on the stacks. -/
theorem mirrored_made (embeds : Embeds ρ x m) {made made' : Value × Heap}
    (alike : Heap.Embeds.Made ρ x.heap made made') :
    Mirrored ρ chance Done (do setHeap made.2; push made.1) (do setHeap made'.2; push made'.1)
      x m := by
  obtain ⟨le, image, heaps⟩ := alike
  refine .bind (mirrored_setHeap embeds ⟨le, heaps⟩) fun _ _ x₁ m₁ embeds _ now => ?_
  refine mirrored_push embeds ?_
  rw [now]
  exact image

theorem mirrored_instantiate (embeds : Embeds ρ x m) (className : String) (argc : Int)
    (line : Option Int) :
    Mirrored ρ chance Done (instantiate className argc line) (instantiate className argc line)
      x m := by
  unfold instantiate
  refine .bind (mirrored_take embeds argc) fun args args' x₁ m₁ embeds taken images => ?_
  have images := taken.images images
  have empty : args'.isEmpty = args.isEmpty := by rw [images.2, List.isEmpty_map]
  refine .bind (mirrored_get embeds) ?_
  rintro a b x₂ m₂ embeds after ⟨rfl, both⟩
  rw [both.classes]
  split
  next => exact mirrored_refuse embeds _ _
  next methods _ =>
    split
    next =>
      rw [empty]
      split
      · refine .bind (mirrored_getHeap embeds) ?_
        rintro core heap x₃ m₃ embeds - ⟨rfl, heaps⟩
        exact mirrored_made embeds (made_newInst heaps _)
      · exact mirrored_refuse embeds _ _
    next address _ =>
      refine .bind (mirrored_getHeap embeds) ?_
      rintro core heap x₃ m₃ embeds after' ⟨rfl, heaps⟩
      obtain ⟨le, image, grown⟩ := made_newInst heaps className
      refine .bind (mirrored_setHeap embeds ⟨le, grown⟩) fun _ _ x₄ m₄ embeds after'' now => ?_
      have now : x₄.heap = (x₃.heap.newInst className []).2 := now
      rw [← now] at image
      have images := (after.trans (after'.trans after'')).images images
      refine .bind (mirrored_get embeds) ?_
      rintro a b x₅ m₅ embeds after ⟨rfl, both⟩
      rw [both.height]
      refine .bind (mirrored_pushAll embeds (.cons (after.image image) (after.images images)))
        fun _ _ x₆ m₆ embeds after' _ => ?_
      obtain ⟨low, named⟩ := after'.image (after.image image)
      have named : Value.inst heap.size = (Value.inst x₃.heap.size).rename ρ := named
      rw [named]
      refine @mirrored_enter _ _ _ _ embeds _ _ _ _ _ (some _) fun v same => ?_
      cases same
      exact low

theorem mirrored_callMethod (embeds : Embeds ρ x m) {method : String} (argc : Int)
    (line : Option Int) (draws : Draws chance method) :
    Mirrored ρ chance Done (callMethod method argc line) (callMethod method argc line) x m := by
  unfold callMethod
  refine .bind (mirrored_take embeds argc) fun args args' x₁ m₁ embeds taken images => ?_
  obtain ⟨below, rfl⟩ := taken.images images
  cases args with
  | nil => exact .throw embeds _
  | cons receiver args =>
    refine .bind (mirrored_get embeds) ?_
    rintro a b x₂ m₂ embeds after ⟨rfl, both⟩
    have known : Images ρ a.heap.size (receiver :: args) _ := after.images ⟨below, rfl⟩
    have low := known.1 receiver (.head _)
    have builtin : Mirrored ρ chance Done
        (do push (← outside fun engine => engine.callBuiltin method (receiver :: args)))
        (do push (← outside fun engine => engine.callBuiltin method
          ((receiver :: args).map (Value.rename ρ)))) a m₂ := by
      refine .bind (mirrored_callBuiltin embeds draws known.1) fun v w x₃ m₃ embeds _ image => ?_
      exact mirrored_push embeds image
    cases receiver with
    | inst ref =>
      simp only [List.map_cons, Value.rename_inst] at builtin ⊢
      have className : b.heap.className (ρ ref) = a.heap.className ref :=
        both.world.heap.className (Value.below_inst.mp low)
      rw [className, both.classes, both.height]
      split
      · exact mirrored_refuse embeds _ _
      · refine .bind (mirrored_pushAll embeds known) fun _ _ x₃ m₃ embeds after _ => ?_
        refine @mirrored_enter _ _ _ _ embeds _ _ _ _ _ (some _) fun v same => ?_
        cases same
        exact low.mono after.world.cells
    | _ =>
      -- the type of any other value has a name of its own
      simp only [List.map_cons] at builtin ⊢
      split
      · exact builtin
      · exact mirrored_refuse embeds _ _

theorem mirrored_pairUp {core heap : Heap} (heaps : core.Embeds ρ heap) (embeds : Embeds ρ x m)
    {values values' : List Value} (images : Images ρ core.size values values') :
    Mirrored ρ chance (fun _ entries entries' =>
      (∀ entry ∈ entries, entry.2.Below core.size) ∧ entries' = Bindings.rename ρ entries)
      (pairUp core values) (pairUp heap values') x m := by
  obtain ⟨below, rfl⟩ := images
  fun_induction pairUp core values generalizing x m with
  | case1 => exact .pure embeds ⟨(fun _ member => nomatch member), rfl⟩
  | case2 key v rest ih =>
    obtain ⟨low, below⟩ := List.forall_mem_cons.mp below
    obtain ⟨belowV, below⟩ := List.forall_mem_cons.mp below
    simp only [List.map_cons, pairUp, heaps.plain low]
    refine .lift embeds (Alike.of_eq rfl fun _ => rfl) ?_
    rintro text _ rfl
    refine .bind (ih embeds below) ?_
    rintro entries _ x₁ m₁ embeds - ⟨known, rfl⟩
    refine .pure embeds ⟨List.forall_mem_cons.mpr ⟨belowV, known⟩, rfl⟩
  | case3 => exact .throw embeds _

end Machine

/-- The name an instruction calls. -/
def Instruction.callee? (i : Instruction) : Option String :=
  match i.op, i.operand with
  | .call, .text operand | .methodCall, .text operand => (readCallOperand? operand).map Prod.fst
  | _, _ => none

/-- An instruction without references that draws numbers only where there may be chance. -/
structure Instruction.Plain (chance : Prop) (i : Instruction) : Prop where
  scalar : i.operand.ref? = none
  draws : ∀ name, i.callee? = some name → Machine.Draws chance name

namespace Machine

theorem mirrored_callee (embeds : Embeds ρ x m) {i : Instruction} (plain : i.Plain chance)
    (calls : i.op = .call ∨ i.op = .methodCall) :
    Mirrored ρ chance (fun _ a b => b = a ∧ Draws chance a.1) (calleeOf i) (calleeOf i) x m := by
  unfold calleeOf
  split
  next operand text =>
    split
    next callee read =>
      refine .pure embeds ⟨rfl, plain.draws _ ?_⟩
      rcases calls with op | op <;> simp [Instruction.callee?, op, text, read]
    next => exact .throw embeds _
  next => exact .throw embeds _

theorem mirrored_jump (embeds : Embeds ρ x m) (i : Instruction) :
    Mirrored ρ chance Done (addressOf i >>= jumpTo) (addressOf i >>= jumpTo) x m := by
  refine .bind (mirrored_addressOf embeds i) ?_
  rintro address _ x₁ m₁ embeds - rfl
  exact mirrored_jumpTo embeds address

theorem mirrored_rangeCheck (embeds : Embeds ρ x m) {bounds bounds' : List Value}
    (images : Images ρ x.heap.size bounds bounds') :
    Mirrored ρ chance Done
      (do
        match bounds with
        | [start, stop, step] => Value.checkRange start stop step
        | _ => pure ()
        pushAll bounds)
      (do
        match bounds' with
        | [start, stop, step] => Value.checkRange start stop step
        | _ => pure ()
        pushAll bounds') x m := by
  have pushed : Mirrored ρ chance Done (pushAll bounds) (pushAll bounds') x m :=
    mirrored_pushAll embeds images
  obtain ⟨-, rfl⟩ := images
  rcases bounds with _ | ⟨start, _ | ⟨stop, _ | ⟨step, _ | ⟨more, rest⟩⟩⟩⟩
  case cons.cons.cons.nil =>
    simp only [List.map_cons, List.map_nil, Heap.Embeds.checkRange_rename]
    exact .lift embeds (Alike.of_eq rfl fun _ => rfl) fun _ _ _ => pushed
  all_goals exact pushed

section Opcodes

variable {operand : Value} {line : Option Int}

theorem mirrored_load (embeds : Embeds ρ x m) :
    Mirrored ρ chance Done (execute ⟨.load, operand, line⟩) (execute ⟨.load, operand, line⟩) x m := by
  refine .bind (mirrored_nameOf embeds _) ?_
  rintro name _ x₁ m₁ embeds - rfl
  refine .bind (mirrored_lookup embeds name) fun v w x₂ m₂ embeds _ image => ?_
  exact mirrored_push embeds image

theorem mirrored_storeTop (embeds : Embeds ρ x m) :
    Mirrored ρ chance Done (execute ⟨.store, operand, line⟩) (execute ⟨.store, operand, line⟩) x m := by
  refine .bind (mirrored_pop embeds) fun v w x₁ m₁ embeds _ image => ?_
  refine .bind (mirrored_nameOf embeds _) ?_
  rintro name _ x₂ m₂ embeds after rfl
  exact mirrored_store embeds name (after.image image)

theorem mirrored_neg (embeds : Embeds ρ x m) :
    Mirrored ρ chance Done (execute ⟨.neg, operand, line⟩) (execute ⟨.neg, operand, line⟩) x m := by
  refine mirrored_operand embeds fun v heap x₁ m₁ embeds _ heaps below => ?_
  exact .lift embeds (heaps.negate below) fun v w image => mirrored_push embeds image

theorem mirrored_not (embeds : Embeds ρ x m) :
    Mirrored ρ chance Done (execute ⟨.not, operand, line⟩) (execute ⟨.not, operand, line⟩) x m := by
  refine mirrored_operand embeds fun v heap x₁ m₁ embeds _ heaps below => ?_
  rw [heaps.isTruthy below]
  exact mirrored_push embeds (.of_scalar ρ _ rfl)

theorem mirrored_jumpIf (embeds : Embeds ρ x m) :
    Mirrored ρ chance Done (execute ⟨.jumpIf, operand, line⟩) (execute ⟨.jumpIf, operand, line⟩)
      x m := by
  refine mirrored_operand embeds fun v heap x₁ m₁ embeds _ heaps below => ?_
  rw [heaps.isTruthy below]
  split
  · exact mirrored_jump embeds _
  · exact .pure embeds trivial

theorem mirrored_jumpIfNot (embeds : Embeds ρ x m) :
    Mirrored ρ chance Done (execute ⟨.jumpIfNot, operand, line⟩)
      (execute ⟨.jumpIfNot, operand, line⟩) x m := by
  refine mirrored_operand embeds fun v heap x₁ m₁ embeds _ heaps below => ?_
  rw [heaps.isTruthy below]
  split
  · exact .pure embeds trivial
  · exact mirrored_jump embeds _

theorem mirrored_halt (embeds : Embeds ρ x m) :
    Mirrored ρ chance Done (execute ⟨.halt, operand, line⟩) (execute ⟨.halt, operand, line⟩) x m := by
  refine .state rfl rfl { embeds with pc := ?_, status := rfl, report := ?_ }
    ⟨.refl _, rfl, (fun _ => rfl), fun _ => rfl⟩ trivial
  · show m.pc - 1 = x.pc - 1
    rw [embeds.pc]
  · show { m.report with done := true } = { x.report with done := true }
    rw [embeds.report]

theorem mirrored_repeatCount (embeds : Embeds ρ x m) :
    Mirrored ρ chance Done (execute ⟨.repeatCount, operand, line⟩)
      (execute ⟨.repeatCount, operand, line⟩) x m := by
  refine mirrored_operand embeds fun v heap x₁ m₁ embeds _ heaps below => ?_
  rw [heaps.repeatCount below]
  refine .lift embeds (Alike.of_eq rfl fun _ => rfl) ?_
  rintro count _ rfl
  exact mirrored_push embeds (.of_scalar ρ _ rfl)

theorem mirrored_callName (embeds : Embeds ρ x m)
    (plain : (⟨.call, operand, line⟩ : Instruction).Plain chance) :
    Mirrored ρ chance Done (execute ⟨.call, operand, line⟩) (execute ⟨.call, operand, line⟩) x m := by
  refine .bind (mirrored_callee embeds plain (.inl rfl)) ?_
  rintro ⟨name, argc⟩ _ x₁ m₁ embeds - ⟨rfl, draws⟩
  refine .bind (mirrored_take embeds argc) fun args args' x₂ m₂ embeds taken images => ?_
  obtain ⟨below, rfl⟩ := taken.images images
  refine .bind (mirrored_call embeds draws below) fun v w x₃ m₃ embeds _ image => ?_
  exact mirrored_push embeds image

theorem mirrored_callUser (embeds : Embeds ρ x m) :
    Mirrored ρ chance Done (execute ⟨.callUser, operand, line⟩)
      (execute ⟨.callUser, operand, line⟩) x m := by
  refine .bind (mirrored_calleeOf embeds _) ?_
  rintro ⟨name, argc⟩ _ x₁ m₁ embeds - rfl
  refine .bind (mirrored_get embeds) ?_
  rintro a b x₂ m₂ embeds - ⟨rfl, both⟩
  rw [both.code, both.height]
  split
  · exact mirrored_refuse embeds _ _
  · exact @mirrored_enter _ _ _ _ embeds _ _ _ _ _ none fun _ same => nomatch same

theorem mirrored_arrayCreate (embeds : Embeds ρ x m) :
    Mirrored ρ chance Done (execute ⟨.arrayCreate, operand, line⟩)
      (execute ⟨.arrayCreate, operand, line⟩) x m := by
  refine .bind (mirrored_takeCounted embeds _ 1) fun values values' x₁ m₁ embeds taken images => ?_
  refine .bind (mirrored_getHeap embeds) ?_
  rintro core heap x₂ m₂ embeds after ⟨rfl, heaps⟩
  obtain ⟨below, rfl⟩ := (taken.trans after).images images
  have made := @Heap.Embeds.made_newList _ _ _ heaps values.toArray below
  rw [List.map_toArray] at made
  exact mirrored_made embeds made

theorem mirrored_arrayGet (embeds : Embeds ρ x m) :
    Mirrored ρ chance Done (execute ⟨.arrayGet, operand, line⟩)
      (execute ⟨.arrayGet, operand, line⟩) x m := by
  refine mirrored_operands₂ embeds fun b a heap x₁ m₁ embeds heaps belowB belowA => ?_
  exact .lift embeds (heaps.getIndex belowA belowB) fun v w image => mirrored_push embeds image

theorem mirrored_arraySet (embeds : Embeds ρ x m) :
    Mirrored ρ chance Done (execute ⟨.arraySet, operand, line⟩)
      (execute ⟨.arraySet, operand, line⟩) x m := by
  refine mirrored_operands₃ embeds fun c b a heap x₁ m₁ embeds heaps belowC belowB belowA => ?_
  refine .lift embeds (heaps.setIndex belowA belowB belowC) fun core heap grown => ?_
  exact (mirrored_setHeap embeds grown).done

theorem mirrored_slice (embeds : Embeds ρ x m) :
    Mirrored ρ chance Done (execute ⟨.slice, operand, line⟩) (execute ⟨.slice, operand, line⟩) x m := by
  refine mirrored_operands₃ embeds fun c b a heap x₁ m₁ embeds heaps belowC belowB belowA => ?_
  exact .lift embeds (heaps.slice belowA) fun made made' alike => mirrored_made embeds alike

theorem mirrored_objectCreate (embeds : Embeds ρ x m) :
    Mirrored ρ chance Done (execute ⟨.objectCreate, operand, line⟩)
      (execute ⟨.objectCreate, operand, line⟩) x m := by
  refine .bind (mirrored_getHeap embeds) ?_
  rintro core heap x₁ m₁ embeds - ⟨rfl, heaps⟩
  refine .bind (mirrored_takeCounted embeds _ 2) fun values values' x₂ m₂ embeds taken images => ?_
  refine .bind (mirrored_pairUp heaps embeds images) ?_
  rintro entries _ x₃ m₃ embeds after ⟨below, rfl⟩
  refine .bind (mirrored_getHeap embeds) ?_
  rintro core heap x₄ m₄ embeds after' ⟨rfl, heaps⟩
  have le := (taken.trans (after.trans after')).world.cells
  exact mirrored_made embeds (made_ofList heaps fun entry member => (below entry member).mono le)

theorem mirrored_classDef (embeds : Embeds ρ x m) :
    Mirrored ρ chance Done (execute ⟨.classDef, operand, line⟩)
      (execute ⟨.classDef, operand, line⟩) x m := by
  refine .bind (mirrored_nameOf embeds _) ?_
  rintro name _ x₁ m₁ embeds - rfl
  refine .state rfl rfl { embeds with classes := ?_ } ⟨.refl _, rfl, id, fun _ => rfl⟩ trivial
  show m₁.classes.put name ((m₁.code.bind _).getD []) =
    x₁.classes.put name ((x₁.code.bind _).getD [])
  rw [embeds.classes, embeds.code]

theorem mirrored_new (embeds : Embeds ρ x m) :
    Mirrored ρ chance Done (execute ⟨.new, operand, line⟩) (execute ⟨.new, operand, line⟩) x m := by
  refine .bind (mirrored_calleeOf embeds _) ?_
  rintro ⟨name, argc⟩ _ x₁ m₁ embeds - rfl
  exact mirrored_instantiate embeds name argc line

theorem mirrored_memberGet (embeds : Embeds ρ x m) :
    Mirrored ρ chance Done (execute ⟨.memberGet, operand, line⟩)
      (execute ⟨.memberGet, operand, line⟩) x m := by
  refine mirrored_operands₂ embeds fun b a heap x₁ m₁ embeds heaps belowB belowA => ?_
  rw [heaps.plain belowB]
  refine .lift embeds (Alike.of_eq rfl fun _ => rfl) ?_
  rintro name _ rfl
  exact .lift embeds (heaps.getMember name belowA) fun v w image => mirrored_push embeds image

theorem mirrored_memberSet (embeds : Embeds ρ x m) :
    Mirrored ρ chance Done (execute ⟨.memberSet, operand, line⟩)
      (execute ⟨.memberSet, operand, line⟩) x m := by
  refine mirrored_operands₃ embeds fun c b a heap x₁ m₁ embeds heaps belowC belowB belowA => ?_
  rw [heaps.plain belowB]
  refine .lift embeds (Alike.of_eq rfl fun _ => rfl) ?_
  rintro name _ rfl
  refine .lift embeds (heaps.setMember name belowA belowC) fun core heap grown => ?_
  exact (mirrored_setHeap embeds grown).done

theorem mirrored_methodCall (embeds : Embeds ρ x m)
    (plain : (⟨.methodCall, operand, line⟩ : Instruction).Plain chance) :
    Mirrored ρ chance Done (execute ⟨.methodCall, operand, line⟩)
      (execute ⟨.methodCall, operand, line⟩) x m := by
  refine .bind (mirrored_callee embeds plain (.inr rfl)) ?_
  rintro ⟨name, argc⟩ _ x₁ m₁ embeds - ⟨rfl, draws⟩
  exact mirrored_callMethod embeds argc line draws

end Opcodes

theorem mirrored_execute (embeds : Embeds ρ x m) {i : Instruction} (plain : i.Plain chance) :
    Mirrored ρ chance Done (execute i) (execute i) x m := by
  obtain ⟨op, operand, line⟩ := i
  cases op with
  | push => exact mirrored_push embeds (.of_scalar ρ _ plain.scalar)
  | pop => exact .bind (mirrored_pop embeds) fun _ _ _ _ embeds _ _ => .pure embeds trivial
  | dup => exact .bind (mirrored_peek embeds) fun _ _ _ _ embeds _ image => mirrored_push embeds image
  | load => exact mirrored_load embeds
  | store => exact mirrored_storeTop embeds
  | neg => exact mirrored_neg embeds
  | not => exact mirrored_not embeds
  | jump => exact mirrored_jump embeds _
  | jumpIf => exact mirrored_jumpIf embeds
  | jumpIfNot => exact mirrored_jumpIfNot embeds
  | halt => exact mirrored_halt embeds
  | nop => exact .pure embeds trivial
  | repeatCount => exact mirrored_repeatCount embeds
  | rangeCheck =>
    refine .bind (mirrored_take embeds 3) fun bounds bounds' x₁ m₁ embeds taken images => ?_
    exact mirrored_rangeCheck embeds (taken.images images)
  | call => exact mirrored_callName embeds plain
  | callUser => exact mirrored_callUser embeds
  | ret => exact mirrored_leave embeds
  | arrayCreate => exact mirrored_arrayCreate embeds
  | arrayGet => exact mirrored_arrayGet embeds
  | arraySet => exact mirrored_arraySet embeds
  | slice => exact mirrored_slice embeds
  | objectCreate => exact mirrored_objectCreate embeds
  | classDef => exact mirrored_classDef embeds
  | new => exact mirrored_new embeds
  | memberGet => exact mirrored_memberGet embeds
  | memberSet => exact mirrored_memberSet embeds
  | methodCall => exact mirrored_methodCall embeds plain
  | _ => exact mirrored_binary embeds _

end Machine

end Stepwise
