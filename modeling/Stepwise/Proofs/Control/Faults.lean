import Stepwise.Proofs.Control.Flow
import Stepwise.Proofs.Driving.Marks

/-!
What a fault leaves behind. An instruction checks before it changes anything, so one that ends in a
fault has only taken its operands off the stack and made new cells (`Consumed`). Main statement: a step
that ends in a fault without calling a handler damages nothing but its own operands
(`fault_undamaging`).
-/
namespace Stepwise

/-- How many values an instruction takes off the stack. -/
def Instruction.Operands (i : Instruction) (taken : Nat) : Prop :=
  (i.op = .halt ∧ taken = 0) ∨ ∃ given, i.Moves taken given

namespace Machine

/-- A machine that has lost the topmost values of its stack, and has some more cells; what was there
besides is as it was. -/
structure Consumed (taken : Nat) (m m' : Machine) : Prop where
  same : ∃ stack heap, m' = { m with stack, world := m.world.withHeap heap }
  rest : m.stack.drop taken <:+ m'.stack
  cells : ∀ ref cell, m.heap.get? ref = some cell → m'.heap.get? ref = some cell

variable {α β : Type} {m m' : Machine} {taken more n : Nat}

theorem Consumed.ofStack {stack : List Value} (rest : m.stack.drop taken <:+ stack) :
    Consumed taken m { m with stack } := ⟨⟨stack, m.heap, rfl⟩, rest, fun _ _ here => here⟩

theorem Consumed.refl (m : Machine) : Consumed taken m m := .ofStack (List.drop_suffix taken m.stack)

theorem drop_suffix_drop {stack stack' : List Value} (rest : stack <:+ stack') (count : Nat) :
    stack.drop count <:+ stack'.drop count := by
  obtain ⟨front, rfl⟩ := rest
  rw [List.drop_append]
  exact (List.drop_suffix_drop_left stack (Nat.sub_le ..)).trans (List.suffix_append ..)

theorem Consumed.trans {m'' : Machine} (first : Consumed taken m m') (later : Consumed more m' m'') :
    Consumed (more + taken) m m'' := by
  obtain ⟨stack, heap, rfl⟩ := first.same
  obtain ⟨stack', heap', rfl⟩ := later.same
  refine ⟨⟨stack', heap', rfl⟩, ?_, fun ref cell here => later.cells ref cell (first.cells ref cell here)⟩
  rw [Nat.add_comm, ← List.drop_drop]
  exact (drop_suffix_drop first.rest more).trans later.rest

theorem Consumed.mono (spent : Consumed taken m m') (le : taken ≤ n) : Consumed n m m' :=
  ⟨spent.same, (List.drop_suffix_drop_left m.stack le).trans spent.rest, spent.cells⟩

theorem get?_alloc_old {heap : Heap} {cell old : Cell} {ref : Ref} (here : heap.get? ref = some old) :
    (heap.alloc cell).2.get? ref = some old := by
  rw [Heap.get?_alloc, if_neg, here]
  rintro rfl
  simp [Heap.get?, Heap.size] at here

theorem Consumed.calls (spent : Consumed taken m m') : m'.host.calls = m.host.calls := by
  obtain ⟨_, _, rfl⟩ := spent.same
  rfl

/-- What a fault leaves behind as long as no handler is called. It is left to the machine to say on
which line it occurred. -/
def Blames (taken : Nat) (m : Machine) (fault : Fault) (m' : Machine) : Prop :=
  m'.host.calls = m.host.calls → fault.line = none ∧ Consumed taken m m'

/-- A computation whose faults cost it some of the topmost values. -/
def Loses (taken : Nat) (x : Action α) : Prop := ∀ m, x.Ends m (fun _ _ => True) (Blames taken m)

/-- A computation that takes some of the topmost values, and does nothing else. -/
def Takes (taken : Nat) (x : Action α) : Prop :=
  ∀ m, x.Ends m (fun _ => Consumed taken m) (Blames taken m)

theorem Blames.after {fault : Fault} {m'' : Machine} (spent : Consumed taken m m')
    (blames : Blames more m' fault m'') : Blames (more + taken) m fault m'' := by
  intro uncalled
  obtain ⟨unplaced, later⟩ := blames (uncalled.trans spent.calls.symm)
  exact ⟨unplaced, spent.trans later⟩

theorem Blames.mono {fault : Fault} (blames : Blames taken m fault m') (le : taken ≤ n) :
    Blames n m fault m' := fun uncalled =>
  ⟨(blames uncalled).1, (blames uncalled).2.mono le⟩

theorem blames_here {fault : Fault} (unplaced : fault.line = none) : Blames taken m fault m :=
  fun _ => ⟨unplaced, .refl m⟩

section Loses

theorem Loses.mono {x : Action α} (loses : Loses taken x) (le : taken ≤ n) : Loses n x := fun m =>
  (loses m).mono (fun _ _ holds => holds) fun _ _ blames => blames.mono le

theorem loses_bind {x : Action α} {f : α → Action β} (first : Takes taken x)
    (rest : ∀ a, Loses more (f a)) : Loses (more + taken) (x >>= f) := fun m =>
  .bind ((first m).mono
    (fun a _ spent => (rest a _).mono (fun _ _ holds => holds) fun _ _ blames => blames.after spent)
    fun _ _ blames => blames.mono (Nat.le_add_left ..))

/-- Behind the last operand. -/
theorem loses_last {x : Action α} {f : α → Action β} (first : Takes taken x)
    (rest : ∀ a, Loses 0 (f a)) : Loses taken (x >>= f) :=
  Nat.zero_add taken ▸ loses_bind first rest

theorem loses_ite {c : Prop} [Decidable c] {x y : Action α} (yes : Loses n x) (no : Loses n y) :
    Loses n (if c then x else y) := by
  split
  · exact yes
  · exact no

theorem loses_pure (a : α) : Loses n (pure a : Action α) := fun _ => trivial

theorem loses_host (failure : HostFailure) : Loses n (throw (.host failure) : Action α) :=
  fun _ => trivial

theorem loses_refuse (message : String) (suggestion : Option String) :
    Loses n (refuse message suggestion : Action α) := fun _ => blames_here rfl

theorem loses_push (v : Value) : Loses n (push v) := fun _ => trivial

theorem loses_pushAll (values : List Value) : Loses n (pushAll values) := fun _ => trivial

theorem loses_store (name : Name) (v : Value) : Loses n (store name v) := fun _ => trivial

theorem loses_setHeap (heap : Heap) : Loses n (setHeap heap) := fun _ => trivial

theorem loses_jumpTo (address : Int) : Loses n (jumpTo address) := fun _ => trivial

theorem callFault?_line {name : String} {argc : Int} {receiver : Option Value} {fault : Fault}
    (failed : m.callFault? name argc receiver = some fault) : fault.line = none := by
  unfold callFault? at failed
  dsimp only at failed
  split at failed
  · cases failed
    rfl
  · split at failed
    · cases failed
      rfl
    · cases failed

theorem loses_enter (name : String) (address argc : Int) (line : Option Int) (base : Int)
    (receiver : Option Value) : Loses n (enter name address argc line base receiver) := by
  intro m
  unfold Act.Ends
  rw [enter_eq]
  cases failed : m.callFault? name argc receiver with
  | none => trivial
  | some fault => exact blames_here (callFault?_line failed)

theorem callBuiltin_error {engine engine' : Engine} {name : Name} {args : List Value} {fault : Fault}
    (called : engine.callBuiltin name args = (.error (.fault fault), engine')) :
    engine' = engine ∧ fault.line = none := by
  unfold Engine.callBuiltin at called
  split at called
  next => cases called
  next failure failed =>
    cases called
    exact ⟨rfl, (Builtin.apart_call _ _ _ _ failed).2⟩

theorem loses_callBuiltin (name : Name) (args : List Value) :
    Loses n ((outside fun engine => engine.callBuiltin name args) >>= push) := fun m =>
  .bind (ends_outside (fun v engine _ => trivial) fun fault engine called => by
    obtain ⟨rfl, unplaced⟩ := callBuiltin_error called
    exact blames_here unplaced)

/-- A call that goes to a handler is noted, so a fault of a call that is not noted comes from a
builtin function. -/
theorem loses_call (name : Name) (args : List Value) :
    Loses n ((outside fun engine => engine.call name args) >>= push) := by
  intro m
  refine .bind (ends_outside (fun v engine _ => trivial) fun fault engine called uncalled => ?_)
  cases found : m.host.find? name with
  | none =>
    unfold Engine.call at called
    rw [found] at called
    obtain ⟨rfl, unplaced⟩ := callBuiltin_error called
    exact ⟨unplaced, .refl m⟩
  | some entry =>
    obtain ⟨role, bound⟩ := entry
    have noted := (Engine.call_bound found args).2.1
    rw [called] at noted
    have longer := congrArg (fun host : Host => host.calls.length) noted
    rw [Host.note_calls] at longer
    have uncalled : engine.host.calls = m.host.calls := uncalled
    simp [uncalled] at longer

end Loses

section Takes

theorem takes_pop : Takes 1 pop := by
  intro m
  cases top : m.stack with
  | nil =>
    unfold Act.Ends
    rw [pop_nil top]
    exact blames_here rfl
  | cons v rest => exact ends_pop top (.ofStack (by rw [top]; exact List.suffix_refl rest))

theorem takes_take (count : Nat) : Takes count (take count) := by
  intro m
  by_cases enough : count ≤ m.stack.length
  · exact ends_take enough (.ofStack (List.suffix_refl _))
  · unfold take
    refine .bind (ends_get ?_)
    dsimp only
    rw [if_pos (by omega)]
    exact .fault (blames_here rfl)

theorem takes_peek : Takes 0 peek := by
  refine fun m => .bind (ends_get ?_)
  split
  · exact .fault (blames_here rfl)
  · exact .pure (.refl m)

theorem takes_get : Takes 0 (get : Action Machine) := fun _ => ends_get (.refl _)

theorem takes_getHeap : Takes 0 getHeap := fun _ => ends_getHeap (.refl _)

theorem takes_lift {x : Except Failure α} (apart : Apart x) : Takes 0 (liftM x : Action α) := fun _ =>
  .lift (fun _ _ => .refl _) fun f failed => blames_here (apart f failed).2

theorem takes_nameOf (i : Instruction) : Takes 0 (nameOf i) := fun _ =>
  ends_nameOf fun _ _ => .refl _

theorem takes_addressOf (i : Instruction) : Takes 0 (addressOf i) := fun _ =>
  ends_addressOf fun _ _ => .refl _

theorem takes_lookup (name : Name) : Takes 0 (lookup name) := fun _ =>
  ends_lookup (fun _ => .refl _) (blames_here rfl)

theorem takes_pushAll (values : List Value) : Takes 0 (pushAll values) := fun _ =>
  ends_pushAll (.ofStack (List.suffix_append ..))

theorem takes_pairUp (heap : Heap) (values : List Value) : Takes 0 (pairUp heap values) := by
  intro m
  induction values using pairUp.induct with
  | case1 => exact .pure (.refl m)
  | case2 key v rest ih =>
    unfold pairUp
    refine .bind (.lift (fun _ _ => .bind (ih.mono ?_ fun _ _ blames => blames)) fun f failed => ?_)
    · exact fun entries m' spent => .pure spent
    · exact blames_here (Value.apart_plain _ _ f failed).2
  | case3 => exact .host

theorem loses_callee {i : Instruction} {name : String} {f : String × Int → Action Unit}
    (written : i.operand = .text (callOperand name taken)) (rest : Loses n (f (name, taken))) :
    Loses n (calleeOf i >>= f) := fun m => .bind (ends_calleeOf written (rest m))

theorem takes_takeCounted {i : Instruction} {factor : Nat} (written : i.operand = .int n)
    (total : taken = factor * n) : Takes taken (takeCounted i factor) := by
  have weight : i.operand.weight? = some (.int n) := by
    rw [written]
    rfl
  have product : (factor : Int) * (n : Int) = (taken : Nat) := by
    rw [total]
    simp
  unfold takeCounted
  rw [weight]
  dsimp only
  rw [product]
  exact takes_take taken

end Takes

section Instructions

theorem loses_binary (op : BinaryOp) : Loses 2 (binary op) :=
  loses_bind takes_pop fun b => loses_last takes_pop fun a => loses_last takes_getHeap fun heap =>
    loses_last (takes_lift (Value.apart_binary op heap a b)) loses_push

theorem loses_instantiate (className : String) (argc : Nat) (line : Option Int) :
    Loses argc (instantiate className argc line) := by
  refine loses_last (takes_take argc) fun args => loses_last takes_get fun m => ?_
  dsimp only
  split
  · exact loses_refuse _ _
  · split
    · exact loses_ite (fun _ => trivial) (loses_refuse _ _)
    · -- the instance is there when the call is refused, and so are its arguments
      intro k
      have grown (stack : List Value) : Consumed 0 k { k with
          stack := stack ++ k.stack
          world := k.world.withHeap (k.heap.newInst className []).2 } :=
        ⟨⟨_, _, rfl⟩, List.suffix_append .., fun ref cell here => get?_alloc_old here⟩
      refine .bind (ends_getHeap (.bind (ends_setHeap (.bind (ends_get (.bind (ends_pushAll ?_)))))))
      exact (loses_enter _ _ _ _ _ _ _).mono (fun _ _ holds => holds) fun _ _ blames =>
        blames.after (grown _)

theorem loses_callMethod (method : String) (argc : Nat) (line : Option Int) :
    Loses argc (callMethod method argc line) := by
  refine loses_last (takes_take argc) fun values => ?_
  split
  · exact loses_host _
  · refine loses_last takes_get fun m => ?_
    split
    · dsimp only
      split
      · exact loses_refuse _ _
      · exact loses_last (takes_pushAll _) fun _ => loses_enter _ _ _ _ _ _
    · exact loses_ite (loses_callBuiltin _ _) (loses_refuse _ _)

theorem loses_execute {i : Instruction} (operands : i.Operands taken) : Loses taken (execute i) := by
  obtain ⟨halts, rfl⟩ | ⟨given, moves⟩ := operands
  · unfold execute
    rw [halts]
    exact fun _ => trivial
  obtain ⟨op, operand, line⟩ := i
  unfold execute
  cases op
  case push | nop =>
    exact fun _ => trivial
  case pop =>
    obtain ⟨rfl, rfl⟩ := moves
    exact loses_last takes_pop fun _ => loses_pure _
  case dup =>
    obtain ⟨rfl, rfl⟩ := moves
    exact loses_last (fun m => (takes_peek m).mono (fun _ _ spent => spent.mono (Nat.zero_le 1))
      fun _ _ blames => blames.mono (Nat.zero_le 1)) loses_push
  case load =>
    obtain ⟨rfl, rfl⟩ := moves
    exact loses_last (takes_nameOf _) fun name => loses_last (takes_lookup name) loses_push
  case store =>
    obtain ⟨rfl, rfl⟩ := moves
    exact loses_last takes_pop fun v => loses_last (takes_nameOf _) fun name => loses_store name v
  case add | sub | mul | div | mod | floorDiv | pow | eq | neq | lt | gt | lte | gte | isIn =>
    obtain ⟨rfl, rfl⟩ := moves
    exact loses_binary _
  case neg =>
    obtain ⟨rfl, rfl⟩ := moves
    exact loses_last takes_pop fun v => loses_last takes_getHeap fun heap =>
      loses_last (takes_lift (Value.apart_negate heap v)) loses_push
  case not =>
    obtain ⟨rfl, rfl⟩ := moves
    exact loses_last takes_pop fun v => loses_last takes_getHeap fun heap => loses_push _
  case jump =>
    obtain ⟨⟨rfl, rfl⟩, -⟩ := moves
    exact loses_last (takes_addressOf _) loses_jumpTo
  case jumpIf =>
    obtain ⟨⟨rfl, rfl⟩, -⟩ := moves
    exact loses_last takes_pop fun v => loses_last takes_getHeap fun heap =>
      loses_ite (loses_last (takes_addressOf _) loses_jumpTo) (loses_pure _)
  case jumpIfNot =>
    obtain ⟨⟨rfl, rfl⟩, -⟩ := moves
    exact loses_last takes_pop fun v => loses_last takes_getHeap fun heap =>
      loses_ite (loses_pure _) (loses_last (takes_addressOf _) loses_jumpTo)
  case repeatCount =>
    obtain ⟨rfl, rfl⟩ := moves
    exact loses_last takes_pop fun v => loses_last takes_getHeap fun heap =>
      loses_last (takes_lift (Value.apart_repeatCount heap v)) fun _ => loses_push _
  case rangeCheck =>
    obtain ⟨rfl, rfl⟩ := moves
    refine loses_last (takes_take 3) fun bounds => ?_
    dsimp only
    split
    · exact loses_last (takes_lift (Value.apart_checkRange _ _ _)) fun _ => loses_pushAll _
    · exact loses_pushAll _
  case call =>
    obtain ⟨⟨name, -, written⟩, rfl⟩ := moves
    exact loses_callee written (loses_last (takes_take taken) fun args => loses_call name args)
  case callUser =>
    obtain ⟨⟨name, -, written⟩, rfl⟩ := moves
    refine loses_callee written (Loses.mono (loses_last takes_get fun m => ?_) (Nat.zero_le taken))
    split
    · exact loses_refuse _ _
    · exact loses_enter _ _ _ _ _ _
  case ret =>
    obtain ⟨rfl, rfl⟩ := moves
    refine loses_last takes_pop fun v => loses_last takes_get fun m => ?_
    split <;> exact fun _ => trivial
  case arrayCreate =>
    obtain ⟨written, rfl⟩ := moves
    exact loses_last (takes_takeCounted written (Nat.one_mul _).symm) fun values =>
      fun _ => trivial
  case arrayGet =>
    obtain ⟨rfl, rfl⟩ := moves
    exact loses_bind takes_pop fun position => loses_last takes_pop fun object =>
      loses_last takes_getHeap fun heap =>
      loses_last (takes_lift (Value.apart_getIndex heap object position)) loses_push
  case arraySet =>
    obtain ⟨rfl, rfl⟩ := moves
    exact loses_bind takes_pop fun v => loses_bind takes_pop fun position =>
      loses_last takes_pop fun object => loses_last takes_getHeap fun heap =>
      loses_last (takes_lift (Value.apart_setIndex heap object position v)) loses_setHeap
  case slice =>
    obtain ⟨rfl, rfl⟩ := moves
    exact loses_bind takes_pop fun stop => loses_bind takes_pop fun start =>
      loses_last takes_pop fun object => loses_last takes_getHeap fun heap =>
      loses_last (takes_lift (Value.apart_slice heap object start stop)) fun _ _ => trivial
  case objectCreate =>
    obtain ⟨⟨n, written, total⟩, rfl⟩ := moves
    exact loses_bind takes_getHeap fun heap => loses_last (takes_takeCounted written total)
      fun values => loses_last (takes_pairUp heap values) fun _ _ => trivial
  case classDef =>
    obtain ⟨rfl, rfl⟩ := moves
    exact loses_last (takes_nameOf _) fun _ _ => trivial
  case new =>
    obtain ⟨⟨className, -, written⟩, rfl⟩ := moves
    exact loses_callee written (loses_instantiate className taken line)
  case memberGet =>
    obtain ⟨rfl, rfl⟩ := moves
    exact loses_bind takes_pop fun name => loses_last takes_pop fun object =>
      loses_last takes_getHeap fun heap => loses_last (takes_lift (Value.apart_plain heap name))
      fun key => loses_last (takes_lift (Value.apart_getMember heap object key)) loses_push
  case memberSet =>
    obtain ⟨rfl, rfl⟩ := moves
    exact loses_bind takes_pop fun v => loses_bind takes_pop fun name =>
      loses_last takes_pop fun object => loses_last takes_getHeap fun heap =>
      loses_last (takes_lift (Value.apart_plain heap name)) fun key =>
      loses_last (takes_lift (Value.apart_setMember heap object key v)) loses_setHeap
  case methodCall =>
    obtain ⟨⟨method, written⟩, -⟩ := moves
    exact loses_callee written (loses_callMethod method taken line)
  case halt => exact moves.elim

end Instructions

/-- What a step leaves as it was that ends in a fault of the instruction `i`, and what it says of the
fault. -/
structure Undamaged (m : Machine) (i : Instruction) (m' : Machine) : Prop where
  pc : m'.pc = m.pc
  globals : m'.globals = m.globals
  frames : m'.frames = m.frames
  classes : m'.classes = m.classes
  output : m'.world.output = m.world.output
  /-- The lists, maps and instances that were there before have the contents they had. -/
  cells : ∀ ref cell, m.heap.get? ref = some cell → m'.heap.get? ref = some cell
  /-- The stack below the operands of the instruction stays. -/
  stack : ∃ taken, i.Operands taken ∧ m.stack.drop taken <:+ m'.stack
  fault : ∃ fault, m'.fault = some fault ∧ fault.line = i.line

theorem Consumed.undamaged {i : Instruction} (spent : Consumed taken (m.fetched i) m')
    (operands : i.Operands taken) {fault : Fault} (unplaced : fault.line = none) :
    Undamaged m i (m'.stoppedAt m.pc (fault.withLine i.line)) := by
  obtain ⟨stack, heap, rfl⟩ := spent.same
  refine ⟨rfl, rfl, rfl, rfl, rfl, spent.cells, ⟨taken, operands, spent.rest⟩, _, rfl, ?_⟩
  rw [Fault.withLine, unplaced]
  rfl

/-- A step that ends in a fault damages nothing but the operands of its instruction, unless it calls a
handler. -/
theorem undamaged_of_step {i : Instruction} {report : StepReport} (current : m.current? = some i)
    (operands : i.Operands taken) (unfinished : m.finished = false)
    (stepped : m.step = (.ok report, m')) (failed : m'.status = .error)
    (uncalled : m'.host.calls = m.host.calls) : Undamaged m i m' := by
  cases steps_of_eq stepped with
  | ended ended => cases unfinished.symm.trans ended
  | exhausted =>
    refine ⟨rfl, rfl, rfl, rfl, rfl, fun _ _ here => here, ⟨taken, operands, List.drop_suffix ..⟩, _,
      rfl, ?_⟩
    show m.currentLine = i.line
    rw [currentLine, current]
    rfl
  | behind => cases failed
  | executed _ _ ran =>
    exact absurd failed ((worked_fetched ran).fine fun same => nomatch same)
  | @faulted j fault next _ found ran =>
    obtain rfl := Option.some.inj (current.symm.trans found)
    have loses := loses_execute operands (m.fetched i)
    unfold Act.Ends at loses
    rw [ran] at loses
    obtain ⟨unplaced, spent⟩ := loses uncalled
    exact spent.undamaged operands unplaced

end Machine

/-- Every instruction of compiled code has operands. -/
theorem Program.Balanced.exists_operands {program : Program} {code : Code} {H : Nat → Nat}
    {finish result : Nat} (balanced : program.Balanced code H finish result) {s : Segment}
    (member : s ∈ ⟨0, finish + 1⟩ ::
      (Code.entriesFrom (finish + 1) program.bodies).map Code.segmentOf)
    {a : Nat} (inside : (a : Int) ∈ s) : ∃ i taken, code.Has a i ∧ i.Operands taken := by
  have fitted {region : Nat → Prop} (fits : code.Fits H region a) :
      ∃ i taken, code.Has a i ∧ i.Operands taken := by
    obtain ⟨i, taken, given, has, moves, -⟩ := fits
    exact ⟨i, taken, has, .inr ⟨given, moves⟩⟩
  rcases List.mem_cons.mp member with rfl | later
  · by_cases last : a = finish
    · subst last
      exact ⟨_, 0, balanced.halts, .inl ⟨rfl, rfl⟩⟩
    · have bound : a < finish + 1 := by simpa using (Segment.mem_mk.mp inside).2
      exact fitted (balanced.fits false a (Nat.le_of_lt_succ bound) last)
  · obtain ⟨entry, among, rfl⟩ := List.mem_map.mp later
    exact fitted (balanced.apart entry among a (Code.mem_segmentOf.mp inside))

namespace Machine

/-- However a compiled program is driven, a step that ends in a fault damages nothing but the operands
of its instruction, unless it calls a handler. -/
theorem fault_undamaging {source readAs filename : String} {program : Program} {keepResult : Bool}
    {code : Code} (parsed : Program.parse source readAs = .ok program)
    (compiled : program.compile filename keepResult = .ok code) {machine m m' : Machine}
    {report : StepReport} (visited : Visited (machine.load code) m) (unfinished : m.finished = false)
    (stepped : m.step = (.ok report, m')) (failed : m'.status = .error)
    (uncalled : m'.host.calls = m.host.calls) :
    ∃ i, m.current? = some i ∧ Undamaged m i m' := by
  have shaped := Program.parse_shaped parsed
  obtain ⟨finish, laid⟩ := Program.laidOut_of_compile shaped compiled
  have balanced := Program.balanced_of_laidOut shaped laid
  have divided := Program.divided_of_balanced laid balanced
  have guarded := (stable_guarded divided).visited (load_guarded divided machine) visited
  obtain ⟨s, member, here, -⟩ := guarded.place.top
  obtain ⟨a, pc, -⟩ := divided.lt_size member here
  obtain ⟨i, taken, has, operands⟩ := balanced.exists_operands member (pc ▸ here)
  have current := current?_of_has guarded.loaded pc has
  exact ⟨i, current, undamaged_of_step current operands unfinished stepped failed uncalled⟩

/-- A constructor that is called without its argument, in a function that holds a list. -/
def misfit : String :=
  "class A:\n    def __init__(self, x):\n        self.x = x\n" ++
  "def f(items):\n    return A()\nf([1, 2])\n"

/-- The instance is made before the call is refused. -/
theorem fault_undamaging_misfit : ∃ program code m m' report i,
    Program.parse misfit unnamedSource = .ok program ∧
      program.compile unnamedSource true = .ok code ∧
      Visited (((new {}).addBreakpoint 5).load code) m ∧ m.finished = false ∧
      m.step = (.ok report, m') ∧ m'.status = .error ∧ m'.host.calls = m.host.calls ∧
      m.frames.length = 1 ∧ m'.heap.size = m.heap.size + 1 ∧ m.current? = some i ∧
      Undamaged m i m' := by
  have ran : (runToLine misfit 5).toOption.any (fun result =>
      !result.2.finished && result.2.step.1.toOption.isSome && result.2.step.2.status = .error &&
        result.2.step.2.host.calls.isEmpty && result.2.host.calls.isEmpty &&
        result.2.frames.length = 1 && result.2.step.2.heap.size = result.2.heap.size + 1) = true := by
    rw [runToLine_eq_ofChars misfit (append_eq_ofList rfl rfl)]
    decide +kernel
  obtain ⟨⟨answer, m⟩, result, ran⟩ := exists_ok ran
  simp only [Bool.and_eq_true, Bool.not_eq_true', decide_eq_true_eq, List.isEmpty_iff] at ran
  obtain ⟨⟨⟨⟨⟨⟨unfinished, answered⟩, failed⟩, after⟩, before⟩, frames⟩, grown⟩ := ran
  obtain ⟨program, code, parsed, compiled, went⟩ := visited_of_runToLine result
  rcases stepped : m.step with ⟨failure | report, m'⟩
  · rw [stepped] at answered
    cases answered
  · rw [stepped] at failed after grown
    have uncalled : m'.host.calls = m.host.calls := after.trans before.symm
    obtain ⟨i, current, undamaged⟩ :=
      fault_undamaging parsed compiled went unfinished stepped failed uncalled
    exact ⟨program, code, m, m', report, i, parsed, compiled, went, unfinished, stepped, failed,
      uncalled, frames, grown, current, undamaged⟩

end Machine

end Stepwise
