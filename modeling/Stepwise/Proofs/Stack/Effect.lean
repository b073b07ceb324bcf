import Stepwise.Proofs.Apart
import Stepwise.Proofs.Code.Operand
import Stepwise.Proofs.Machine.Steps
import Stepwise.Proofs.Stack.Balance

/-!
What each instruction does to the operand stack. Instructions that stay within a call move as many
values as `Instruction.Moves` says and leave alone everything else that calls depend on.
-/
namespace Stepwise

/-- Instructions that neither jump nor have to do with calls and classes. -/
def Opcode.isPlain : Opcode → Bool
  | .jump | .jumpIf | .jumpIfNot | .ret | .halt | .callUser | .new | .methodCall | .classDef => false
  | _ => true

/-- The operand of an instruction says how many values it takes and gives. -/
theorem Instruction.Moves.unique {i : Instruction} {taken given taken' given' : Nat}
    (moves : i.Moves taken given) (moves' : i.Moves taken' given') : taken' = taken ∧ given' = given := by
  obtain ⟨op, operand, line⟩ := i
  unfold Instruction.Moves at moves moves'
  cases op
  case call | callUser | new =>
    obtain ⟨⟨name, -, rfl⟩, rfl⟩ := moves
    obtain ⟨⟨name', -, same⟩, rfl⟩ := moves'
    exact ⟨(callOperand_inj (Value.text.inj same)).2.symm, rfl⟩
  case methodCall =>
    obtain ⟨⟨name, rfl⟩, -, rfl⟩ := moves
    obtain ⟨⟨name', same⟩, -, rfl⟩ := moves'
    exact ⟨(callOperand_inj (Value.text.inj same)).2.symm, rfl⟩
  case arrayCreate =>
    obtain ⟨rfl, rfl⟩ := moves
    obtain ⟨same, rfl⟩ := moves'
    cases same
    exact ⟨rfl, rfl⟩
  case objectCreate =>
    obtain ⟨⟨n, rfl, rfl⟩, rfl⟩ := moves
    obtain ⟨⟨n', same, rfl⟩, rfl⟩ := moves'
    cases same
    exact ⟨rfl, rfl⟩
  case halt => exact moves.elim
  case jump | jumpIf | jumpIfNot => exact ⟨moves'.1.1.trans moves.1.1.symm, moves'.1.2.trans moves.1.2.symm⟩
  all_goals exact ⟨moves'.1.trans moves.1.symm, moves'.2.trans moves.2.symm⟩

/-- What the discipline of the stack looks at in a frame. -/
def CallFrame.link (frame : CallFrame) : Int × Int := (frame.returnAddress, frame.stackBase)

namespace Engine

/-- A fault that a handler of the host raises. -/
def Raises (engine : Engine) (fault : Fault) : Prop :=
  ∃ name role bound args, engine.host.find? name = some (role, bound) ∧
    (bound.handler bound.earlier args engine.heap).outcome = .error (.fault fault)

/-- The program is under way. -/
def Awake (engine : Engine) : Prop := engine.status = .running ∨ engine.status = .paused

theorem awake_grant {engine : Engine} (awake : engine.Awake) (requests : List Request) :
    (requests.foldl grant engine).Awake := by
  induction requests generalizing engine with
  | nil => exact awake
  | cons request requests ih =>
    refine ih ?_
    cases request with
    | pause =>
      simp only [grant, pause]
      split
      · exact .inr rfl
      · exact awake
    | setGlobal => exact awake

theorem awake_callBuiltin {engine engine' : Engine} (awake : engine.Awake) {name : Name}
    {args : List Value} {result : Except Failure Value}
    (called : engine.callBuiltin name args = (result, engine')) : engine'.Awake := by
  unfold callBuiltin at called
  split at called
  all_goals
    cases called
    exact awake

theorem awake_call {engine engine' : Engine} (awake : engine.Awake) {name : Name}
    {args : List Value} {result : Except Failure Value}
    (called : engine.call name args = (result, engine')) : engine'.Awake := by
  unfold call at called
  split at called
  next role bound _ =>
    unfold callHandler at called
    dsimp only at called
    have granted : ∀ requests : List Request, (requests.foldl grant (engine.replied role name bound
        args (bound.handler bound.earlier args engine.heap))).Awake := awake_grant awake
    split at called
    all_goals
      cases called
      exact granted _
  next => exact awake_callBuiltin awake called

theorem callBuiltin_fault {engine engine' : Engine} {name : Name} {args : List Value}
    {fault : Fault} (called : engine.callBuiltin name args = (.error (.fault fault), engine')) :
    fault.message ≠ underflow := by
  unfold callBuiltin at called
  split at called
  next => cases called
  next failure failed =>
    cases called
    exact (Builtin.apart_call _ _ _ _ failed).1

theorem call_fault {engine engine' : Engine} {name : Name} {args : List Value} {fault : Fault}
    (called : engine.call name args = (.error (.fault fault), engine')) :
    fault.message ≠ underflow ∨ engine.Raises fault := by
  unfold call at called
  split at called
  next role bound found =>
    unfold callHandler at called
    dsimp only at called
    split at called
    next => cases called
    next failure failed =>
      cases called
      exact .inr ⟨name, role, bound, args, found, failed⟩
  next => exact .inl (callBuiltin_fault called)

end Engine

namespace Machine

/-- Two machines that agree in all that calls depend on, apart from the stack. -/
structure Beside (m m' : Machine) : Prop where
  code : m'.code = m.code
  pc : m'.pc = m.pc
  links : m'.frames.map CallFrame.link = m.frames.map CallFrame.link
  classes : m'.classes = m.classes
  history : m'.history = m.history
  awake : m'.Awake

/-- A machine reached by leaving values in the place of others, and nothing else that calls depend
on. -/
def Moved (m : Machine) (taken given : Nat) (m' : Machine) : Prop :=
  Beside m m' ∧ ∃ values : List Value, values.length = given ∧ m'.stack = values ++ m.stack.drop taken

/-- What a fault leaves behind. It never says that the stack is empty, unless the host does. -/
def Failed (m : Machine) (fault : Fault) (m' : Machine) : Prop :=
  m'.code = m.code ∧ m'.history = m.history ∧ (fault.message ≠ underflow ∨ m.Raises fault)

/-- An action that takes and gives a number of values. -/
def Shifts (x : Action Unit) (taken given : Nat) : Prop :=
  ∀ m : Machine, m.Awake → taken ≤ m.stack.length →
    x.Ends m (fun _ => Moved m taken given) (Failed m)

variable {m : Machine}

theorem exists_cons {n : Nat} {stack : List Value} (enough : n + 1 ≤ stack.length) :
    ∃ v rest, stack = v :: rest ∧ n ≤ rest.length := by
  cases stack with
  | nil => simp at enough
  | cons v rest => exact ⟨v, rest, rfl, by simpa using enough⟩

theorem Beside.ofStack {stack : List Value} (awake : m.Awake) : Beside m { m with stack } :=
  ⟨rfl, rfl, rfl, rfl, rfl, awake⟩

theorem Beside.trans {m' m'' : Machine} (first : Beside m m') (second : Beside m' m'') :
    Beside m m'' :=
  ⟨second.code.trans first.code, second.pc.trans first.pc, second.links.trans first.links,
    second.classes.trans first.classes, second.history.trans first.history, second.awake⟩

theorem Moved.length {taken given : Nat} {m' : Machine} (moved : Moved m taken given m')
    (enough : taken ≤ m.stack.length) : m'.stack.length + taken = m.stack.length + given := by
  obtain ⟨-, values, rfl, stack⟩ := moved
  rw [stack, List.length_append, List.length_drop]
  omega

theorem Moved.suffix {taken given : Nat} {m' : Machine} (moved : Moved m taken given m') :
    m.stack.drop taken <:+ m'.stack :=
  let ⟨_, values, _, stack⟩ := moved
  ⟨values, stack.symm⟩

section Parts

variable {α : Type} {m' : Machine} {taken given : Nat} {good : α → Machine → Prop}
  {bad : Fault → Machine → Prop}

theorem Moved.refl (awake : m.Awake) : Moved m 0 0 m := ⟨.ofStack awake, [], rfl, rfl⟩

theorem Moved.failed {f : Fault} (moved : Moved m taken given m') (apart : f.message ≠ underflow) :
    Failed m f m' :=
  ⟨moved.1.code, moved.1.history, .inl apart⟩

/-- One more value is taken. -/
theorem Moved.pop {f : Value → Action α} (moved : Moved m taken 0 m')
    (enough : taken < m.stack.length)
    (rest : ∀ v m'', Moved m (taken + 1) 0 m'' → (f v).Ends m'' good bad) :
    (pop >>= f).Ends m' good bad := by
  obtain ⟨beside, values, none, stack⟩ := moved
  obtain rfl := List.eq_nil_of_length_eq_zero none
  rw [List.nil_append, List.drop_eq_getElem_cons enough] at stack
  refine .bind (ends_pop stack (rest _ _ ⟨?_, [], rfl, rfl⟩))
  exact { beside with awake := beside.awake }

/-- A value is left. -/
theorem Moved.push (moved : Moved m taken given m') (v : Value) :
    (push v).Ends m' (fun _ => Moved m taken (given + 1)) bad := by
  obtain ⟨beside, values, length, stack⟩ := moved
  refine ends_push ⟨{ beside with awake := beside.awake }, v :: values, ?_, ?_⟩
  · rw [List.length_cons, length]
  · rw [stack, List.cons_append]

/-- Something is computed that may fail, but not for want of values. -/
theorem Moved.lift {β : Type} {e : Except Failure β} {f : β → Action α}
    (moved : Moved m taken given m') (apart : Apart e)
    (rest : ∀ b, (f b).Ends m' good (Failed m)) :
    (liftM e >>= f).Ends m' good (Failed m) :=
  .bind (.lift (fun b _ => rest b) fun f failed => moved.failed (apart f failed).1)

theorem Moved.getHeap {f : Heap → Action α} (rest : ∀ heap, (f heap).Ends m' good bad) :
    (getHeap >>= f).Ends m' good bad :=
  .bind (ends_getHeap (rest _))

theorem Moved.setHeap (moved : Moved m taken given m') (heap : Heap) :
    (setHeap heap).Ends m' (fun _ => Moved m taken given) bad :=
  ends_setHeap ⟨{ moved.1 with awake := moved.1.awake }, moved.2⟩

/-- A cell that was made is left. -/
theorem Moved.made (moved : Moved m taken given m') (made : Value × Heap) :
    (do Machine.setHeap made.2; Machine.push made.1).Ends m' (fun _ => Moved m taken (given + 1)) bad :=
  .bind ((moved.setHeap made.2).mono (fun _ _ moved => moved.push _) fun _ _ holds => holds)

end Parts

theorem shifts_push (v : Value) : Shifts (push v) 0 1 := fun _ awake _ => (Moved.refl awake).push v

theorem shifts_binary (op : BinaryOp) : Shifts (binary op) 2 1 := by
  intro m awake enough
  refine (Moved.refl awake).pop (by omega) fun b m₁ moved => ?_
  refine moved.pop enough fun a m₂ moved => Moved.getHeap fun heap => ?_
  exact moved.lift (Value.apart_binary _ _ _ _) moved.push

theorem ends_calleeOf {i : Instruction} {name : String} {argc : Nat}
    (written : i.operand = .text (callOperand name argc)) {good : String × Int → Machine → Prop}
    {bad : Fault → Machine → Prop} (holds : good (name, argc) m) :
    (calleeOf i).Ends m good bad := by
  unfold calleeOf
  rw [written]
  dsimp only
  split
  next callee read =>
    rw [readCallOperand_callOperand read]
    exact .pure holds
  next => exact .host

theorem ends_takeCounted {i : Instruction} {n factor count : Nat} (written : i.operand = .int n)
    (total : count = factor * n) (enough : count ≤ m.stack.length)
    {good : List Value → Machine → Prop} {bad : Fault → Machine → Prop}
    (holds : good (m.stack.take count).reverse { m with stack := m.stack.drop count }) :
    (takeCounted i factor).Ends m good bad := by
  have weight : i.operand.weight? = some (.int n) := by
    rw [written]
    rfl
  unfold takeCounted
  rw [weight]
  have product : (factor : Int) * (n : Int) = (count : Nat) := by
    rw [total]
    simp
  dsimp only
  rw [product]
  exact ends_take enough holds

theorem ends_pairUp (heap : Heap) (values : List Value) :
    (pairUp heap values).Ends m (fun _ m' => m' = m)
      (fun f m' => m' = m ∧ f.message ≠ underflow) := by
  induction values using pairUp.induct with
  | case1 => exact .pure rfl
  | case2 key v rest ih =>
    unfold pairUp
    refine .bind (.lift (fun _ _ => .bind (ih.mono ?_ fun _ _ holds => holds)) ?_)
    · rintro entries _ rfl
      exact .pure rfl
    · intro f failed
      exact ⟨rfl, (Value.apart_plain _ _ f failed).1⟩
  | case3 => exact .host

theorem ends_store {name : Name} {v : Value} {good : Unit → Machine → Prop}
    {bad : Fault → Machine → Prop} (awake : m.Awake)
    (holds : ∀ m', Beside m m' → m'.stack = m.stack → good () m') :
    (store name v).Ends m good bad := by
  refine ends_modify (holds _ ?_ ?_)
  all_goals cases frames : m.frames
  · exact ⟨rfl, rfl, by simp [frames], rfl, rfl, awake⟩
  · exact ⟨rfl, rfl, by simp [frames, CallFrame.link], rfl, rfl, awake⟩
  · rfl
  · rfl

theorem ends_lookup {name : Name} {good : Value → Machine → Prop} {bad : Fault → Machine → Prop}
    (found : ∀ v, good v m) (missing : bad (undefinedVariable name) m) :
    (lookup name).Ends m good bad := by
  refine .bind (ends_get ?_)
  split
  · exact .pure (found _)
  · exact .fault missing

theorem undefinedVariable_apart (name : Name) : (undefinedVariable name).message ≠ underflow :=
  ne_underflow '"' (by simp [underflow_toList, undefinedVariable, Fault.running])

section Opcodes

variable {operand : Value} {line : Option Int}

theorem shifts_pop : Shifts (execute ⟨.pop, operand, line⟩) 1 0 := fun _ awake enough =>
  (Moved.refl awake).pop enough fun _ _ moved => .pure moved

theorem shifts_dup : Shifts (execute ⟨.dup, operand, line⟩) 1 2 := by
  intro m awake enough
  obtain ⟨v, rest, top, -⟩ := exists_cons enough
  exact .bind (ends_peek top (ends_push ⟨.ofStack awake, [v, v], rfl, by simp [top]⟩))

theorem shifts_load : Shifts (execute ⟨.load, operand, line⟩) 0 1 := by
  intro m awake _
  refine .bind (ends_nameOf fun name _ => .bind (ends_lookup (fun v => ?_) ?_))
  · exact (Moved.refl awake).push v
  · exact (Moved.refl awake).failed (undefinedVariable_apart name)

theorem shifts_store : Shifts (execute ⟨.store, operand, line⟩) 1 0 := by
  intro m awake enough
  refine (Moved.refl awake).pop enough fun v m₁ moved => .bind (ends_nameOf fun name _ => ?_)
  refine ends_store moved.1.awake fun m' beside same => ?_
  exact ⟨moved.1.trans beside, by rw [same]; exact moved.2⟩

theorem shifts_neg : Shifts (execute ⟨.neg, operand, line⟩) 1 1 := by
  intro m awake enough
  refine (Moved.refl awake).pop enough fun v m₁ moved => Moved.getHeap fun heap => ?_
  exact moved.lift (Value.apart_negate _ _) moved.push

theorem shifts_not : Shifts (execute ⟨.not, operand, line⟩) 1 1 := by
  intro m awake enough
  refine (Moved.refl awake).pop enough fun v m₁ moved => Moved.getHeap fun heap => ?_
  exact moved.push _

theorem shifts_repeatCount : Shifts (execute ⟨.repeatCount, operand, line⟩) 1 1 := by
  intro m awake enough
  refine (Moved.refl awake).pop enough fun v m₁ moved => Moved.getHeap fun heap => ?_
  exact moved.lift (Value.apart_repeatCount _ _) fun n => moved.push (.int n)

/-- The three bounds are looked at and put back. -/
theorem shifts_rangeCheck : Shifts (execute ⟨.rangeCheck, operand, line⟩) 3 3 := by
  intro m awake enough
  refine .bind (ends_take enough ?_)
  have whole : (pushAll (m.stack.take 3).reverse).Ends { m with stack := m.stack.drop 3 }
      (fun _ => Moved m 3 3) (Failed m) :=
    ends_pushAll ⟨.ofStack awake, m.stack.take 3, by simp [enough], by simp⟩
  dsimp only
  split
  · refine .bind (.lift (fun _ _ => whole) fun f failed => ?_)
    exact ⟨rfl, rfl, .inl (Value.apart_checkRange _ _ _ f failed).1⟩
  · exact .bind (.pure whole)

theorem shifts_call {name : String} {argc : Nat} (written : operand = .text (callOperand name argc)) :
    Shifts (execute ⟨.call, operand, line⟩) argc 1 := by
  intro m awake enough
  refine .bind (ends_calleeOf written (.bind (ends_take enough (.bind (ends_outside ?_ ?_)))))
  · intro v engine called
    exact ends_push ⟨⟨rfl, rfl, rfl, rfl, rfl, Engine.awake_call awake called⟩, [v], rfl, rfl⟩
  · intro f engine called
    exact ⟨rfl, rfl, Engine.call_fault called⟩

theorem shifts_arrayCreate {count : Nat} (written : operand = .int count) :
    Shifts (execute ⟨.arrayCreate, operand, line⟩) count 1 := by
  intro m awake enough
  refine .bind (ends_takeCounted written (Nat.one_mul _).symm enough (Moved.getHeap fun heap => ?_))
  exact Moved.made ⟨.ofStack awake, [], rfl, rfl⟩ (heap.newList _)

theorem shifts_objectCreate {n : Nat} (written : operand = .int n) :
    Shifts (execute ⟨.objectCreate, operand, line⟩) (2 * n) 1 := by
  intro m awake enough
  have moved : Moved m (2 * n) 0 { m with stack := m.stack.drop (2 * n) } :=
    ⟨.ofStack awake, [], rfl, rfl⟩
  refine Moved.getHeap fun heap => .bind (ends_takeCounted written rfl enough ?_)
  refine .bind ((ends_pairUp _ _).mono ?_ ?_)
  · rintro entries _ rfl
    exact Moved.getHeap fun heap => moved.made (heap.newMap _)
  · rintro f _ ⟨rfl, differs⟩
    exact moved.failed differs

theorem shifts_arrayGet : Shifts (execute ⟨.arrayGet, operand, line⟩) 2 1 := by
  intro m awake enough
  refine (Moved.refl awake).pop (by omega) fun position m₁ moved => ?_
  refine moved.pop enough fun object m₂ moved => Moved.getHeap fun heap => ?_
  exact moved.lift (Value.apart_getIndex _ _ _) moved.push

theorem shifts_arraySet : Shifts (execute ⟨.arraySet, operand, line⟩) 3 0 := by
  intro m awake enough
  refine (Moved.refl awake).pop (by omega) fun v m₁ moved => ?_
  refine moved.pop (by omega) fun position m₂ moved => ?_
  refine moved.pop enough fun object m₃ moved => Moved.getHeap fun heap => ?_
  exact moved.lift (Value.apart_setIndex _ _ _ _) moved.setHeap

theorem shifts_slice : Shifts (execute ⟨.slice, operand, line⟩) 3 1 := by
  intro m awake enough
  refine (Moved.refl awake).pop (by omega) fun stop m₁ moved => ?_
  refine moved.pop (by omega) fun start m₂ moved => ?_
  refine moved.pop enough fun object m₃ moved => Moved.getHeap fun heap => ?_
  exact moved.lift (Value.apart_slice _ _ _ _) moved.made

theorem shifts_memberGet : Shifts (execute ⟨.memberGet, operand, line⟩) 2 1 := by
  intro m awake enough
  refine (Moved.refl awake).pop (by omega) fun name m₁ moved => ?_
  refine moved.pop enough fun object m₂ moved => Moved.getHeap fun heap => ?_
  refine moved.lift (Value.apart_plain _ _) fun text => ?_
  exact moved.lift (Value.apart_getMember _ _ _) moved.push

theorem shifts_memberSet : Shifts (execute ⟨.memberSet, operand, line⟩) 3 0 := by
  intro m awake enough
  refine (Moved.refl awake).pop (by omega) fun v m₁ moved => ?_
  refine moved.pop (by omega) fun name m₂ moved => ?_
  refine moved.pop enough fun object m₃ moved => Moved.getHeap fun heap => ?_
  refine moved.lift (Value.apart_plain _ _) fun text => ?_
  exact moved.lift (Value.apart_setMember _ _ _ _) moved.setHeap

end Opcodes

/-- An instruction takes and gives as many values as `Instruction.Moves` says. -/
theorem shifts_execute {i : Instruction} {taken given : Nat} (moves : i.Moves taken given)
    (plain : i.op.isPlain = true) : Shifts (execute i) taken given := by
  obtain ⟨op, operand, line⟩ := i
  cases op
  case jump | jumpIf | jumpIfNot | ret | halt | callUser | new | methodCall | classDef => cases plain
  case call =>
    obtain ⟨⟨name, -, written⟩, rfl⟩ := moves
    exact shifts_call written
  case arrayCreate =>
    obtain ⟨written, rfl⟩ := moves
    exact shifts_arrayCreate written
  case objectCreate =>
    obtain ⟨⟨n, written, rfl⟩, rfl⟩ := moves
    exact shifts_objectCreate written
  all_goals obtain ⟨rfl, rfl⟩ := moves
  case push => exact shifts_push operand
  case pop => exact shifts_pop
  case dup => exact shifts_dup
  case load => exact shifts_load
  case store => exact shifts_store
  case neg => exact shifts_neg
  case not => exact shifts_not
  case nop => exact fun _ awake _ => .pure (.refl awake)
  case repeatCount => exact shifts_repeatCount
  case rangeCheck => exact shifts_rangeCheck
  case arrayGet => exact shifts_arrayGet
  case arraySet => exact shifts_arraySet
  case slice => exact shifts_slice
  case memberGet => exact shifts_memberGet
  case memberSet => exact shifts_memberSet
  all_goals exact shifts_binary _

end Machine

end Stepwise
