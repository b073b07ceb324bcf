import Stepwise.Proofs.Stack.Effect
import Stepwise.Proofs.Stack.Whole

/-!
Calls and the operand stack. `Level` says of all calls under way that each has as many values above
its base as the address it stands at, or returns to, asks for.
-/
namespace Stepwise

section

variable (H : Nat → Nat) (region : Bool → Nat → Prop)

/-- A place, within a call or outside of calls, with a number of values above the base. -/
def StandsAt (called : Bool) (pc height : Int) : Prop :=
  ∃ a : Nat, pc = a ∧ region called a ∧ height = H a

/-- The calls under way, by their return addresses and bases, above a call that stands at `pc` with
a stack of the given height. A call that returns leaves one value. -/
def Level : List (Int × Int) → Int → Int → Prop
  | [], pc, height => StandsAt H region false pc height
  | (returnAddress, base) :: callers, pc, height =>
    StandsAt H region true pc (height - base) ∧ 0 ≤ base ∧ (∃ a : Nat, returnAddress = a ∧ 1 ≤ H a) ∧
      Level callers returnAddress (base + 1)

end

/-- The height of the stack below the innermost call. -/
def baseOf : List (Int × Int) → Int
  | [] => 0
  | (_, base) :: _ => base

variable {H : Nat → Nat} {region : Bool → Nat → Prop} {links : List (Int × Int)}

theorem Level.stands {pc height : Int} (level : Level H region links pc height) :
    StandsAt H region (!links.isEmpty) pc (height - baseOf links) ∧ 0 ≤ baseOf links := by
  cases links with
  | nil => exact ⟨by rwa [baseOf, Int.sub_zero], Int.le_refl 0⟩
  | cons link callers => exact ⟨level.1, level.2.1⟩

/-- Within a call the height follows the address. -/
theorem Level.move {a b : Nat} {height height' : Int} (level : Level H region links a height)
    (inside : region (!links.isEmpty) b) (balance : height' + H a = height + H b) :
    Level H region links b height' := by
  cases links with
  | nil =>
    obtain ⟨_, same, -, rfl⟩ := level
    cases same
    exact ⟨b, rfl, inside, by omega⟩
  | cons link callers =>
    obtain ⟨⟨_, same, -, above⟩, rest⟩ := level
    cases same
    exact ⟨⟨b, rfl, inside, by omega⟩, rest⟩

/-- A call enters with its arguments on top, and the caller waits for one value in their place. -/
theorem Level.enter {a back entry : Nat} {height height' base : Int}
    (level : Level H region links a height) (inside : region (!links.isEmpty) back) (positive : 1 ≤ H back)
    (waits : base + 1 + H a = height + H back) (entered : region true entry)
    (args : height' = base + H entry) :
    Level H region (((back : Nat), base) :: links) entry height' := by
  have stands := level.stands
  refine ⟨⟨entry, rfl, entered, by omega⟩, ?_, ⟨back, rfl, positive⟩, level.move inside waits⟩
  obtain ⟨⟨_, same, -, above⟩, nonneg⟩ := stands
  cases same
  omega

/-- The bases of calls do not shrink from the outermost call to the innermost. -/
theorem Level.sorted {pc height : Int} (level : Level H region links pc height) :
    links.Pairwise fun inner outer => outer.2 ≤ inner.2 := by
  induction links generalizing pc height with
  | nil => exact .nil
  | cons link callers ih =>
    obtain ⟨returnAddress, base⟩ := link
    obtain ⟨-, -, ⟨back, rfl, positive⟩, waiting⟩ := level
    have rest := ih waiting
    obtain ⟨⟨_, same, -, above⟩, -⟩ := waiting.stands
    cases same
    refine List.pairwise_cons.mpr ⟨fun outer member => ?_, rest⟩
    cases callers with
    | nil => cases member
    | cons next others =>
      simp only [baseOf] at above
      rcases List.mem_cons.mp member with rfl | further
      · omega
      · have := (List.pairwise_cons.mp rest).1 outer further
        omega

namespace Machine

/-- Every method that a machine knows of a class is one that its code has for it. -/
def ClassesKnown (code : Code) (classes : Bindings (Bindings Int)) : Prop :=
  ∀ className table method address, classes.get? className = some table →
    table.get? method = some address →
    ∃ known, code.classes.get? className = some known ∧ known.get? method = some address

theorem ClassesKnown.put {code : Code} {classes : Bindings (Bindings Int)}
    (known : ClassesKnown code classes) (name : Name) :
    ClassesKnown code (classes.put name ((code.classes.get? name).getD [])) := by
  intro className table method address found entered
  rw [Bindings.get?_put] at found
  split at found
  next same =>
    cases found
    cases table : code.classes.get? name with
    | none => simp [table, Bindings.get?] at entered
    | some known =>
      rw [table] at entered
      exact ⟨known, by rw [Bindings.get?_congr same, table], entered⟩
  next => exact known className table method address found entered

theorem ends_enter {m : Machine} {code : Code} (loaded : m.code = some code) {name : String}
    {address argc : Int} {line : Option Int} {base : Int} {receiver : Option Value} {arity : Int}
    (known : code.arities.get? name = some arity) {good : Unit → Machine → Prop}
    (holds : arity = argc + (if receiver.isSome then 1 else 0) →
      ∀ frame : CallFrame, frame.link = (m.pc, base) →
        good () { m with frames := frame :: m.frames, pc := address }) :
    (enter name address argc line base receiver).Ends m good
      (fun f m' => m' = m ∧ f.message ≠ underflow) := by
  have arities : (m.code.bind fun code => code.arities.get? name) = some arity := by
    rw [loaded]
    exact known
  unfold enter
  refine .bind (ends_get ?_)
  rw [arities]
  refine .ite (fun _ => .bind (.fault ?_)) fun agrees => .ite (fun _ => .bind (.fault ?_)) fun _ => ?_
  · exact ⟨rfl, ne_underflow '(' (by simp [underflow_toList, Fault.running])⟩
  · exact ⟨rfl, by decide⟩
  · exact ends_set (holds (Decidable.not_not.mp agrees) _ rfl)

end Machine

/-- A state in which the stack has the height that all calls under way ask for. -/
structure Snapshot.Leveled (program : Program) (code : Code) (H : Nat → Nat) (finish : Nat)
    (s : Snapshot) : Prop where
  classes : Machine.ClassesKnown code s.classes
  level : Level H (program.Region finish) (s.frames.map CallFrame.link) s.pc s.stack.length

namespace Machine

variable {program : Program} {scope : Scope} {keepResult : Bool} {code : Code} {finish result : Nat}
  {m : Machine} {i : Instruction} {a : Nat}

/-- Where an instruction at an address goes: on within its call, into a call, or back to its caller.
Below the values that it takes, and above the base of a call that returns, the stack stays as it is. -/
inductive Turns (i : Instruction) (a taken : Nat) (m m' : Machine) : Prop where
  | goes : i.Leads a m'.pc → m'.frames.map CallFrame.link = m.frames.map CallFrame.link →
      m.stack.drop taken <:+ m'.stack → Turns i a taken m m'
  | enters (base : Int) : i.Leads a (a + 1 : Nat) → base + taken = m.stack.length →
      m'.frames.map CallFrame.link = (((a + 1 : Nat) : Int), base) :: m.frames.map CallFrame.link →
      m.stack.drop taken <:+ m'.stack → Turns i a taken m m'
  | returns (base : Int) :
      m.frames.map CallFrame.link = (m'.pc, base) :: m'.frames.map CallFrame.link →
      below base (m.stack.drop taken) <:+ m'.stack → Turns i a taken m m'

/-- Where an instruction leaves a machine: at the height that its new address asks for, or with the
one result of a program that returned. -/
def Lands (program : Program) (code : Code) (H : Nat → Nat) (finish a taken : Nat)
    (i : Instruction) (m m' : Machine) : Prop :=
  m'.code = m.code ∧ m'.history = m.history ∧
    ((m'.Awake ∧ m'.snapshot.Leveled program code H finish ∧ Turns i a taken m m') ∨
      (i.op = .ret ∧ m.frames = [] ∧ m'.status = .completed ∧ m'.report.done = true ∧
        m'.stack.length = 1))

theorem leads_next (plain : i.op.isPlain = true) : i.Leads a (a + 1 : Nat) := by
  obtain ⟨op, operand, line⟩ := i
  cases op <;> first | rfl | cases plain

/-- A machine that is about to execute an instruction, with the height the instruction asks for. -/
structure Ready (program : Program) (code : Code) (H : Nat → Nat) (finish : Nat) (a : Nat)
    (m : Machine) : Prop where
  loaded : m.code = some code
  awake : m.Awake
  pc : m.pc = (a + 1 : Nat)
  classes : ClassesKnown code m.classes
  level : Level H (program.Region finish) (m.frames.map CallFrame.link) a m.stack.length

/-- The addresses of the innermost call. -/
def Inside (program : Program) (finish : Nat) (m : Machine) : Nat → Prop :=
  program.Region finish !(m.frames.map CallFrame.link).isEmpty

/-- What the heights around an instruction promise. -/
structure Promised (H : Nat → Nat) (inside : Nat → Prop) (a : Nat) (i : Instruction)
    (taken given : Nat) : Prop where
  moves : i.Moves taken given
  enough : taken ≤ H a
  leads : ∀ b, i.Leads a b →
    ∃ b' : Nat, b = b' ∧ inside b' ∧ H b' + taken = H a + given

variable {taken given : Nat}

theorem Ready.enough (ready : Ready program code H finish a m)
    (promised : Promised H (m.Inside program finish) a i taken given) : taken ≤ m.stack.length := by
  obtain ⟨⟨_, same, -, above⟩, nonneg⟩ := ready.level.stands
  cases same
  have := promised.enough
  omega

theorem Ready.lands (ready : Ready program code H finish a m)
    (promised : Promised H (m.Inside program finish) a i taken given) {m' : Machine} {b : Int}
    (leads : i.Leads a b) (loaded : m'.code = m.code) (history : m'.history = m.history)
    (awake : m'.Awake) (classes : ClassesKnown code m'.classes) (pc : m'.pc = b)
    (links : m'.frames.map CallFrame.link = m.frames.map CallFrame.link)
    (moved : m'.stack.length + taken = m.stack.length + given)
    (rest : m.stack.drop taken <:+ m'.stack) : Lands program code H finish a taken i m m' := by
  obtain ⟨b', rfl, inside, balance⟩ := promised.leads b leads
  refine ⟨loaded, history, .inl ⟨awake, ⟨classes, ?_⟩, .goes (pc ▸ leads) links rest⟩⟩
  show Level H (program.Region finish) (m'.frames.map CallFrame.link) m'.pc m'.stack.length
  rw [pc, links]
  exact ready.level.move inside (by omega)

theorem plain_lands (ready : Ready program code H finish a m)
    (promised : Promised H (m.Inside program finish) a i taken given) (plain : i.op.isPlain = true) :
    (execute i).Ends m (fun _ => Lands program code H finish a taken i m) (Failed m) := by
  have enough := ready.enough promised
  refine (shifts_execute promised.moves plain m ready.awake enough).mono ?_ fun _ _ failed => failed
  intro _ m' moved
  obtain ⟨loaded, pc, links, classes, history, awake⟩ := moved.1
  exact ready.lands promised (leads_next plain) loaded history awake (classes ▸ ready.classes)
    (pc.trans ready.pc) links (moved.length enough) moved.suffix

theorem jump_lands (ready : Ready program code H finish a m)
    (promised : Promised H (m.Inside program finish) a i taken given) (jumps : i.op.isJump = true) :
    (execute i).Ends m (fun _ => Lands program code H finish a taken i m) (Failed m) := by
  have enough := ready.enough promised
  have moves := promised.moves
  have lands := @ready.lands _ _ _ _ _ _ _ _ _ promised
  obtain ⟨op, operand, line⟩ := i
  unfold execute
  cases op
  case jump =>
    obtain ⟨⟨rfl, rfl⟩, -⟩ := moves
    exact .bind (ends_addressOf fun address found => ends_jumpTo
      (lands found rfl rfl ready.awake ready.classes rfl rfl rfl (List.suffix_refl _)))
  case jumpIf =>
    obtain ⟨⟨rfl, rfl⟩, -⟩ := moves
    obtain ⟨v, rest, top, -⟩ := exists_cons enough
    refine .bind (ends_pop top (.bind (ends_getHeap (.ite (fun _ => ?_) fun _ => ?_))))
    · exact .bind (ends_addressOf fun address found => ends_jumpTo
        (lands (.inr found) rfl rfl ready.awake ready.classes rfl rfl (by simp [top]) (by simp [top])))
    · exact .pure (lands (.inl rfl) rfl rfl ready.awake ready.classes ready.pc rfl (by simp [top])
        (by simp [top]))
  case jumpIfNot =>
    obtain ⟨⟨rfl, rfl⟩, -⟩ := moves
    obtain ⟨v, rest, top, -⟩ := exists_cons enough
    refine .bind (ends_pop top (.bind (ends_getHeap (.ite (fun _ => ?_) fun _ => ?_))))
    · exact .pure (lands (.inl rfl) rfl rfl ready.awake ready.classes ready.pc rfl (by simp [top])
        (by simp [top]))
    · exact .bind (ends_addressOf fun address found => ends_jumpTo
        (lands (.inr found) rfl rfl ready.awake ready.classes rfl rfl (by simp [top]) (by simp [top])))
  all_goals cases jumps

theorem classDef_lands (ready : Ready program code H finish a m)
    (promised : Promised H (m.Inside program finish) a i taken given) (defines : i.op = .classDef) :
    (execute i).Ends m (fun _ => Lands program code H finish a taken i m) (Failed m) := by
  obtain ⟨op, operand, line⟩ := i
  subst defines
  obtain ⟨rfl, rfl⟩ := promised.moves
  refine .bind (ends_nameOf fun name _ => ends_modify ?_)
  refine ready.lands promised rfl rfl rfl ready.awake ?_ ready.pc rfl rfl (List.suffix_refl _)
  rw [ready.loaded]
  exact ready.classes.put name

theorem ret_lands (ready : Ready program code H finish a m)
    (promised : Promised H (m.Inside program finish) a i taken given) (returns : i.op = .ret) :
    (execute i).Ends m (fun _ => Lands program code H finish a taken i m) (Failed m) := by
  have enough := ready.enough promised
  have level := ready.level
  obtain ⟨op, operand, line⟩ := i
  subst returns
  obtain ⟨rfl, rfl⟩ := promised.moves
  obtain ⟨v, rest, top, -⟩ := exists_cons enough
  refine .bind (ends_pop top (.bind (ends_get ?_)))
  cases frames : m.frames with
  | nil => exact ends_set ⟨rfl, rfl, .inr ⟨rfl, frames, rfl, rfl, rfl⟩⟩
  | cons frame callers =>
    rw [frames] at level
    obtain ⟨⟨_, same, -, above⟩, nonneg, -, waiting⟩ := level
    cases same
    have height : ((below frame.stackBase rest).length : Int) = frame.stackBase := by
      rw [top, List.length_cons] at above
      change 0 ≤ frame.stackBase at nonneg
      have reached : frame.stackBase ≤ rest.length := by
        have := promised.enough
        omega
      rw [below, if_neg (by omega), List.length_drop]
      omega
    have linked : m.frames.map CallFrame.link =
        (frame.returnAddress, frame.stackBase) :: callers.map CallFrame.link := by
      rw [frames]
      rfl
    refine ends_set ⟨rfl, rfl, .inl ⟨ready.awake, ⟨ready.classes, ?_⟩,
      .returns frame.stackBase linked (by rw [top]; exact List.suffix_cons _ _)⟩⟩
    show Level H (program.Region finish) (callers.map CallFrame.link) frame.returnAddress
      ((below frame.stackBase rest).length + 1 : Nat)
    rw [Int.natCast_add, height]
    exact waiting

theorem enter_lands (balanced : program.Balanced code H finish result)
    (ready : Ready program code H finish a m) (promised : Promised H (m.Inside program finish) a i taken 1)
    (leads : i.Leads a (a + 1 : Nat)) {m₁ : Machine} (beside : Beside m m₁) {name : String}
    {argc base : Int} {line : Option Int} {receiver : Option Value} {entry : Nat} {f : Func}
    (arity : code.arities.get? name = some (f.params.length : Int))
    (placed : (entry, f) ∈ Code.entriesFrom (finish + 1) program.bodies)
    (under : base + taken = m.stack.length) (rest : m.stack.drop taken <:+ m₁.stack)
    (args : m₁.stack.length = base + argc + (if receiver.isSome then 1 else 0)) :
    (enter name entry argc line base receiver).Ends m₁ (fun _ => Lands program code H finish a taken i m)
      (Failed m) := by
  obtain ⟨loaded, pc, links, classes, history, awake⟩ := beside
  obtain ⟨back, same, inside, balance⟩ := promised.leads _ leads
  cases same
  have entered := (balanced.entered (entry, f) placed).1
  have height : H entry = f.params.length := (balanced.entered (entry, f) placed).2
  refine (ends_enter (loaded.trans ready.loaded) arity ?_).mono (fun _ _ lands => lands) ?_
  · intro agrees frame link
    have linked : (frame :: m₁.frames).map CallFrame.link =
        (((a + 1 : Nat) : Int), base) :: m.frames.map CallFrame.link := by
      rw [List.map_cons, link, pc, ready.pc, links]
    refine ⟨loaded, history,
      .inl ⟨awake, ⟨classes ▸ ready.classes, ?_⟩, .enters base leads under linked rest⟩⟩
    show Level H (program.Region finish) ((frame :: m₁.frames).map CallFrame.link) entry
      m₁.stack.length
    rw [linked]
    have enough := promised.enough
    exact ready.level.enter inside (by omega) (by omega) entered (by omega)
  · rintro fault _ ⟨rfl, apart⟩
    exact ⟨loaded, history, .inl apart⟩

theorem callUser_lands (laid : program.LaidOut scope keepResult code finish)
    (balanced : program.Balanced code H finish result) (ready : Ready program code H finish a m)
    (promised : Promised H (m.Inside program finish) a i taken given) (calls : i.op = .callUser) :
    (execute i).Ends m (fun _ => Lands program code H finish a taken i m) (Failed m) := by
  have enough := ready.enough promised
  obtain ⟨op, operand, line⟩ := i
  subst calls
  obtain ⟨⟨name, pointless, written⟩, rfl⟩ := promised.moves
  refine .bind (ends_calleeOf written (.bind (ends_get ?_)))
  rw [ready.loaded]
  have entered := laid.functions (.text name) ⟨name, rfl, pointless⟩
  dsimp only [Option.bind_some]
  cases found : code.functions.get? (.text name) with
  | none => exact .fault ⟨rfl, rfl, .inl (ne_underflow '\'' (by simp [underflow_toList, Fault.running]))⟩
  | some address =>
    rw [found] at entered
    cases known : program.functions.get? (.text name) with
    | none =>
      rw [known] at entered
      exact entered.elim
    | some f =>
      rw [known] at entered
      obtain ⟨arity, entry, rfl, placed⟩ := entered
      exact enter_lands balanced ready promised rfl (.ofStack ready.awake) arity placed (by simp)
        (List.drop_suffix ..) (by simp)

/-- A method that a machine knows is one of its program. -/
theorem method_entered (laid : program.LaidOut scope keepResult code finish)
    (known : ClassesKnown code m.classes) {className : Name} {methods : Bindings Int}
    {method : String} {address : Int} (found : m.classes.get? className = some methods)
    (entered : methods.get? (.text method) = some address) :
    ∃ entry f, address = (entry : Nat) ∧ (entry, f) ∈ Code.entriesFrom (finish + 1) program.bodies ∧
      code.arities.get? (.text s!"{className}.{method}") = some (f.params.length : Int) := by
  obtain ⟨table, inCode, there⟩ := known className methods (.text method) address found entered
  have classes := laid.classes className
  rw [inCode] at classes
  cases written : program.methodLists.get? className with
  | none =>
    rw [written] at classes
    exact classes.elim
  | some functions =>
    rw [written] at classes
    have entry := classes.2 method
    rw [there] at entry
    cases last : (Walker.methodTable functions).get? (.text method) with
    | none =>
      rw [last] at entry
      exact entry.elim
    | some f =>
      rw [last] at entry
      obtain ⟨arity, base, rfl, placed⟩ := entry
      exact ⟨base, f, rfl, placed, arity⟩

theorem new_lands (laid : program.LaidOut scope keepResult code finish)
    (balanced : program.Balanced code H finish result) (ready : Ready program code H finish a m)
    (promised : Promised H (m.Inside program finish) a i taken given) (creates : i.op = .new) :
    (execute i).Ends m (fun _ => Lands program code H finish a taken i m) (Failed m) := by
  have enough := ready.enough promised
  have lands := @ready.lands _ _ _ _ _ _ _ _ _ promised
  obtain ⟨op, operand, line⟩ := i
  subst creates
  obtain ⟨⟨className, -, written⟩, rfl⟩ := promised.moves
  refine .bind (ends_calleeOf written (.bind (ends_take enough (.bind (ends_get ?_)))))
  dsimp only
  cases found : m.classes.get? (.text className) with
  | none => exact .fault ⟨rfl, rfl, .inl (ne_underflow '\'' (by simp [underflow_toList, Fault.running]))⟩
  | some methods =>
    dsimp only
    cases constructor : methods.get? constructorName with
    | none =>
      refine .ite (fun none => .bind (ends_getHeap (.bind (ends_setHeap (ends_push ?_))))) fun _ => ?_
      · exact lands rfl rfl rfl ready.awake ready.classes ready.pc rfl (by simp; omega)
          (List.suffix_cons _ _)
      · exact .fault ⟨rfl, rfl, .inl (ne_underflow '(' (by simp [underflow_toList, Fault.running]))⟩
    | some address =>
      obtain ⟨entry, f, rfl, placed, arity⟩ := method_entered laid ready.classes found constructor
      refine .bind (ends_getHeap (.bind (ends_setHeap (.bind (ends_get (.bind (ends_pushAll ?_)))))))
      refine enter_lands balanced ready promised rfl ?_ arity placed ?_ (List.suffix_append _ _) ?_
      · exact ⟨rfl, rfl, rfl, rfl, rfl, ready.awake⟩
      · simp
        omega
      · simp
        omega

theorem methodCall_lands (laid : program.LaidOut scope keepResult code finish)
    (balanced : program.Balanced code H finish result) (ready : Ready program code H finish a m)
    (promised : Promised H (m.Inside program finish) a i taken given) (calls : i.op = .methodCall) :
    (execute i).Ends m (fun _ => Lands program code H finish a taken i m) (Failed m) := by
  have enough := ready.enough promised
  have lands := @ready.lands _ _ _ _ _ _ _ _ _ promised
  obtain ⟨op, operand, line⟩ := i
  subst calls
  obtain ⟨⟨method, written⟩, some, rfl⟩ := promised.moves
  refine .bind (ends_calleeOf written (.bind (ends_take enough ?_)))
  split
  next => exact .host
  next receiver args taken' =>
    have length : args.length + 1 = taken := by
      have := congrArg List.length taken'
      simpa [Nat.min_eq_left enough] using this.symm
    refine .bind (ends_get ?_)
    dsimp only
    split
    next ref =>
      split
      next => exact .fault ⟨rfl, rfl, .inl (ne_underflow '"' (by simp [underflow_toList, Fault.running]))⟩
      next address found =>
        obtain ⟨methods, known, entered⟩ := Option.bind_eq_some_iff.mp found
        obtain ⟨entry, f, rfl, placed, arity⟩ := method_entered laid ready.classes known entered
        refine .bind (ends_pushAll ?_)
        refine enter_lands balanced ready promised rfl ?_ arity placed ?_ (List.suffix_append _ _) ?_
        · exact ⟨rfl, rfl, rfl, rfl, rfl, ready.awake⟩
        · simp
          omega
        · simp
          omega
    next =>
      refine .ite (fun _ => .bind (ends_outside ?_ ?_)) fun _ => ?_
      · intro v engine called
        refine ends_push (lands rfl rfl rfl (Engine.awake_callBuiltin ready.awake called)
          ready.classes ready.pc rfl (by simp; omega) (List.suffix_cons _ _))
      · intro f engine called
        exact ⟨rfl, rfl, .inl (Engine.callBuiltin_fault called)⟩
      · exact .fault ⟨rfl, rfl, .inl (ne_underflow '"' (by simp [underflow_toList, Fault.running]))⟩

/-- Every instruction of a compiled program, but its halt, leaves the machine at the height that its
new address asks for. -/
theorem execute_lands (laid : program.LaidOut scope keepResult code finish)
    (balanced : program.Balanced code H finish result) (ready : Ready program code H finish a m)
    (promised : Promised H (m.Inside program finish) a i taken given) :
    (execute i).Ends m (fun _ => Lands program code H finish a taken i m) (Failed m) := by
  have moves := promised.moves
  cases op : i.op
  case jump | jumpIf | jumpIfNot => exact jump_lands ready promised (by rw [op]; rfl)
  case classDef => exact classDef_lands ready promised op
  case ret => exact ret_lands ready promised op
  case callUser => exact callUser_lands laid balanced ready promised op
  case new => exact new_lands laid balanced ready promised op
  case methodCall => exact methodCall_lands laid balanced ready promised op
  case halt =>
    rw [Instruction.Moves, op] at moves
    exact moves.elim
  all_goals exact plain_lands ready promised (by rw [op]; rfl)

end Machine

end Stepwise
