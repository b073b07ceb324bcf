import Stepwise.Proofs.Code.Segments
import Stepwise.Proofs.Machine.Frame

/-!
Where an instruction can lead, however it ends. Within a call it changes the address at most; a call
puts one frame on top and goes to an entry; only a return takes a frame away.
-/
namespace Stepwise

/-- What the control flow depends on in a frame: the function and where its caller goes on. -/
def CallFrame.site (frame : CallFrame) : String × Int := (frame.functionName, frame.returnAddress)

namespace Machine

/-- A machine that differs in values at most, and that may have gone on to some addresses. -/
structure Roams (targets : Int → Prop) (m m' : Machine) : Prop where
  code : m'.code = m.code
  classes : m'.classes = m.classes
  history : m'.history = m.history
  sites : m'.frames.map CallFrame.site = m.frames.map CallFrame.site
  pc : m'.pc = m.pc ∨ targets m'.pc

variable {targets : Int → Prop} {m m' : Machine}

theorem tolerant_roams (targets : Int → Prop) : Tolerant (Roams targets) where
  trans m m' m'' first second := by
    refine ⟨second.code.trans first.code, second.classes.trans first.classes,
      second.history.trans first.history, second.sites.trans first.sites, ?_⟩
    rcases second.pc with same | reached
    · rw [same]
      exact first.pc
    · exact .inr reached
  stack _ _ := ⟨rfl, rfl, rfl, rfl, .inl rfl⟩
  locals m frame callers locals frames := ⟨rfl, rfl, rfl, by rw [frames]; rfl, .inl rfl⟩
  outside _ _ _ := ⟨rfl, rfl, rfl, rfl, .inl rfl⟩

/-- A machine that stays at its address. -/
abbrev Stays (m m' : Machine) : Prop := Roams (fun _ => False) m m'

theorem Roams.same (stays : Stays m m') : m'.pc = m.pc := by
  rcases stays.pc with same | none
  · exact same
  · exact none.elim

/-- A call was opened: its function is entered, and the caller waits behind the call. -/
structure Calls (m m' : Machine) (name : String) (entry : Int) : Prop where
  code : m'.code = m.code
  classes : m'.classes = m.classes
  history : m'.history = m.history
  sites : m'.frames.map CallFrame.site = (name, m.pc) :: m.frames.map CallFrame.site
  pc : m'.pc = entry

end Machine

namespace Act

variable {σ α β : Type} {s : σ} {good bad : σ → Prop}

/-- What holds of the state a computation reaches with an answer, and what of the state it reaches
otherwise. -/
def Splits (x : Act σ α) (s : σ) (good bad : σ → Prop) : Prop :=
  match x s with
  | (.ok _, s') => good s'
  | (.error _, s') => bad s'

theorem Splits.get {f : σ → Act σ β} (late : (f s).Splits s good bad) :
    ((MonadState.get : Act σ σ) >>= f).Splits s good bad := late

theorem Splits.throw {failure : Failure} (holds : bad s) :
    (MonadExcept.throw failure : Act σ α).Splits s good bad := holds

theorem Splits.ite {c : Prop} [Decidable c] {x y : Act σ α} (yes : x.Splits s good bad)
    (no : y.Splits s good bad) : (if c then x else y).Splits s good bad := by
  split
  · exact yes
  · exact no

theorem Splits.keeps {R : σ → σ → Prop} {x : Act σ α} (kept : x.Keeps R) : x.Splits s (R s) (R s) := by
  have reached := kept s
  unfold Splits
  split
  next _ _ done => rwa [done] at reached
  next _ _ failed => rwa [failed] at reached

theorem Splits.mono {good' bad' : σ → Prop} {x : Act σ α} (splits : x.Splits s good bad)
    (better : ∀ s', good s' → good' s') (worse : ∀ s', bad s' → bad' s') :
    x.Splits s good' bad' := by
  unfold Splits at splits ⊢
  split
  next _ s' done =>
    rw [done] at splits
    exact better s' splits
  next _ s' failed =>
    rw [failed] at splits
    exact worse s' splits

end Act

namespace Machine

variable {targets : Int → Prop} {m m' : Machine}

/-- A computation that goes on after an action that changes values at most. -/
theorem Roams.andThen {α β : Type} {good : Machine → Prop} (roams : Roams targets m m')
    {x : Action α} {f : α → Action β} (kept : x.Keeps (Roams targets))
    (late : ∀ a m'', Roams targets m m'' → (f a).Splits m'' good (Roams targets m)) :
    (x >>= f).Splits m' good (Roams targets m) := by
  have trans := (tolerant_roams targets).trans
  have reached := trans _ _ _ roams (kept m')
  unfold Act.Splits
  rw [Act.bind_apply]
  rcases ran : x m' with ⟨failure | a, m''⟩
  all_goals rw [ran] at reached
  · exact reached
  · exact late a m'' reached

theorem jump_execute {i : Instruction} {target : Int} (jumps : i.op = .jump)
    (aimed : i.operand = .int target) (m : Machine) :
    execute i m = (.ok (), { m with pc := target }) := by
  obtain ⟨op, operand, line⟩ := i
  cases jumps
  cases aimed
  rfl

/-- A jump that depends on a test goes to its address or goes on. -/
theorem branch_keeps {i : Instruction} {target : Int} (tests : i.op = .jumpIf ∨ i.op = .jumpIfNot)
    (aimed : i.operand = .int target) : (execute i).Keeps (Roams (· = target)) := by
  have tolerant := tolerant_roams (· = target)
  have jump : (addressOf i >>= jumpTo).Keeps (Roams (· = target)) := by
    obtain ⟨op, operand, line⟩ := i
    cases aimed
    exact fun m => ⟨rfl, rfl, rfl, rfl, .inr rfl⟩
  obtain ⟨op, operand, line⟩ := i
  unfold execute
  rcases tests with rfl | rfl
  · refine tolerant.bind tolerant.pop fun _ => tolerant.bind tolerant.getHeap fun _ => ?_
    exact .ite jump (tolerant.pure _)
  · refine tolerant.bind tolerant.pop fun _ => tolerant.bind tolerant.getHeap fun _ => ?_
    exact .ite (tolerant.pure _) jump

/-- A definition of a class changes the known classes, and nothing else. -/
theorem classDef_splits {i : Instruction} (defines : i.op = .classDef) (m : Machine) :
    (execute i).Splits m
      (fun m' => ∃ name, m' = { m with
        classes := m.classes.put name ((m.code.bind fun code => code.classes.get? name).getD []) })
      (· = m) := by
  obtain ⟨op, operand, line⟩ := i
  cases defines
  unfold execute nameOf
  dsimp only
  split
  next name found => exact ⟨name, rfl⟩
  next => exact rfl

theorem enter_splits {m₁ : Machine} (stays : Stays m m₁) {name : String} {address argc : Int}
    {line : Option Int} {base : Int} {receiver : Option Value} :
    (enter name address argc line base receiver).Splits m₁ (fun m' => Calls m m' name address)
      (Stays m) := by
  unfold Act.Splits
  rw [enter_eq]
  cases m₁.callFault? name argc receiver with
  | some fault => exact stays
  | none =>
    refine ⟨stays.code, stays.classes, stays.history, ?_, rfl⟩
    rw [← stays.same, ← stays.sites]
    rfl

theorem callUser_splits {i : Instruction} (calls : i.op = .callUser) (m : Machine) :
    (execute i).Splits m
      (fun m' => ∃ (code : Code) (name : String) (entry : Int), m.code = some code ∧
        code.functions.get? name = some entry ∧ Calls m m' name entry)
      (Stays m) := by
  have tolerant := tolerant_roams fun _ => False
  obtain ⟨op, operand, line⟩ := i
  cases calls
  refine (tolerant.refl m).andThen (tolerant.calleeOf _) fun callee m₁ stays => .get ?_
  cases found : m₁.code.bind fun code => code.functions.get? callee.1 with
  | none =>
    dsimp only
    exact .throw stays
  | some entry =>
    dsimp only
    obtain ⟨code, loaded, entered⟩ := Option.bind_eq_some_iff.mp found
    refine (enter_splits stays).mono (fun m' calls => ?_) fun _ kept => kept
    exact ⟨code, callee.1, entry, stays.code ▸ loaded, entered, calls⟩

/-- What is entered when a method of a class is called. -/
def CallsMethod (m m' : Machine) : Prop :=
  ∃ (className : Name) (method : String) (methods : Bindings Int) (entry : Int),
    m.classes.get? className = some methods ∧ methods.get? method = some entry ∧
      Calls m m' s!"{className}.{method}" entry

theorem Roams.push {v : Value} (stays : Stays m m') :
    (push v).Splits m' (fun m'' => Stays m m'' ∨ CallsMethod m m'') (Stays m) :=
  .inl ((tolerant_roams _).trans _ _ _ stays ((tolerant_roams _).push v m'))

theorem new_splits {i : Instruction} (creates : i.op = .new) (m : Machine) :
    (execute i).Splits m (fun m' => Stays m m' ∨ CallsMethod m m') (Stays m) := by
  have tolerant := tolerant_roams fun _ => False
  obtain ⟨op, operand, line⟩ := i
  cases creates
  refine (tolerant.refl m).andThen (tolerant.calleeOf _) fun callee m₁ stays =>
    stays.andThen (tolerant.take _) fun args m₂ stays => .get ?_
  have classes := stays.classes
  dsimp only
  cases known : m₂.classes.get? callee.1 with
  | none => exact .throw stays
  | some methods =>
    dsimp only
    cases found : methods.get? constructorName with
    | none =>
      refine .ite ?_ (.throw stays)
      exact stays.andThen tolerant.getHeap fun heap m₃ stays =>
        stays.andThen (tolerant.setHeap _) fun _ m₄ stays => stays.push
    | some entry =>
      refine stays.andThen tolerant.getHeap fun heap m₃ stays =>
        stays.andThen (tolerant.setHeap _) fun _ m₄ stays => .get ?_
      refine stays.andThen (tolerant.pushAll _) fun _ m₅ stays => ?_
      refine (enter_splits stays).mono (fun m' calls => .inr ?_) fun _ kept => kept
      exact ⟨callee.1, constructorName, methods, entry, classes ▸ known, found, calls⟩

theorem methodCall_splits {i : Instruction} (calls : i.op = .methodCall) (m : Machine) :
    (execute i).Splits m (fun m' => Stays m m' ∨ CallsMethod m m') (Stays m) := by
  have tolerant := tolerant_roams fun _ => False
  obtain ⟨op, operand, line⟩ := i
  cases calls
  refine (tolerant.refl m).andThen (tolerant.calleeOf _) fun callee m₁ stays =>
    stays.andThen (tolerant.take _) fun taken m₂ stays => ?_
  dsimp only
  split
  next => exact .throw stays
  next receiver args =>
    refine .get ?_
    have classes := stays.classes
    split
    next ref =>
      split
      next => exact .throw stays
      next entry found =>
        obtain ⟨methods, known, entered⟩ := Option.bind_eq_some_iff.mp found
        refine stays.andThen (tolerant.pushAll _) fun _ m₃ stays => ?_
        refine (enter_splits stays).mono (fun m' calls => .inr ?_) fun _ kept => kept
        exact ⟨_, callee.1, methods, entry, classes ▸ known, entered, calls⟩
    next =>
      refine .ite ?_ (.throw stays)
      exact stays.andThen (tolerant.callBuiltin _ _) fun v m₃ stays => stays.push

/-- A return fails only where the stack is empty. -/
theorem ret_failed {i : Instruction} (returns : i.op = .ret) {m next : Machine} {failure : Failure}
    (failed : execute i m = (.error failure, next)) :
    failure = .fault (.running underflow none) ∧ next = m := by
  obtain ⟨op, operand, line⟩ := i
  cases returns
  have failed : leave m = (.error failure, next) := failed
  cases top : m.stack with
  | nil =>
    unfold leave at failed
    rw [Act.bind_apply, pop_nil top] at failed
    cases failed
    exact ⟨rfl, rfl⟩
  | cons v rest =>
    cases frames : m.frames with
    | nil =>
      rw [leave_outer top frames] at failed
      cases failed
    | cons frame callers =>
      rw [leave_inner top frames] at failed
      cases failed

/-- A return goes on where the call was made; outside of calls it ends the program. -/
theorem ret_splits {i : Instruction} (returns : i.op = .ret) (m : Machine) :
    (execute i).Splits m
      (fun m' => m'.code = m.code ∧ m'.classes = m.classes ∧ m'.history = m.history ∧
        match m.frames with
        | [] => m'.frames = [] ∧ m'.pc = m.pc
        | frame :: callers => m'.frames = callers ∧ m'.pc = frame.returnAddress)
      (Stays m) := by
  unfold Act.Splits
  split
  next done =>
    obtain ⟨op, operand, line⟩ := i
    cases returns
    have done : leave m = _ := done
    cases top : m.stack with
    | nil =>
      unfold leave at done
      rw [Act.bind_apply, pop_nil top] at done
      cases done
    | cons v rest =>
      cases frames : m.frames with
      | nil =>
        rw [leave_outer top frames] at done
        cases done
        exact ⟨rfl, rfl, rfl, frames, rfl⟩
      | cons frame callers =>
        rw [leave_inner top frames] at done
        cases done
        exact ⟨rfl, rfl, rfl, rfl, rfl⟩
  next failed =>
    obtain ⟨-, rfl⟩ := ret_failed returns failed
    exact (tolerant_roams _).refl _

end Machine

end Stepwise
