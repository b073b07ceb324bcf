import Stepwise.Proofs.Agreement.Statements

/-!
Calls of the functions of a program: both engines check the number of arguments and the depth,
bind the parameters and run the body, and the machine comes back to its caller.
-/
namespace Stepwise

open Machine (Keeps Reaches isHidden)

section Walks

variable {f : Func} {args : List Value} {bound : Bool} {d : Nat} {w : Walker}

/-- The value that the body of a function gives. -/
def Flow.result : Flow → Value
  | .give v => v
  | _ => .null

/-- The message of a call with another number of arguments than the function has parameters. -/
def Func.mismatch (f : Func) (args : List Value) (bound : Bool) : String :=
  let hidden : Int := if bound then 1 else 0
  let wanted := f.params.length - hidden
  let given := args.length - hidden
  s!"{f.name}() takes {wanted} argument(s) but {given} were given"

theorem invokeAt_mismatch (wrong : args.length ≠ f.params.length) :
    Walker.invokeAt d f args bound w =
      (.error (.fault (.running (f.mismatch args bound) none)), w) := by
  unfold Walker.invokeAt
  rw [if_pos wrong]
  rfl

theorem invokeAt_zero (same : args.length = f.params.length) :
    Walker.invokeAt 0 f args bound w = (.error (.fault depthExceeded), w) := by
  unfold Walker.invokeAt
  rw [if_neg (not_not_intro same)]
  rfl

theorem invokeAt_succ (same : args.length = f.params.length) {names : List Name}
    (params : f.params = names.map Constant.scalar) :
    Walker.invokeAt (d + 1) f args bound w =
      Walker.withLocals (Bindings.ofList (names.zip args))
        (do return (← Walker.execBlock (Walker.invokeAt d) false f.body).result) w := by
  have named : f.params.mapM Constant.name = .ok names := by
    rw [params]
    clear params same
    induction names with
    | nil => rfl
    | cons name names ih =>
      rw [List.map_cons, List.mapM_cons, ih]
      rfl
  unfold Walker.invokeAt
  rw [if_neg (not_not_intro same)]
  dsimp only
  have bound : (liftM (f.params.mapM Constant.name) : Walker.Walk (List Name)) w =
      (.ok names, w) := by
    rw [named]
    rfl
  rw [Act.bind_ok bound]
  refine congrFun (congrArg (Walker.withLocals _) (bind_congr fun flow => ?_)) w
  cases flow <;> rfl

end Walks

variable {S : Setting} {height number pc : Nat} {stack args : List Value} {w : Walker}
  {m k : Machine}

/-- Local variables that stand for the same serve as well. -/
theorem At.relocal {first second : Bindings Value}
    (here : At S height { w with locals := some first } m pc stack)
    (same : ∀ name, second.get? name = first.get? name) :
    At S height { w with locals := some second } m pc stack := by
  have agreed : Machine.Scoped (some first) m.frames := here.locals
  refine { here with locals := ?_ }
  show Machine.Scoped (some second) m.frames
  generalize m.frames = frames at agreed ⊢
  cases frames with
  | nil => exact agreed
  | cons frame callers => exact fun name shown => (same name).trans (agreed name shown)

/-- The machine takes its arguments off the stack and binds the parameters to them. -/
theorem reaches_params {line : Option Int} {names : List Name} : ∀ {values : List Value}
    {locals : Bindings Value} {m : Machine} {pc : Nat}, values.length = names.length →
    (∀ name ∈ names, isHidden name = false) →
    S.code.Holds pc (names.map fun name => ⟨.store, name.toValue, line⟩) →
    At S height { w with locals := some locals } m pc (values ++ stack) →
    m.Reaches fun m' => m.Keeps 0 m' ∧
      At S height { w with locals := some (locals.update (names.zip values)) } m'
        (pc + names.length) stack := by
  induction names with
  | nil =>
    intro values locals m pc length _ _ here
    obtain rfl := List.length_eq_zero_iff.mp length
    exact .here ⟨.refl m, here⟩
  | cons name names ih =>
    intro values locals m pc length shown held here
    match values, length with
    | v :: values, length =>
      rw [List.map_cons, Code.holds_cons] at held
      have stored : Tracks 0 (Walker.store name v) { w with locals := some locals } m _ :=
        tracks_store here (shown name List.mem_cons_self) held.1
      have reached : m.Reaches fun m' =>
        (At S height { w with locals := some (locals.put name v) } m' (pc + 1)
          (values ++ stack) ∧ _) ∧ m.Keeps 0 m' ∧ _ := stored
      refine reached.bind fun m' ⟨⟨here, _⟩, kept, _⟩ => ?_
      have rest := ih (Nat.succ.inj length)
        (fun name member => shown name (List.mem_cons_of_mem _ member)) held.2 here
      refine rest.mono fun m'' ⟨kept', here⟩ => ⟨kept.trans kept', ?_⟩
      rwa [Nat.add_assoc, Nat.add_comm 1] at here

theorem below_append (lower upper : List Value) :
    Machine.below lower.length (upper ++ lower) = lower := by
  unfold Machine.below
  dsimp only
  rw [if_neg (by omega), Int.toNat_natCast, List.length_append, Nat.add_sub_cancel,
    List.drop_left]

/-- The machine comes back from a call. -/
theorem reaches_return {frame : CallFrame} {callers : List CallFrame} {v : Value}
    {locals : Option (Bindings Value)} (returns : Returns S (height + 1) stack v w m)
    (frames : m.frames = frame :: callers) (base : frame.stackBase = stack.length)
    (address' : frame.returnAddress = pc) (agreed : Machine.Scoped locals callers) :
    m.Reaches fun m' => m'.frames = callers ∧ m'.globals = m.globals ∧
      At S height { w with locals } m' pc
        ((if frame.isConstructor then frame.receiver.getD .null else v) :: stack) := by
  obtain ⟨address, line, junk, has, here⟩ := returns
  have fetched := here.fetched ⟨.ret, .null, line⟩
  have left := Machine.leave_inner fetched.stack frames
  have above : callers.length = height := by
    have total := here.height
    rw [frames] at total
    exact Nat.succ.inj total
  refine (here.reaches has left rfl).mono ?_
  rintro _ rfl
  refine ⟨rfl, rfl, { fetched with
    pc := address', stack := ?_, height := above, locals := agreed, shares := ?_ }⟩
  · show (_ :: Machine.below frame.stackBase (junk ++ stack) : List Value) = _
    rw [base, below_append]
  · exact fetched.shares

/-- The body of a function is run up to a return. -/
theorem tracks_body {invoke : Walker.Invoke} (sound : S.Sound) (serves : Serves S invoke height)
    {body : List Stmt} {first second base next : Nat}
    (placed : StmtsAt S.code S.scope none first base body second next)
    (last : S.code.Has next ⟨.push, .null, none⟩) (back : S.code.Has (next + 1) ⟨.ret, .null, none⟩)
    (common : Stmt.EveryIn Expr.Common Stmt.Common body) (here : At S height w m base stack) :
    Tracks 0 (do return (← Walker.execBlock invoke false body).result) w m
      (Returns S height stack) := by
  refine ((tracks_block sound serves body placed common here).weaken (Nat.zero_le _)).bind
    fun flow w m _ ends => ?_
  have silent (here : At S height w m next stack) :
      Tracks 0 (pure Value.null) w m (Returns S height stack) :=
    (tracks_push here last).first fun m _ here => tracks_pure ⟨_, _, [], back, here⟩
  cases flow with
  | next => exact silent ends
  | leave =>
    obtain ⟨_, none, _⟩ := ends
    cases none
  | again =>
    obtain ⟨_, none, _⟩ := ends
    cases none
  | give v => exact tracks_pure ends

section Entry

variable {f : Func} {name : String} {bound : Bool} {address argc base : Int} {line : Option Int}
  {receiver : Option Value}

/-- The parameters of a function that both engines run are visible names that differ. -/
theorem Func.Common.names (common : f.Common) : ∃ names : List Name,
    f.params = names.map Constant.scalar ∧ (names.map Scalar.key).Nodup ∧
      ∀ name ∈ names, isHidden name = false := by
  obtain ⟨-, isName, distinct⟩ := common.shaped
  have shown := common.portable
  unfold Func.Portable at shown
  generalize f.params = params at isName distinct shown
  induction params with
  | nil => exact ⟨[], rfl, List.nodup_nil, fun _ member => nomatch member⟩
  | cons param params ih =>
    obtain ⟨differs, later⟩ := List.nodup_cons.mp distinct
    obtain ⟨names, rfl, keys, rest⟩ := ih (fun param member => isName param (.tail _ member)) later
      fun param member => shown param (.tail _ member)
    obtain ⟨s, rfl, -⟩ := isName param List.mem_cons_self
    refine ⟨.text s :: names, rfl, List.nodup_cons.mpr ⟨fun member => differs ?_, keys⟩, ?_⟩
    · obtain ⟨other, among, same⟩ := List.mem_map.mp member
      exact List.mem_map.mpr ⟨other, among, by rw [text_of_key_eq same]⟩
    · intro other member
      rcases List.mem_cons.mp member with rfl | among
      · exact shown _ List.mem_cons_self _ rfl
      · exact rest other among

/-- Parameters that are bound one by one from the last one on. -/
theorem get?_reversed {names : List Name} (distinct : (names.map Scalar.key).Nodup)
    (same : args.length = names.length) (name : Name) :
    (Bindings.ofList (names.zip args)).get? name =
      (Bindings.update [] (names.reverse.zip args.reverse)).get? name := by
  have keys : (Bindings.keys (names.zip args)).Nodup := by
    have firsts : (names.zip args).map Prod.fst = names := List.map_fst_zip (by omega)
    have alike : Bindings.keys (names.zip args) =
        ((names.zip args).map Prod.fst).map Scalar.key := by
      rw [Bindings.keys, List.map_map]
      rfl
    rwa [alike, firsts]
  have turned : names.reverse.zip args.reverse = (names.zip args).reverse := by
    rw [List.zip_eq_zipWith, List.zip_eq_zipWith, List.reverse_zipWith same.symm]
  rw [Bindings.get?_ofList, Bindings.get?_update, turned, List.reverse_reverse,
    Bindings.get?_reverse keys]
  simp [Bindings.get?]

/-- What keeps a function from being entered does so on both engines. -/
theorem carries_mismatch {d : Nat} {post : Value → Walker → Machine → Prop}
    (enters : S.Enters name f receiver.isSome address) (during : During S height w k pc stack)
    (counted : argc + (if receiver.isSome then 1 else 0) = args.length)
    (wrong : args.length ≠ f.params.length) :
    Carries number (Walker.invokeAt d f args receiver.isSome) w
      (Machine.enter name address argc line base receiver) k post := by
  have expects : (k.code.bind fun code => code.arities.get? name).filter
      (· ≠ argc + (if receiver.isSome then 1 else 0)) = some (f.params.length : Int) := by
    rw [during.code, Option.bind_some, enters.arity, Option.filter_some, if_pos]
    rw [counted]
    exact decide_eq_true fun same => wrong (Int.ofNat.inj same).symm
  have given : (args.length : Int) - (if receiver.isSome then 1 else 0) = argc := by omega
  have refuses : ∃ fault, k.callFault? name argc receiver = some fault ∧
      fault.message = f.mismatch args receiver.isSome := by
    unfold Machine.callFault? Func.mismatch
    dsimp only
    rw [expects, given]
    refine ⟨_, rfl, ?_⟩
    have plain : toString f.name = if receiver.isSome then Machine.unqualified name else name :=
      enters.shown
    rw [plain]
    rfl
  obtain ⟨fault, refuses, message⟩ := refuses
  refine carries_stopped (invokeAt_mismatch wrong) ?_ message.symm during.shares
  rw [Machine.enter_eq, refuses]

theorem callFault_none (enters : S.Enters name f receiver.isSome address)
    (during : During S height w k pc stack)
    (counted : argc + (if receiver.isSome then 1 else 0) = args.length)
    (same : args.length = f.params.length) :
    k.callFault? name argc receiver =
      if S.depth ≤ (height : Int) then some depthExceeded else none := by
  have expects : (k.code.bind fun code => code.arities.get? name).filter
      (· ≠ argc + (if receiver.isSome then 1 else 0)) = none := by
    rw [during.code, Option.bind_some, enters.arity, Option.filter_some, if_neg]
    rw [counted, same]
    simp
  unfold Machine.callFault?
  dsimp only
  rw [expects]
  dsimp only
  rw [during.depth, during.height]

end Entry

theorem simulates_withLocals {α : Type} {x : Walker.Walk α} {locals : Bindings Value}
    {good : α → Walker → Machine → Prop}
    (inner : Simulates x { w with locals := some locals } m fun a w' m' =>
      good a { w' with locals := w.locals } m') :
    Simulates (Walker.withLocals locals x) w m good := by
  unfold Simulates at inner ⊢
  unfold Walker.withLocals
  rcases ran : x { w with locals := some locals } with ⟨(fault | failure) | a, w'⟩ <;>
    rw [ran] at inner <;> exact inner

theorem serves_invokeAt (sound : S.Sound) : ∀ (d height : Nat), d + height = S.depth.toNat →
    Serves S (Walker.invokeAt d) height := by
  intro d
  induction d with
  | zero =>
    intro height total number w k pc stack args f name address argc base line receiver enters during
      counted based
    by_cases same : args.length = f.params.length
    · have refuses := callFault_none enters during counted same
      rw [if_pos (by omega)] at refuses
      refine carries_stopped (invokeAt_zero same) ?_ rfl during.shares
      rw [Machine.enter_eq, refuses]
    · exact carries_mismatch enters during counted same
  | succ d ih =>
    intro height total number w k pc stack args f name address argc base line receiver enters during
      counted based
    by_cases same : args.length = f.params.length
    · have opens := callFault_none enters during counted same
      rw [if_neg (by omega)] at opens
      obtain ⟨names, params, distinct, shown⟩ := enters.common.names
      obtain ⟨start, rfl, placed⟩ := enters.placed
      obtain ⟨stores, inner, -, last, back⟩ := placed
      have entered : Machine.enter name start argc line base receiver k = (.ok (), { k with
          frames := k.opened name line base receiver :: k.frames, pc := (start : Int) }) := by
        rw [Machine.enter_eq, opens]
      unfold Carries
      rw [entered]
      refine ⟨during.going, ?_⟩
      rw [Simulates, invokeAt_succ same params, ← Simulates]
      refine simulates_withLocals ?_
      generalize opened : ({ k with
        frames := k.opened name line base receiver :: k.frames
        pc := (start : Int) } : Machine) = m
      have inside : m.frames = k.opened name line base receiver :: k.frames := opened ▸ rfl
      have here : At S (height + 1) { w with locals := some [] } m start
          (args.reverse ++ stack) := by
        subst opened
        refine { during.toAt with pc := rfl, height := ?_, locals := fun _ _ => rfl, shares := ?_ }
        · show (_ :: k.frames).length = _
          rw [List.length_cons, during.height]
        · exact during.shares
      have length : args.reverse.length = names.reverse.length := by
        rw [List.length_reverse, List.length_reverse, same, params, List.length_map]
      rw [params, ← List.map_reverse, List.map_map] at stores
      have bound := reaches_params length
        (fun name member => shown name (List.mem_reverse.mp member)) stores here
      refine simulates_after bound fun m₂ ⟨kept, here⟩ => ?_
      rw [List.length_reverse, ← List.length_map (f := Constant.scalar), ← params] at here
      have here := here.relocal (get?_reversed distinct (by simpa using length))
      have total' : d + (height + 1) = S.depth.toNat := by omega
      have ran := tracks_body sound (ih (height + 1) total') inner last back enters.common.body here
      refine Simulates.onward ran fun v w' m₃ ⟨returns, kept', steady⟩ => ?_
      have kept := kept.trans kept'
      obtain ⟨locals, frames⟩ := kept.inner inside
      have left := reaches_return returns frames based during.pc during.locals
      refine left.mono fun m' ⟨frames', globals', gives⟩ => ⟨gives, ⟨?_, ?_⟩, ?_⟩
      · rw [frames']
        exact Machine.sameCalls_refl _
      · intro bound known n _
        rw [globals', kept.globals bound known n fun outer => by simp [inside] at outer, ← opened]
      · exact ⟨steady.frames, steady.program, steady.stepCount, steady.maxSteps⟩
    · exact carries_mismatch enters during counted same

end Stepwise
