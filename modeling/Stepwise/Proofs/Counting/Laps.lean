import Stepwise.Proofs.Counting.Machines

/-!
The machine in counted loops. What runs in the body of a loop leaves the stack below it alone, calls
included (`body_balanced`), so that behind each round the number of the rounds before is on the stack
again, and the loop runs its body as often as its count says: `repeat_laps`.
-/
namespace Stepwise

namespace Machine

/-- The code of the body of a loop has heights of its own, and starts and ends with an empty stack. -/
theorem body_fits {code : Code} {scope : Scope} {body : List Stmt} {first last inner again : Nat}
    {targets : LoopTargets} (placed : StmtsAt code scope (some targets) first inner body last again)
    (shaped : Stmt.EveryIn Expr.Shaped Stmt.Shaped body) (back : targets.again = again)
    (out : again ≤ targets.leave) :
    ∃ H : Nat → Nat, H inner = 0 ∧ H again = 0 ∧ code.FitsFrom H (fun _ => True) inner again := by
  obtain ⟨H, marks, behind⟩ := Code.exists_marks inner (stmtsHeights 0 body)
  obtain ⟨rfl, fits⟩ := @Code.stmts_fits code scope H (fun _ => True) body 0 _ _ _ _ _ placed
  obtain ⟨starts, fits⟩ := fits shaped marks (behind _ (Nat.le_refl _)) (by
    rintro _ ⟨⟩
    exact ⟨⟨behind _ out, trivial⟩, behind _ (by omega), trivial⟩) fun _ _ _ => trivial
  exact ⟨H, starts, behind _ (Nat.le_refl _), fits⟩

section Bodies

variable {program : Program} {code : Code} {H H' : Nat → Nat} {finish result lo hi depth : Nat}
  {callers : List (Int × Int)} {low : List Value} {m m' : Machine}

/-- A machine that runs what stands from one address up to another in a call at some depth, or a call
made there. -/
def InBody (depth lo hi : Nat) (m : Machine) : Prop :=
  depth < m.frames.length ∨ IsIn depth (fun a => lo ≤ a ∧ a < hi) m

/-- Some values lie at the bottom of what an address asks for: so many are above them as `H'` says. -/
def Aligned (H H' : Nat → Nat) (callers : List (Int × Int)) (low : List Value) (a : Nat) : Prop :=
  baseOf callers + H a = low.length + H' a

/-- Some values at the bottom of the stack belong to the code around a piece of code. -/
inductive Above (H H' : Nat → Nat) (callers : List (Int × Int)) (low : List Value) (m : Machine) :
    Prop where
  | own {a : Nat} : m.frames.map CallFrame.link = callers → m.pc = a → Aligned H H' callers low a →
      low <:+ m.stack → Above H H' callers low m
  | deeper {calls : List (Int × Int)} {back : Nat} {base : Int} :
      m.frames.map CallFrame.link = calls ++ (((back : Nat) : Int), base) :: callers →
      Aligned H H' callers low back → (low.length : Int) ≤ base → low <:+ m.stack →
      Above H H' callers low m

theorem suffix_drop {α : Type} {low stack : List α} {n : Nat} (bottom : low <:+ stack)
    (enough : low.length + n ≤ stack.length) : low <:+ stack.drop n :=
  List.suffix_of_suffix_length_le bottom (List.drop_suffix ..) (by rw [List.length_drop]; omega)

theorem suffix_below {low stack : List Value} {base : Int} (bottom : low <:+ stack)
    (enough : (low.length : Int) ≤ base) : low <:+ below base stack := by
  have length := bottom.length_le
  unfold below
  rw [if_neg (by omega)]
  exact suffix_drop bottom (by omega)

/-- The base of a call is not below those of its callers. -/
theorem base_le (disciplined : Disciplined program code H finish m) (under : m.status.isFinal = false)
    {calls : List (Int × Int)} {back base : Int}
    (links : m.frames.map CallFrame.link = calls ++ (back, base) :: callers) :
    base ≤ baseOf (m.frames.map CallFrame.link) := by
  have sorted := (disciplined.leveled under).level.sorted
  change (m.frames.map CallFrame.link).Pairwise _ at sorted
  rw [links] at sorted ⊢
  cases calls with
  | nil => exact Int.le_refl _
  | cons call calls => exact (List.pairwise_cons.mp sorted).1 (back, base) (by simp)

theorem Aligned.leads {inside inside' : Nat → Prop} {a taken given : Nat} {i : Instruction} {b : Int}
    (aligned : Aligned H H' callers low a) (promised : Promised H inside a i taken given)
    (promised' : Promised H' inside' a i taken given) (leads : i.Leads a b) :
    ∃ b' : Nat, b = b' ∧ Aligned H H' callers low b' := by
  obtain ⟨b', same, -, balance⟩ := promised.leads b leads
  obtain ⟨b'', same', -, balance'⟩ := promised'.leads b leads
  obtain rfl : b'' = b' := by omega
  refine ⟨b'', same, ?_⟩
  unfold Aligned at aligned ⊢
  omega

/-- The heights that an instruction fits agree on how many values it takes and gives. -/
theorem promised_of_fits {inside : Nat → Prop} {a taken given : Nat} {i : Instruction}
    (fits : code.Fits H' inside a) (has : code.Has a i) (moves : i.Moves taken given) :
    Promised H' inside a i taken given := by
  obtain ⟨i', taken', given', has', moves', enough, leads⟩ := fits
  obtain rfl : i' = i := Option.some.inj (has'.symm.trans has)
  obtain ⟨rfl, rfl⟩ := moves.unique moves'
  exact ⟨moves, enough, leads⟩

/-- A step in a piece of code, or in a call made there, leaves alone what lies below. -/
theorem Above.step (sound : Sound program code H finish result)
    (disciplined : Disciplined program code H finish m) (under : m.status.isFinal = false)
    (fits : code.FitsFrom H' (fun _ => True) lo hi) (counted : callers.length = depth)
    (above : Above H H' callers low m) (within : InBody depth lo hi m) {report : StepReport}
    (stepped : m.step = (.ok report, m')) (going : report.done = false)
    (near : depth ≤ m'.frames.length) : Above H H' callers low m' := by
  obtain ⟨a, i, taken, given, pc, has, promised, height, turns⟩ :=
    step_turns sound disciplined under stepped going
  have enough := promised.enough
  cases above with
  | @own q links here aligned bottom =>
    obtain rfl : q = a := by omega
    have length := congrArg List.length links
    rw [List.length_map] at length
    obtain deeper | ⟨-, q', here', inside⟩ := within
    · omega
    obtain rfl : q' = q := by omega
    have promised' := promised_of_fits (fits q' inside.1 inside.2) has promised.moves
    have enough' := promised'.enough
    have above : m.stack.length = low.length + H' q' := by
      rw [links] at height
      unfold Aligned at aligned
      omega
    have bottom := suffix_drop (n := taken) bottom (by omega)
    cases turns with
    | goes leads same rest =>
      obtain ⟨b, there, aligned⟩ := aligned.leads promised promised' leads
      exact .own (same.trans links) there aligned (bottom.trans rest)
    | enters base leads below same rest =>
      obtain ⟨b, there, aligned⟩ := aligned.leads promised promised' leads
      obtain rfl : q' + 1 = b := by omega
      rw [links, ← List.nil_append (_ :: callers)] at same
      exact .deeper same aligned (by omega) (bottom.trans rest)
    | returns base same rest =>
      have less := congrArg List.length same
      simp only [List.length_map, List.length_cons] at less
      omega
  | @deeper calls back base links aligned above bottom =>
    have le := base_le disciplined under links
    have bottom := suffix_drop (n := taken) bottom (by omega)
    cases turns with
    | goes leads same rest => exact .deeper (same.trans links) aligned above (bottom.trans rest)
    | enters base' leads below same rest =>
      rw [links, ← List.cons_append] at same
      exact .deeper same aligned above (bottom.trans rest)
    | returns base' same rest =>
      have bottom := (suffix_below bottom (by rw [same] at le; exact above.trans le)).trans rest
      rw [links] at same
      cases calls with
      | nil =>
        obtain ⟨link, links'⟩ := List.cons.inj same
        exact .own links'.symm (Prod.mk.inj link).1.symm aligned bottom
      | cons call calls => exact .deeper (List.cons.inj same).2.symm aligned above bottom

theorem InBody.le (within : InBody depth lo hi m) : depth ≤ m.frames.length :=
  within.elim (fun deeper => Nat.le_of_lt deeper) fun own => Nat.le_of_eq own.1.symm

theorem disciplined_travels {along : Machine → Prop} (sound : Sound program code H finish result)
    (travels : Travels Machine.step along m m') (disciplined : Disciplined program code H finish m)
    (under : m.status.isFinal = false) :
    Disciplined program code H finish m' ∧ m'.status.isFinal = false := by
  induction travels with
  | here => exact ⟨disciplined, under⟩
  | on _ stepped going _ ih =>
    obtain ⟨disciplined, reported⟩ := step_disciplined sound disciplined stepped
    exact ih disciplined (Bool.eq_false_iff.mpr fun final => by rw [reported final] at going; cases going)

theorem Above.travels (sound : Sound program code H finish result)
    (fits : code.FitsFrom H' (fun _ => True) lo hi) (counted : callers.length = depth)
    (travels : Travels Machine.step (InBody depth lo hi) m m')
    (disciplined : Disciplined program code H finish m) (under : m.status.isFinal = false)
    (above : Above H H' callers low m) (near : depth ≤ m'.frames.length) :
    Above H H' callers low m' := by
  induction travels with
  | here => exact above
  | on within stepped going rest ih =>
    obtain ⟨disciplined', under'⟩ :=
      disciplined_travels sound (.on within stepped going (.here _)) disciplined under
    refine ih disciplined' under'
      (above.step sound disciplined under fits counted within stepped going ?_) near
    cases rest with
    | here => exact near
    | on within => exact within.le

/-- What runs from one address of a piece of code to another leaves as many values above the same
rest of the stack as the heights of the piece say. -/
theorem piece_balanced (sound : Sound program code H finish result)
    (fits : code.FitsFrom H' (fun _ => True) lo hi)
    (travels : Travels Machine.step (InBody m.frames.length lo hi) m m')
    (disciplined : Disciplined program code H finish m) (under : m.status.isFinal = false)
    (starts : m.pc = lo) (ends : m'.pc = hi) (same : m'.frames.length = m.frames.length)
    {front : List Value} (stands : m.stack = front ++ low) (height : front.length = H' lo) :
    m'.frames.map CallFrame.link = m.frames.map CallFrame.link ∧
      ∃ front', front'.length = H' hi ∧ m'.stack = front' ++ low := by
  obtain ⟨a, pc, -, total⟩ := disciplined.standing under
  obtain rfl : a = lo := by omega
  rw [stands, List.length_append] at total
  have above : Above H H' (m.frames.map CallFrame.link) low m :=
    .own rfl pc (by unfold Aligned; omega) ⟨front, stands.symm⟩
  have above := above.travels sound fits (by simp) travels disciplined under (by omega)
  obtain ⟨disciplined', under'⟩ := disciplined_travels sound travels disciplined under
  obtain ⟨b, pc', -, total'⟩ := disciplined'.standing under'
  obtain rfl : b = hi := by omega
  cases above with
  | @own q links here aligned bottom =>
    obtain rfl : q = b := by omega
    obtain ⟨front', stands'⟩ := bottom
    rw [links, ← stands', List.length_append] at total'
    unfold Aligned at aligned
    exact ⟨links, front', by omega, stands'.symm⟩
  | deeper links =>
    have := congrArg List.length links
    simp only [List.length_map, List.length_append, List.length_cons] at this
    omega

/-- What runs to the end of a piece of code leaves the stack as it was at its start. -/
theorem body_balanced (sound : Sound program code H finish result)
    (fits : code.FitsFrom H' (fun _ => True) lo hi) (first : H' lo = 0) (last : H' hi = 0)
    (travels : Travels Machine.step (InBody m.frames.length lo hi) m m')
    (disciplined : Disciplined program code H finish m) (under : m.status.isFinal = false)
    (starts : m.pc = lo) (ends : m'.pc = hi) (same : m'.frames.length = m.frames.length) :
    m'.frames.map CallFrame.link = m.frames.map CallFrame.link ∧ m'.stack = m.stack := by
  obtain ⟨links, front, height, stands⟩ := piece_balanced sound fits travels disciplined under
    starts ends same (List.nil_append m.stack).symm first.symm
  rw [last, List.length_eq_zero_iff] at height
  exact ⟨links, by rw [stands, height, List.nil_append]⟩

end Bodies

/-- Where the code of a counted loop stands, from `base` to `next`, and that of its body, from `inner` to
`again`. -/
structure Circuit where
  base : Nat
  inner : Nat
  again : Nat
  next : Nat

namespace Circuit

variable (circuit : Circuit)

/-- The addresses of a loop around its body. -/
def Around (a : Nat) : Prop :=
  (circuit.base ≤ a ∧ a < circuit.inner) ∨ (circuit.again ≤ a ∧ a < circuit.next)

/-- The loop leads to the start of its body. -/
def Begins (depth : Nat) (m m' : Machine) : Prop :=
  Travels Machine.step (IsIn depth circuit.Around) m m' ∧ IsIn depth (· = circuit.inner) m'

/-- The body ends normally, or by going on with the next round. -/
def Ends (depth : Nat) (m m' : Machine) : Prop :=
  Travels Machine.step (InBody depth circuit.inner circuit.again) m m' ∧ IsIn depth (· = circuit.again) m'

end Circuit

section Counted

variable {code : Code} {scope : Scope} {line : Option Int} {depth pc number first start again n k : Nat}
  {inside : Nat → Prop} {count : Expr} {limit : Instruction} {base m : Machine} {stack : List Value}

theorem count?_of_denotes {var : Name → Option Value} {n' : Nat} (given : Denotes var count n)
    (known : count.count? = some n') : n' = n := by
  generalize whole : (n : Int) = number at given
  cases given with
  | literal =>
    subst whole
    exact (Option.some.inj known).symm
  | negative | held => cases known

theorem LimitAt.provides (placed : LimitAt code scope line number pc count first start limit)
    {var : Name → Option Value} (given : Denotes var count n)
    (kept : count.count? = none → m.var (loopVar "count_" number) = some (.int n)) :
    Provides first (.int n) m limit := by
  cases placed with
  | literal known =>
    obtain rfl := count?_of_denotes given known
    exact .literal
  | computed unknown => exact .kept "count_" (.head _) (Nat.lt_succ_self number) (kept unknown)

/-- The count of a loop is read once, and kept. -/
theorem limit_block (depth : Nat) (stack : List Value)
    (placed : LimitAt code scope line number pc count first start limit)
    (given : Denotes base.var count n) (own : ∀ a, pc ≤ a → a < start → inside a) :
    ∃ base', Block code depth inside base pc stack base' start stack 4 ∧
      (count.count? = none → base'.var (loopVar "count_" number) = some (.int n)) ∧
      base'.frames.map CallFrame.link = base.frames.map CallFrame.link := by
  cases placed with
  | literal known =>
    refine ⟨base, Block.refl.weaken (Nat.zero_le _), fun unknown => ?_, rfl⟩
    rw [known] at unknown
    cases unknown
  | computed _ inner counts stores =>
    have le := exprAt_next count 0 inner
    refine ⟨_, ((Block.denoted given inner fun a above below => own a above (by omega)).trans
      (.repeatCount counts (own _ (by omega) (by omega)))).trans
      (.store (loopVar "count_" number) stores (own _ (by omega) (by omega))), ?_, links_stored ..⟩
    intro _
    rw [var_stored, if_pos rfl]

theorem countTest_block
    (test : code.Holds start [⟨.push, .int 0, line⟩, ⟨.dup, .null, line⟩, limit, ⟨.gte, .null, line⟩,
      ⟨.jumpIf, .int (again + 3 : Nat), line⟩])
    (provides : Provides first (.int n) base limit) (own : ∀ a, start ≤ a → a < start + 5 → inside a) :
    Block code depth inside base (start + 1) (.int k :: stack) base
      (if n ≤ k then again + 3 else start + 5) (.int k :: stack) 4 := by
  simp only [Code.holds_cons] at test
  obtain ⟨-, dup, limits, compares, jumps, -⟩ := test
  have twice : Block code depth inside base (start + 1) (.int k :: stack) base _ _ 1 :=
    .dup dup (own _ (by omega) (by omega))
  have compared := (twice.trans (.provided provides limits (own _ (by omega) (by omega)))).trans
    (.binary .ge rfl compares (own _ (by omega) (by omega)) (atLeast_int ..))
  have jumped := compared.trans (.jumpIf jumps (own _ (by omega) (by omega)))
  simpa only [decide_eq_true_eq, Int.ofNat_le] using jumped

theorem countAgain_block
    (next : code.Holds again [⟨.push, .int 1, line⟩, ⟨.add, .null, line⟩,
      ⟨.jump, .int (start + 1 : Nat), line⟩, ⟨.pop, .null, line⟩])
    (own : ∀ a, again ≤ a → a < again + 4 → inside a) :
    Block code depth inside base again (.int k :: stack) base (start + 1) (.int (k + 1 : Nat) :: stack) 3 := by
  simp only [Code.holds_cons] at next
  obtain ⟨one, adds, back, -⟩ := next
  exact ((Block.push one (own _ (by omega) (by omega))).trans (.binary .add rfl adds
    (own _ (by omega) (by omega)) rfl)).trans (.jump back (own _ (by omega) (by omega)))

variable {program : Program} {H : Nat → Nat} {finish result : Nat} {t b e : Machine} {pos : Pos}
  {body : List Stmt} {second : Nat} {circuit : Circuit}

/-- The hidden variable of a loop has the count of its rounds, if that is not literal. -/
def Keeping (count : Expr) (number n : Nat) (m : Machine) : Prop :=
  count.count? = none → m.var (loopVar "count_" number) = some (.int n)

/-- A machine in front of a round of a loop, with the number of the rounds before. The loop was entered
by `m`, and a few steps lead to its test. -/
structure InFront (program : Program) (code : Code) (H : Nat → Nat) (finish : Nat) (count : Expr)
    (number n start : Nat) (circuit : Circuit) (m : Machine) (k : Nat) (t : Machine) : Prop where
  disciplined : Disciplined program code H finish t
  under : t.status.isFinal = false
  links : t.frames.map CallFrame.link = m.frames.map CallFrame.link
  enough : (t.stepCount + 10 : Nat) ≤ t.maxSteps
  leads : ∃ (a : Nat) (base : Machine), t.pc = a ∧ Keeping count number n base ∧
    base.frames.map CallFrame.link = m.frames.map CallFrame.link ∧
    Block code m.frames.length circuit.Around t a t.stack base (start + 1) (.int k :: m.stack) 5

theorem InFront.going (front : InFront program code H finish count number n start circuit m k t) {a : Nat}
    (here : t.pc = a) : Going code m.frames.length t 10 a t.stack t :=
  ⟨front.disciplined.loaded, front.under, here, rfl, by simpa using congrArg List.length front.links, rfl,
    rfl, rfl, rfl, front.enough⟩

/-- The code of a counted loop around its body. -/
structure CountedAt (code : Code) (scope : Scope) (line : Option Int) (count : Expr) (body : List Stmt)
    (number first second start : Nat) (limit : Instruction) (circuit : Circuit) : Prop where
  limits : LimitAt code scope line number circuit.base count first start limit
  test : code.Holds start [⟨.push, .int 0, line⟩, ⟨.dup, .null, line⟩, limit, ⟨.gte, .null, line⟩,
    ⟨.jumpIf, .int (circuit.again + 3 : Nat), line⟩]
  inner : circuit.inner = start + 5
  body : StmtsAt code scope (some ⟨circuit.again + 3, circuit.again⟩) first circuit.inner body second
    circuit.again
  again : code.Holds circuit.again [⟨.push, .int 1, line⟩, ⟨.add, .null, line⟩,
    ⟨.jump, .int (start + 1 : Nat), line⟩, ⟨.pop, .null, line⟩]
  next : circuit.next = circuit.again + 4

/-- A circuit is that of a counted loop. -/
def Circuit.Carries (circuit : Circuit) (code : Code) (scope : Scope) (pos : Pos) (count : Expr)
    (body : List Stmt) (number : Nat) : Prop :=
  ∃ first second start limit,
    CountedAt code scope pos.line count body number first second start limit circuit

theorem exists_circuit {base next : Nat}
    (stands : code.Stands scope (.loopTimes pos count body) number base next) :
    ∃ circuit : Circuit, circuit.base = base ∧ circuit.next = next ∧
      circuit.Carries code scope pos count body number := by
  obtain ⟨_, _, placed⟩ := stands
  cases placed with | @loopTimes _ _ _ _ _ _ start limit first _ again limits test inner back =>
  exact ⟨⟨base, start + 5, again, again + 4⟩, rfl, rfl, first, _, start, limit, limits, test, rfl, inner,
    back, rfl⟩

section Rounds

variable (placed : CountedAt code scope line count body number first second start limit circuit)
include placed

theorem CountedAt.le : circuit.base ≤ start := by
  cases placed.limits with
  | literal => exact Nat.le_refl _
  | computed _ inner =>
    have := exprAt_next count 0 inner
    omega

theorem InFront.zero (disciplined : Disciplined program code H finish m) (under : m.status.isFinal = false)
    (given : Denotes m.var count n) (here : m.pc = circuit.base)
    (enough : (m.stepCount + 10 : Nat) ≤ m.maxSteps) :
    InFront program code H finish count number n start circuit m 0 m := by
  have le := placed.le
  have inner := placed.inner
  obtain ⟨base, block, kept, links⟩ := limit_block m.frames.length m.stack placed.limits given
    fun a above below => show circuit.Around a from .inl ⟨above, by omega⟩
  exact ⟨disciplined, under, rfl, enough, circuit.base, base, here, kept, links,
    block.trans (.push (Code.holds_cons.mp placed.test).1 (.inl ⟨le, by omega⟩))⟩

theorem InFront.test (front : InFront program code H finish count number n start circuit m k t)
    {var : Name → Option Value} (given : Denotes var count n) :
    ∃ (a : Nat) (base : Machine), t.pc = a ∧ Keeping count number n base ∧
      base.frames.map CallFrame.link = m.frames.map CallFrame.link ∧
      Block code m.frames.length circuit.Around t a t.stack base
        (if n ≤ k then circuit.again + 3 else circuit.inner) (.int k :: m.stack) 9 := by
  have le := placed.le
  obtain ⟨a, base, here, kept, links, block⟩ := front.leads
  rw [placed.inner]
  refine ⟨a, base, here, kept, links, block.trans (countTest_block placed.test
    (LimitAt.provides placed.limits given kept) fun a above below => .inl ⟨by omega, ?_⟩)⟩
  rw [placed.inner]
  exact below

/-- Another round begins, with the number of the rounds before on the stack. -/
theorem InFront.begins (sound : Sound program code H finish result)
    (front : InFront program code H finish count number n start circuit m k t) {var : Name → Option Value}
    (given : Denotes var count n) (less : k < n) :
    ∃ b, circuit.Begins m.frames.length t b ∧ Disciplined program code H finish b ∧
      b.status.isFinal = false ∧ Keeping count number n b ∧ b.stack = .int k :: m.stack ∧
      b.frames.map CallFrame.link = m.frames.map CallFrame.link := by
  obtain ⟨a, base, here, kept, links, block⟩ := front.test placed given
  rw [if_neg (by omega)] at block
  obtain ⟨b, travels, there⟩ := block t 1 (front.going here)
  obtain ⟨disciplined, under⟩ := disciplined_travels sound travels front.disciplined front.under
  exact ⟨b, ⟨travels, there.depth, _, there.pc, rfl⟩, disciplined, under,
    fun unknown => by rw [there.var]; exact kept unknown, there.stack, by rw [there.frames, links]⟩

/-- Behind its last round the loop goes on with what follows. -/
theorem InFront.leaves (front : InFront program code H finish count number n start circuit m n t)
    {var : Name → Option Value} (given : Denotes var count n) :
    ∃ m', Travels Machine.step (IsIn m.frames.length circuit.Around) t m' ∧ m'.status.isFinal = false ∧
      m'.pc = circuit.next ∧ m'.stack = m.stack ∧
      m'.frames.map CallFrame.link = m.frames.map CallFrame.link := by
  have next := placed.next
  obtain ⟨a, base, here, kept, links, block⟩ := front.test placed given
  rw [if_pos (Nat.le_refl n)] at block
  have again := placed.again
  simp only [Code.holds_cons] at again
  have out := block.trans (.pop again.2.2.2.1 (.inr ⟨by omega, by omega⟩))
  obtain ⟨m', travels, there⟩ := out t 0 (front.going here)
  exact ⟨m', travels, there.under, by rw [there.pc, next], there.stack, by rw [there.frames, links]⟩

/-- Behind a round that ends the loop is in front of the next one. -/
theorem InFront.succ (sound : Sound program code H finish result)
    (shaped : Stmt.EveryIn Expr.Shaped Stmt.Shaped body) (disciplined : Disciplined program code H finish b)
    (under : b.status.isFinal = false) (starts : b.pc = circuit.inner) (kept : Keeping count number n e)
    (stack : b.stack = .int k :: m.stack)
    (links : b.frames.map CallFrame.link = m.frames.map CallFrame.link)
    (ends : circuit.Ends m.frames.length b e) (enough : (e.stepCount + 10 : Nat) ≤ e.maxSteps) :
    InFront program code H finish count number n start circuit m (k + 1) e := by
  have next := placed.next
  obtain ⟨travels, depth, _, there, rfl⟩ := ends
  have same : b.frames.length = m.frames.length := by simpa using congrArg List.length links
  obtain ⟨H', first, last, fits⟩ := body_fits placed.body shaped rfl (Nat.le_add_right ..)
  rw [← same] at travels depth
  obtain ⟨links', stack'⟩ :=
    body_balanced sound fits first last travels disciplined under starts there depth
  obtain ⟨disciplined', under'⟩ := disciplined_travels sound travels disciplined under
  refine ⟨disciplined', under', links'.trans links, enough, _, e, there, kept, links'.trans links, ?_⟩
  rw [stack', stack]
  exact (countAgain_block placed.again fun a above below => .inr ⟨above, by omega⟩).weaken (by omega)

end Rounds

/-- A counted loop runs its body as often as its count says, and goes on behind its code, if every round
of it ends and leaves the hidden variable of the loop alone. -/
theorem repeat_laps (sound : Sound program code H finish result)
    (placed : CountedAt code scope line count body number first second start limit circuit)
    (shaped : Stmt.EveryIn Expr.Shaped Stmt.Shaped body) (disciplined : Disciplined program code H finish m)
    (under : m.status.isFinal = false) (given : Denotes m.var count n) (here : m.pc = circuit.base)
    (enough : (m.stepCount + 10 : Nat) ≤ m.maxSteps)
    (ends : ∀ k t b, k < n →
      Laps (circuit.Begins m.frames.length) (circuit.Ends m.frames.length) k m t →
      circuit.Begins m.frames.length t b → ∃ e, circuit.Ends m.frames.length b e ∧
        (count.count? = none → e.var (loopVar "count_" number) = b.var (loopVar "count_" number)) ∧
        (e.stepCount + 10 : Nat) ≤ e.maxSteps) :
    ∃ t m', Laps (circuit.Begins m.frames.length) (circuit.Ends m.frames.length) n m t ∧
      Travels Machine.step (IsIn m.frames.length circuit.Around) t m' ∧ m'.status.isFinal = false ∧
      m'.pc = circuit.next ∧ m'.stack = m.stack ∧
      m'.frames.map CallFrame.link = m.frames.map CallFrame.link := by
  have start : InFront program code H finish count number n start circuit m 0 m :=
    .zero placed disciplined under given here enough
  obtain ⟨t, laps, front⟩ := exists_laps start fun k t less laps front => by
    obtain ⟨b, begins, disciplined, under, kept, stack, links⟩ := front.begins placed sound given less
    obtain ⟨e, ended, same, enough⟩ := ends k t b less laps begins
    obtain ⟨-, -, _, starts, rfl⟩ := id begins
    exact ⟨b, e, begins, ended, .succ placed sound shaped disciplined under starts
      (fun unknown => (same unknown).trans (kept unknown)) stack links ended enough⟩
  obtain ⟨m', leaves⟩ := front.leaves placed given
  exact ⟨t, m', laps, leaves⟩

end Counted

end Machine

end Stepwise
