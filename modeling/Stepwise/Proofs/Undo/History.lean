import Stepwise.Proofs.Code.Scalars
import Stepwise.Proofs.Heap.Core
import Stepwise.Proofs.Reading.Sources
import Stepwise.Proofs.Reading.Trees
import Stepwise.Proofs.Renaming.Steps

/-!
Undoing steps. A machine remembers the states before its latest steps, and going back finds them
again, but for the numbers of cells: `stepBack_inverse`.
-/
namespace Stepwise

namespace Machine

variable {chance : Prop} {start m : Machine} {code : Code} {N : Nat}

/-- The machine after some steps. -/
def stepped (m : Machine) : Nat → Machine
  | 0 => m
  | n + 1 => (m.stepped n).step.2

/-- The machine after some steps have been undone. -/
def unstepped (m : Machine) : Nat → Machine
  | 0 => m
  | n + 1 => (m.unstepped n).stepBack.2

/-- The values a machine holds. -/
def roots (m : Machine) : List Value := m.snapshot.roots

/-- Two machines in the same state, but for the numbers of cells: `σ` leads from those of the one to
those of the other. -/
structure Matches (σ : Ref → Ref) (m m' : Machine) : Prop where
  heap : m.heap.Relocates σ m.roots m'.heap
  stack : m'.stack = m.stack.map (Value.rename σ)
  globals : m'.globals = m.globals.rename σ
  frames : m'.frames = m.frames.map (CallFrame.rename σ)
  pc : m'.pc = m.pc
  classes : m'.classes = m.classes
  stepCount : m'.stepCount = m.stepCount
  output : m'.world.output = m.world.output

theorem below_roots {ρ : Ref → Ref} (embeds : Embeds ρ start m) :
    ∀ v ∈ start.roots, v.Below start.heap.size := by
  intro v member
  rcases List.mem_append.mp member with other | inFrame
  · rcases List.mem_append.mp other with onStack | inGlobals
    · exact embeds.stack.1 v onStack
    · obtain ⟨entry, bound, rfl⟩ := List.mem_map.mp inGlobals
      exact embeds.globals.1 entry bound
  · obtain ⟨frame, among, root⟩ := List.mem_flatMap.mp inFrame
    exact embeds.frames.1 frame among v root

/-- What a machine holds leads to cells only. -/
theorem Pairs.inside (pairs : Pairs id m m) : ∀ ref, m.heap.Reaches m.roots ref → ref < m.heap.size :=
  fun _ reached => pairs.state.world.heap.below_of_reaches (below_roots pairs.state) reached

theorem matches_self (pairs : Pairs id m m) : m.Matches id m where
  heap := by
    refine ⟨pairs.inside, fun _ _ _ _ same => same, fun ref cell _ here => ?_⟩
    rw [Cell.rename_same]
    exact here
  stack := by rw [funext Value.rename_same, List.map_id']
  globals := (Bindings.rename_same _).symm
  frames := by
    have same : CallFrame.rename id = id := by
      funext frame
      simp [CallFrame.rename, funext Value.rename_same]
    rw [same, List.map_id]
  pc := rfl
  classes := rfl
  stepCount := rfl
  output := rfl

/-- A step keeps a machine in order, and remembers the state before it. -/
theorem step_upright (pairs : Pairs id m m) (unfinished : m.finished = false)
    (plain : ∀ code, m.code = some code → code.Plain chance) :
    Pairs id m.step.2 m.step.2 ∧ Advances chance m m.step.2 := by
  have stepped := lockstep pairs unfinished plain
  rcases result : m.step with ⟨failure | report, m'⟩
  · rw [result] at stepped
    exact stepped.2
  · rw [result] at stepped
    exact ⟨stepped.1, stepped.2.1⟩

/-- A machine that is fresh and in order, and steps that take place. -/
structure Effective (chance : Prop) (start : Machine) (code : Code) (N : Nat) : Prop where
  loaded : start.code = some code
  plain : code.Plain chance
  upright : Pairs id start start
  fresh : start.history = []
  unfinished : ∀ n < N, (start.stepped n).finished = false

/-- The states before each of some steps, the latest first. -/
def snapshots (start : Machine) : Nat → List Snapshot
  | 0 => []
  | n + 1 => (start.stepped n).snapshot :: start.snapshots n

theorem length_snapshots (start : Machine) (n : Nat) : (start.snapshots n).length = n := by
  induction n with
  | zero => rfl
  | succ n ih => rw [snapshots, List.length_cons, ih]

theorem getElem?_snapshots (start : Machine) {n k : Nat} (early : k < n) :
    (start.snapshots n)[k]? = some (start.stepped (n - (k + 1))).snapshot := by
  induction n generalizing k with
  | zero => omega
  | succ n ih =>
    cases k with
    | zero => rfl
    | succ k =>
      rw [snapshots, List.getElem?_cons_succ, ih (by omega)]
      congr 3
      omega

namespace Effective

theorem before (effective : Effective chance start code N) {n : Nat} (le : n ≤ N) :
    Pairs id (start.stepped n) (start.stepped n) ∧ (start.stepped n).code = some code := by
  induction n with
  | zero => exact ⟨effective.upright, effective.loaded⟩
  | succ n ih =>
    obtain ⟨pairs, loaded⟩ := ih (by omega)
    have plain : ∀ other, (start.stepped n).code = some other → other.Plain chance := by
      intro other same
      cases loaded.symm.trans same
      exact effective.plain
    obtain ⟨pairs', advances⟩ := step_upright pairs (effective.unfinished n le) plain
    exact ⟨pairs', advances.code.trans loaded⟩

theorem advances (effective : Effective chance start code N) {n : Nat} (lt : n < N) :
    Advances chance (start.stepped n) (start.stepped (n + 1)) := by
  obtain ⟨pairs, loaded⟩ := effective.before (Nat.le_of_lt lt)
  refine (step_upright pairs (effective.unfinished n lt) fun other same => ?_).2
  cases loaded.symm.trans same
  exact effective.plain

theorem remembers (effective : Effective chance start code N) {n : Nat} (le : n ≤ N) :
    (start.stepped n).history = (start.snapshots n).take start.historyCap ∧
      (start.stepped n).historyCap = start.historyCap := by
  induction n with
  | zero => exact ⟨by rw [stepped, effective.fresh, snapshots, List.take_nil], rfl⟩
  | succ n ih =>
    obtain ⟨history, cap⟩ := ih (by omega)
    have advances := effective.advances le
    refine ⟨?_, advances.historyCap.trans cap⟩
    rw [advances.history, history, cap, snapshots]
    -- forgetting the oldest states early or late is the same
    cases start.historyCap with
    | zero => rfl
    | succ cap =>
      rw [List.take_succ_cons, List.take_succ_cons, List.take_take, Nat.min_eq_left (by omega)]

theorem length_history (effective : Effective chance start code N) :
    (start.stepped N).history.length = min N start.historyCap := by
  rw [(effective.remembers (Nat.le_refl N)).1, List.length_take, length_snapshots, Nat.min_comm]

/-- The history after some steps have been undone. -/
theorem history_drop (effective : Effective chance start code N) {K : Nat}
    (lt : K < min N start.historyCap) :
    (start.stepped N).history.drop K =
      (start.stepped (N - (K + 1))).snapshot :: (start.stepped N).history.drop (K + 1) := by
  have inside : K < (start.stepped N).history.length := by rwa [effective.length_history]
  have known : (start.stepped N).history[K]? = some (start.stepped (N - (K + 1))).snapshot := by
    rw [(effective.remembers (Nat.le_refl N)).1, List.getElem?_take_of_lt (by omega)]
    exact getElem?_snapshots start (by omega)
  rw [List.drop_eq_getElem_cons inside]
  rw [List.getElem?_eq_getElem inside] at known
  rw [Option.some.inj known]

end Effective

theorem stepBack_cons {s : Snapshot} {older : List Snapshot} (kept : m.history = s :: older) :
    m.stepBack = (true, restore { m with history := older } s) := by
  rw [stepBack, kept]

/-- What has been restored is the remembered state, but for the numbers of cells. -/
theorem matches_restore (inside : ∀ ref, start.heap.Reaches start.roots ref → ref < start.heap.size)
    (printed : start.world.output.toList <+: m.world.output.toList) :
    start.Matches (m.heap.graft start.heap start.roots).1 (m.restore start.snapshot) where
  heap := Heap.relocates_graft inside m.heap
  stack := rfl
  globals := rfl
  frames := rfl
  pc := rfl
  classes := rfl
  stepCount := rfl
  output := World.take_output printed

/-- Undoing one step more. -/
theorem Effective.unstepped (effective : Effective chance start code N) {K : Nat}
    (le : K ≤ min N start.historyCap) :
    ((start.stepped N).unstepped K).history = (start.stepped N).history.drop K ∧
      (∃ σ, (start.stepped (N - K)).Matches σ ((start.stepped N).unstepped K)) ∧
      (0 < K → ((start.stepped N).unstepped K).status = .paused ∧
        ((start.stepped N).unstepped K).fault = none) := by
  induction K with
  | zero =>
    exact ⟨rfl, ⟨id, matches_self (effective.before (Nat.le_refl N)).1⟩, fun none => nomatch none⟩
  | succ K ih =>
    obtain ⟨history, ⟨σ, before⟩, -⟩ := ih (by omega)
    rw [effective.history_drop le] at history
    have earlier : N - (K + 1) < N := by omega
    have advances := effective.advances earlier
    rw [show N - (K + 1) + 1 = N - K by omega] at advances
    have undone := congrArg Prod.snd (stepBack_cons history)
    have printed := advances.world.output
    rw [← before.output] at printed
    have pairs := (effective.before (Nat.le_of_lt earlier)).1
    show ((start.stepped N).unstepped K).stepBack.2.history = _ ∧ _
    rw [Machine.unstepped, undone]
    exact ⟨rfl, ⟨_, matches_restore pairs.inside printed⟩, fun _ => ⟨rfl, rfl⟩⟩

theorem pairs_load {machine : Machine} (closed : machine.heap.Closed)
    (sound : machine.host.Sound machine.heap.size) (code : Code) :
    Pairs id (machine.load code) (machine.load code) where
  state :=
    { world := ⟨closed.embeds, rfl, rfl, rfl⟩
      stack := ⟨(fun _ member => nomatch member), rfl⟩
      globals := ⟨(fun _ member => nomatch member), rfl⟩
      frames := ⟨(fun _ member => nomatch member), rfl⟩
      host := ⟨⟨sound, .inl rfl⟩, rfl⟩
      code := rfl
      pc := rfl
      classes := rfl
      status := rfl
      fault := rfl
      stepCount := rfl
      maxSteps := rfl
      maxCallDepth := rfl
      report := rfl }
  status := .inl rfl

theorem plain_of_compile {source readAs filename : String} {program : Program} {keepResult : Bool}
    (parsed : Program.parse source readAs = .ok program)
    (compiled : program.compile filename keepResult = .ok code) : code.Plain True :=
  fun i member => ⟨Program.scalars_of_compile (Program.parse_shaped parsed) compiled i member,
    fun _ _ _ _ _ => trivial⟩

/-- Going back undoes steps exactly. After some steps from a fresh start, as many of them are
remembered as there is room for; each of these can be undone, and then the machine is where it was
before, but for the numbers of cells. When there is nothing more to undo, nothing happens. -/
theorem stepBack_inverse {source readAs filename : String} {program : Program} {keepResult : Bool}
    (parsed : Program.parse source readAs = .ok program)
    (compiled : program.compile filename keepResult = .ok code) {machine : Machine}
    (closed : machine.heap.Closed) (sound : machine.host.Sound machine.heap.size)
    (unfinished : ∀ n < N, ((machine.load code).stepped n).finished = false) :
    let start := machine.load code
    let last := start.stepped N
    let kept := min N machine.historyCap
    last.history.length = kept ∧
    (∀ K ≤ kept, (∀ k < K, (last.unstepped k).stepBack.1 = true) ∧
      (∃ σ, (start.stepped (N - K)).Matches σ (last.unstepped K)) ∧
      (0 < K → (last.unstepped K).status = .paused ∧ (last.unstepped K).fault = none)) ∧
    (last.unstepped kept).stepBack = (false, last.unstepped kept) := by
  intro start last kept
  have effective : Effective True start code N :=
    ⟨rfl, plain_of_compile parsed compiled, pairs_load closed sound code, rfl, unfinished⟩
  have length : last.history.length = kept := effective.length_history
  refine ⟨length, fun K le => ⟨fun k lt => ?_, (effective.unstepped le).2⟩, ?_⟩
  · have history := (effective.unstepped (Nat.le_of_lt (Nat.lt_of_lt_of_le lt le))).1
    rw [effective.history_drop (Nat.lt_of_lt_of_le lt le)] at history
    rw [stepBack_cons history]
  · have history := (effective.unstepped (Nat.le_refl kept)).1
    have none := List.drop_eq_nil_of_le (Nat.le_of_eq length)
    rw [none] at history
    rw [stepBack, history]

theorem assigning_sound (name : Name) : (Handler.assigning name).Sound := by
  intro earlier args heap closed _ below
  refine ⟨closed, Nat.le_refl _, ?_, ?_⟩
  · rintro v same
    cases same
    exact Value.below_null _
  · intro other v asked
    cases List.mem_singleton.mp asked
    cases args with
    | nil => exact Value.below_null _
    | cons arg args => exact below arg (.head _)

/-- A host with a command that binds `g` to what it is given. Three steps can be undone. -/
def lender : Machine :=
  { new { historySize := 3 } with host := ({} : Host).register .command "lend" (.assigning "g") }

/-- Two names and the host have one list, which then grows. -/
def lending : String := "a = [1]\nb = a\nlend(b)\nappend(a, 2)\n"

theorem stepBack_inverse_lending : ∃ program code,
    Program.parse lending unnamedSource = .ok program ∧
      program.compile unnamedSource = .ok code ∧
      (∀ n < 11, ((lender.load code).stepped n).finished = false) ∧
      ((lender.load code).stepped 11).history.length = 3 ∧
      (∃ σ, ((lender.load code).stepped 8).Matches σ (((lender.load code).stepped 11).unstepped 3)) ∧
      (((lender.load code).stepped 11).unstepped 3).stepBack.1 = false := by
  have ran : (codeOf lending).toOption.any (fun code =>
      (List.range 11).all fun n => !((lender.load code).stepped n).finished) = true := by
    rw [codeOf_eq_ofChars lending rfl]
    decide +kernel
  obtain ⟨program, code, parsed, compiled, going⟩ := exists_codeOf ran
  have unfinished : ∀ n < 11, ((lender.load code).stepped n).finished = false := by
    intro n early
    simpa using List.all_eq_true.mp going n (List.mem_range.mpr early)
  have closed : lender.heap.Closed := fun _ _ here => by cases here
  have sound : lender.host.Sound lender.heap.size := by
    intro name role bound found
    replace found := (Host.find?_single (.assigning "g") "lend" name).symm.trans found
    split at found
    · cases found
      exact ⟨assigning_sound "g", fun _ member => by cases member⟩
    · cases found
  obtain ⟨length, undone, none⟩ := stepBack_inverse parsed compiled closed sound unfinished
  exact ⟨program, code, parsed, compiled, unfinished, length, (undone 3 (Nat.le_refl _)).2.1,
    congrArg Prod.fst none⟩

end Machine

end Stepwise
