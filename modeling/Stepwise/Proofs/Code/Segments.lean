import Stepwise.Proofs.Stack.Whole

/-!
The segments of compiled code. The main body and every function and method have one of their own,
which is left by calls, by returns and at the halt only: `divided_of_balanced`.
-/
namespace Stepwise

/-- A stretch of code: so many addresses from `start` on. -/
structure Segment where
  start : Nat
  length : Nat

namespace Segment

/-- The address behind a segment. -/
def finish (s : Segment) : Nat := s.start + s.length

instance : Membership Int Segment where
  mem s a := s.start ≤ a ∧ a < s.finish

theorem mem_iff {s : Segment} {a : Int} : a ∈ s ↔ s.start ≤ a ∧ a < s.finish := Iff.rfl

theorem mem_mk {start length a : Nat} :
    (a : Int) ∈ (⟨start, length⟩ : Segment) ↔ start ≤ a ∧ a < start + length := by
  simp only [mem_iff, finish]
  omega

/-- Segments that follow each other without a gap from one address up to another. -/
def Consecutive (lo : Nat) : List Segment → Nat → Prop
  | [], hi => lo = hi
  | s :: rest, hi => s.start = lo ∧ Consecutive s.finish rest hi

theorem Consecutive.le {lo hi : Nat} {segments : List Segment}
    (consecutive : Consecutive lo segments hi) : lo ≤ hi := by
  induction segments generalizing lo with
  | nil => exact Nat.le_of_eq consecutive
  | cons s rest ih =>
    obtain ⟨rfl, others⟩ := consecutive
    exact Nat.le_trans (Nat.le_add_right ..) (ih others)

theorem Consecutive.finish_le {lo hi : Nat} {segments : List Segment}
    (consecutive : Consecutive lo segments hi) {s : Segment} (member : s ∈ segments) :
    s.finish ≤ hi := by
  induction segments generalizing lo with
  | nil => cases member
  | cons first rest ih =>
    obtain ⟨-, others⟩ := consecutive
    rcases List.mem_cons.mp member with rfl | later
    · exact others.le
    · exact ih others later

end Segment

/-- Instructions that may go on with the next one, perhaps after a call. -/
def Opcode.goesOn : Opcode → Bool
  | .jump | .ret | .halt => false
  | _ => true

/-- Within a call, the instruction at the address `a` does not leave a segment. -/
structure Instruction.StaysIn (i : Instruction) (s : Segment) (a : Nat) : Prop where
  jumps : i.op.isJump = true → ∃ target : Nat, i.operand = .int target ∧ (target : Int) ∈ s
  next : i.op.goesOn = true → (a + 1 : Int) ∈ s

namespace Code

/-- How compiled code is divided: the class definitions with the main body and its halt, then a
segment for each function and each method. -/
structure Divided (code : Code) (program : Program) (scope : Scope) (keepResult : Bool)
    (main : Segment) (bodies : List Segment) : Prop where
  consecutive : Segment.Consecutive 0 (main :: bodies) code.size
  registrations : code.Holds 0
    (program.classes.map fun entry => ⟨.classDef, entry.1.toValue, entry.2.1.line⟩)
  body : MainAt code scope keepResult program.classes.length program.main (main.finish - 1)
  halts : 0 < main.length ∧ code.Has (main.finish - 1) ⟨.halt, .null, none⟩
  functionsPlaced : List.Forall₂ (fun s f => FuncAt code scope s.start f) bodies program.bodies
  returns : ∀ s ∈ bodies, 2 ≤ s.length ∧ code.Has (s.finish - 2) ⟨.push, .null, none⟩ ∧
    code.Has (s.finish - 1) ⟨.ret, .null, none⟩
  stays : ∀ s ∈ main :: bodies, ∀ a : Nat, (a : Int) ∈ s → ∃ i, code.Has a i ∧ i.StaysIn s a
  functions : ∀ (name : Name) (address : Int), code.functions.get? name = some address →
    ∃ s ∈ bodies, address = s.start
  methods : ∀ (className : Name) (table : Bindings Int), code.classes.get? className = some table →
    ∀ (method : Name) (address : Int), table.get? method = some address →
      code.functions.get? (qualifiedName className method) = some address

variable {code : Code} {scope : Scope} {H : Nat → Nat}

/-- The segment of a function. -/
def segmentOf (entry : Nat × Func) : Segment := ⟨entry.1, funcLength entry.2⟩

theorem mem_segmentOf {entry : Nat × Func} {a : Nat} :
    (a : Int) ∈ segmentOf entry ↔ InFunc entry.1 entry.2 a :=
  Segment.mem_mk

theorem consecutive_entries (base : Nat) (fs : List Func) :
    Segment.Consecutive base ((entriesFrom base fs).map segmentOf)
      (base + (fs.map funcLength).sum) := by
  induction fs generalizing base with
  | nil => rfl
  | cons f fs ih =>
    have rest := ih (base + funcLength f)
    rw [List.map_cons, List.sum_cons, ← Nat.add_assoc]
    exact ⟨rfl, rest⟩

theorem forall₂_entries {base : Nat} {fs : List Func}
    (placed : ∀ entry ∈ entriesFrom base fs, FuncAt code scope entry.1 entry.2) :
    List.Forall₂ (fun s f => FuncAt code scope s.start f) ((entriesFrom base fs).map segmentOf) fs := by
  induction fs generalizing base with
  | nil => exact .nil
  | cons f fs ih =>
    simp only [entriesFrom, List.forall_mem_cons] at placed
    exact .cons placed.1 (ih placed.2)

/-- An instruction that fits the heights within a segment stays in the segment. -/
theorem Fits.staysIn {s : Segment} {inside : Nat → Prop} (within : ∀ b, inside b → (b : Int) ∈ s)
    {a : Nat} (fits : code.Fits H inside a) : ∃ i, code.Has a i ∧ i.StaysIn s a := by
  obtain ⟨i, taken, given, has, moves, -, leads⟩ := fits
  have reached : ∀ b, i.Leads a b → ∃ b' : Nat, b = b' ∧ (b' : Int) ∈ s := by
    intro b led
    obtain ⟨b', same, here, -⟩ := leads b led
    exact ⟨b', same, within b' here⟩
  obtain ⟨op, operand, line⟩ := i
  refine ⟨_, has, fun jumps => ?_, fun goesOn => ?_⟩
  · have aimed : ∃ target : Int, operand = .int target ∧
        Instruction.Leads ⟨op, operand, line⟩ a target := by
      cases op
      case jump =>
        obtain ⟨-, target, rfl⟩ := moves
        exact ⟨target, rfl, rfl⟩
      case jumpIf | jumpIfNot =>
        obtain ⟨-, target, rfl⟩ := moves
        exact ⟨target, rfl, .inr rfl⟩
      all_goals cases jumps
    obtain ⟨target, rfl, led⟩ := aimed
    obtain ⟨target', rfl, here⟩ := reached target led
    exact ⟨target', rfl, here⟩
  · have next : Instruction.Leads ⟨op, operand, line⟩ a (a + 1 : Nat) := by
      cases op
      case jump | ret => cases goesOn
      case jumpIf | jumpIfNot => exact .inl rfl
      all_goals exact rfl
    obtain ⟨next', same, here⟩ := reached _ next
    rwa [← Int.natCast_succ, same]

theorem returns_of_funcAt {base : Nat} {f : Func} (placed : FuncAt code scope base f) :
    code.Has (base + funcLength f - 2) ⟨.push, .null, none⟩ ∧
      code.Has (base + funcLength f - 1) ⟨.ret, .null, none⟩ := by
  obtain ⟨-, -, rfl, push, ret⟩ := placed
  have first : base + funcLength f - 2 = base + f.params.length + stmtsLength f.body := by
    rw [funcLength]
    omega
  have second : base + funcLength f - 1 = base + f.params.length + stmtsLength f.body + 1 := by
    rw [funcLength]
    omega
  exact ⟨first ▸ push, second ▸ ret⟩

end Code

namespace Program

/-- The code of a program is divided into the segments of its main body and of its functions. -/
theorem divided_of_balanced {program : Program} {scope : Scope} {keepResult : Bool} {code : Code}
    {H : Nat → Nat} {finish result : Nat} (laid : LaidOut program scope keepResult code finish)
    (balanced : Balanced program code H finish result) :
    code.Divided program scope keepResult ⟨0, finish + 1⟩
      ((Code.entriesFrom (finish + 1) program.bodies).map Code.segmentOf) where
  consecutive := by
    rw [laid.size]
    refine ⟨rfl, ?_⟩
    have whole := Code.consecutive_entries (finish + 1) program.bodies
    rwa [Segment.finish, Nat.zero_add]
  registrations := laid.registrations
  body := by simpa [Segment.finish] using laid.main
  halts := ⟨Nat.succ_pos _, by simpa [Segment.finish] using laid.main.halts⟩
  functionsPlaced := Code.forall₂_entries laid.placed
  returns := by
    intro s member
    obtain ⟨entry, among, rfl⟩ := List.mem_map.mp member
    exact ⟨Nat.le_add_left .., Code.returns_of_funcAt (laid.placed entry among)⟩
  stays := by
    intro s member a inside
    rcases List.mem_cons.mp member with rfl | later
    · have bound : a < finish + 1 := by simpa using (Segment.mem_mk.mp inside).2
      by_cases last : a = finish
      · subst last
        refine ⟨_, laid.main.halts, fun jumps => ?_, fun goesOn => ?_⟩
        · cases jumps
        · cases goesOn
      · refine (balanced.fits false a (Nat.le_of_lt_succ bound) last).staysIn fun b within => ?_
        have within : b ≤ finish := within
        exact Segment.mem_mk.mpr ⟨Nat.zero_le b, by omega⟩
    · obtain ⟨entry, among, rfl⟩ := List.mem_map.mp later
      have fits := balanced.apart entry among a (Code.mem_segmentOf.mp inside)
      exact fits.staysIn fun b within => Code.mem_segmentOf.mpr within
  functions := by
    intro name address found
    obtain ⟨base, rfl, f, among⟩ := laid.indexed.functions name address found
    exact ⟨_, List.mem_map_of_mem among, rfl⟩
  methods := fun className table known method address found =>
    ((laid.indexed.methods className table known).2 method address found).2

end Program

end Stepwise
