import Mathlib.Algebra.GroupWithZero.Nat
import Mathlib.Data.List.Nodup
import Stepwise.Value.Copy

/-!
The cells that values lead to. `Heap.Reaches` says it by rules, `Heap.reachable` visits them one
after the other; `mem_reachable` states that the visit finds each of them once.
-/
namespace Stepwise

namespace Heap

variable {heap : Heap} {roots waiting : List Value} {seen : Array Bool} {found : List Ref}

/-- A cell that some values lead to. -/
inductive Reaches (heap : Heap) (roots : List Value) : Ref → Prop where
  | root {v : Value} {ref : Ref} : v ∈ roots → v.ref? = some ref → Reaches heap roots ref
  | part {ref next : Ref} {cell : Cell} {v : Value} : Reaches heap roots ref →
      heap.get? ref = some cell → v ∈ cell.parts → v.ref? = some next → Reaches heap roots next

theorem lt_size_of_get? {ref : Ref} {cell : Cell} (found : heap.get? ref = some cell) :
    ref < heap.size :=
  (Array.getElem?_eq_some_iff.mp found).1

theorem get?_eq_some {ref : Ref} (inside : ref < heap.size) : ∃ cell, heap.get? ref = some cell :=
  ⟨_, Array.getElem?_eq_getElem inside⟩

/-- What is directly inside a cell. -/
def partsAt (heap : Heap) (ref : Ref) : List Value := (heap.get? ref).elim [] Cell.parts

/-- Number of values in the cells of a list that have not been found. -/
def unvisited (heap : Heap) (found : List Ref) (refs : List Ref) : Nat :=
  (refs.map fun ref => if ref ∈ found then 0 else (heap.partsAt ref).length).sum

theorem unvisited_cons {ref : Ref} {refs : List Ref} (distinct : refs.Nodup) (new : ref ∉ found) :
    unvisited heap (ref :: found) refs + (if ref ∈ refs then (heap.partsAt ref).length else 0) =
      unvisited heap found refs := by
  induction refs with
  | nil => rfl
  | cons other refs ih =>
    obtain ⟨absent, distinct⟩ := List.nodup_cons.mp distinct
    have ih := ih distinct
    simp only [unvisited, List.map_cons, List.sum_cons, List.mem_cons] at ih ⊢
    by_cases same : other = ref
    · subst same
      simp only [absent, if_false, Nat.add_zero] at ih
      simp only [true_or, if_true, if_neg new]
      omega
    · have same' : ¬ ref = other := fun h => same h.symm
      simp only [same, same', false_or]
      split
      · omega
      · omega

theorem population_eq (heap : Heap) :
    heap.population = unvisited heap [] (List.range heap.size) := by
  have sums : ∀ (cells : List Cell) (n : Nat),
      cells.foldl (fun n cell => n + cell.parts.length) n =
        n + (cells.map fun cell => cell.parts.length).sum := by
    intro cells
    induction cells with
    | nil => simp
    | cons cell cells ih =>
      intro n
      rw [List.foldl_cons, ih, List.map_cons, List.sum_cons, Nat.add_assoc]
  have cells : (List.range heap.size).map (fun ref => (heap.partsAt ref).length) =
      heap.cells.toList.map fun cell => cell.parts.length := by
    apply List.ext_getElem
    · simp [size]
    · intro k inside _
      simp only [List.length_map, List.length_range] at inside
      have here : heap.cells[k]? = some heap.cells[k] := Array.getElem?_eq_getElem inside
      simp only [List.getElem_map, List.getElem_range, partsAt, get?, here, Array.getElem_toList]
      rfl
  rw [population, ← Array.foldl_toList, sums, Nat.zero_add, unvisited]
  simp only [List.not_mem_nil, if_false, cells]

/-- A visit under way: what has been found and what is still waiting. -/
structure Visit (heap : Heap) (roots waiting : List Value) (seen : Array Bool) (found : List Ref) :
    Prop where
  size : seen.size = heap.size
  marks : ∀ ref < heap.size, seen.getD ref true = true ↔ ref ∈ found
  inside : ∀ ref ∈ found, ref < heap.size
  once : found.Nodup
  sound : ∀ ref ∈ found, heap.Reaches roots ref
  leads : ∀ v ∈ waiting, ∀ ref, v.ref? = some ref → heap.Reaches roots ref
  starts : ∀ v ∈ roots, ∀ ref < heap.size, v.ref? = some ref → ref ∈ found ∨ v ∈ waiting
  follows : ∀ ref ∈ found, ∀ v ∈ heap.partsAt ref, ∀ next < heap.size, v.ref? = some next →
    next ∈ found ∨ v ∈ waiting

theorem visit_start (heap : Heap) (roots : List Value) :
    Visit heap roots roots (Array.replicate heap.size false) [] where
  size := by simp
  marks := by
    intro ref inside
    simp [Array.getD, inside]
  inside := fun _ member => nomatch member
  once := .nil
  sound := fun _ member => nomatch member
  leads := fun _ member _ refers => .root member refers
  starts := fun _ member _ _ _ => .inr member
  follows := fun _ member => nomatch member

/-- A value that leads to nothing new is dropped. -/
theorem Visit.drop {v : Value} (visit : Visit heap roots (v :: waiting) seen found)
    (known : ∀ ref < heap.size, v.ref? = some ref → ref ∈ found) :
    Visit heap roots waiting seen found := by
  refine { visit with leads := ?_, starts := ?_, follows := ?_ }
  · exact fun w member => visit.leads w (.tail _ member)
  · intro w member ref inside refers
    rcases visit.starts w member ref inside refers with earlier | waits
    · exact .inl earlier
    · rcases List.mem_cons.mp waits with rfl | later
      · exact .inl (known ref inside refers)
      · exact .inr later
  · intro ref member w part next inside refers
    rcases visit.follows ref member w part next inside refers with earlier | waits
    · exact .inl earlier
    · rcases List.mem_cons.mp waits with rfl | later
      · exact .inl (known next inside refers)
      · exact .inr later

/-- A new cell is found, and what is inside it waits. -/
theorem Visit.mark {v : Value} {ref : Ref} (visit : Visit heap roots (v :: waiting) seen found)
    (refers : v.ref? = some ref) (new : seen.getD ref true = false) :
    Visit heap roots (heap.partsAt ref ++ waiting) (seen.setIfInBounds ref true) (ref :: found) := by
  have inside : ref < heap.size := by
    rw [← visit.size]
    apply Classical.byContradiction
    intro outside
    simp [Array.getD, outside] at new
  have absent : ref ∉ found := by
    intro member
    rw [(visit.marks ref inside).mpr member] at new
    cases new
  have reached := visit.leads v (.head _) ref refers
  constructor
  · simp [visit.size]
  · intro other there
    have marks := visit.marks other there
    by_cases same : other = ref
    · subst same
      simp [Array.getD, visit.size, there]
    · have kept : (seen.setIfInBounds ref true).getD other true = seen.getD other true := by
        rw [Array.getD_eq_getD_getElem?, Array.getD_eq_getD_getElem?,
          Array.getElem?_setIfInBounds_ne (Ne.symm same)]
      rw [kept, marks]
      simp [same]
  · simpa [inside] using visit.inside
  · exact List.nodup_cons.mpr ⟨absent, visit.once⟩
  · simpa [reached] using visit.sound
  · intro w member next leads
    rcases List.mem_append.mp member with part | later
    · obtain ⟨cell, here⟩ := get?_eq_some inside
      rw [partsAt, here] at part
      exact .part reached here part leads
    · exact visit.leads w (.tail _ later) next leads
  · intro w member next there leads
    rcases visit.starts w member next there leads with earlier | waits
    · exact .inl (.tail _ earlier)
    · rcases List.mem_cons.mp waits with rfl | later
      · cases refers.symm.trans leads
        exact .inl (.head _)
      · exact .inr (List.mem_append_right _ later)
  · intro cell member w part next there leads
    rcases List.mem_cons.mp member with rfl | earlier
    · exact .inr (List.mem_append_left _ part)
    · rcases visit.follows cell earlier w part next there leads with known | waits
      · exact .inl (.tail _ known)
      · rcases List.mem_cons.mp waits with rfl | later
        · cases refers.symm.trans leads
          exact .inl (.head _)
        · exact .inr (List.mem_append_right _ later)

/-- A visit that is over has found everything. -/
theorem Visit.complete (visit : Visit heap roots [] seen found) (ref : Ref) :
    ref ∈ found ↔ heap.Reaches roots ref ∧ ref < heap.size := by
  constructor
  · exact fun member => ⟨visit.sound ref member, visit.inside ref member⟩
  · rintro ⟨reached, inside⟩
    induction reached with
    | root member refers => exact (visit.starts _ member _ inside refers).resolve_right nofun
    | part _ here part refers ih =>
      refine (visit.follows _ (ih (lt_size_of_get? here)) _ ?_ _ inside refers).resolve_right nofun
      rw [partsAt, here]
      exact part

theorem reachFrom_complete {fuel : Nat} (visit : Visit heap roots waiting seen found)
    (enough : waiting.length + unvisited heap found (List.range heap.size) < fuel) :
    (heap.reachFrom fuel waiting seen found).Nodup ∧
      ∀ ref, ref ∈ heap.reachFrom fuel waiting seen found ↔
        heap.Reaches roots ref ∧ ref < heap.size := by
  induction fuel generalizing waiting seen found with
  | zero => omega
  | succ fuel ih =>
    cases waiting with
    | nil => exact ⟨visit.once, visit.complete⟩
    | cons v waiting =>
      rw [List.length_cons] at enough
      unfold reachFrom
      split
      next none =>
        refine ih (visit.drop fun ref _ refers => ?_) (by omega)
        rw [none] at refers
        cases refers
      next ref refers =>
        split
        next known =>
          refine ih (visit.drop fun other inside same => ?_) (by omega)
          cases refers.symm.trans same
          exact (visit.marks ref inside).mp known
        next new =>
          have new : seen.getD ref true = false := by simpa using new
          have visit' := visit.mark refers new
          have inside : ref ∈ List.range heap.size := List.mem_range.mpr (visit'.inside ref (.head _))
          have absent := (List.nodup_cons.mp visit'.once).1
          have fewer := @unvisited_cons heap _ _ _ (@List.nodup_range heap.size) absent
          rw [if_pos inside] at fewer
          refine ih visit' ?_
          show (heap.partsAt ref ++ waiting).length + _ < fuel
          rw [List.length_append]
          omega

theorem mem_reachable (heap : Heap) (roots : List Value) (ref : Ref) :
    ref ∈ heap.reachable roots ↔ heap.Reaches roots ref ∧ ref < heap.size := by
  rw [reachable, List.mem_reverse]
  refine (reachFrom_complete (visit_start heap roots) ?_).2 ref
  rw [population_eq]
  omega

theorem nodup_reachable (heap : Heap) (roots : List Value) : (heap.reachable roots).Nodup := by
  rw [reachable, List.nodup_reverse]
  refine (reachFrom_complete (visit_start heap roots) ?_).1
  rw [population_eq]
  omega

end Heap

end Stepwise
