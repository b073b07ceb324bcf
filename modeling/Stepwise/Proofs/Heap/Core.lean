import Stepwise.Proofs.Renaming.Heaps

/-!
What a graft does: everything that some values lead to stands once more behind the cells of the other
heap, with as much sharing as before, and the cells that were there are left alone. What some values
lead to, numbered from zero on, is the core of a heap. It stands in the heap, and in every heap to
which that has been moved, so two heaps of which one was moved to the other have a core in common.
-/
namespace Stepwise

namespace Heap

/-- What some values lead to in one heap stands in another one, moved along `σ`. -/
structure Relocates (σ : Ref → Ref) (roots : List Value) (heap later : Heap) : Prop where
  inside : ∀ ref, heap.Reaches roots ref → ref < heap.size
  injective : ∀ a b, heap.Reaches roots a → heap.Reaches roots b → σ a = σ b → a = b
  cells : ∀ ref cell, heap.Reaches roots ref → heap.get? ref = some cell →
    later.get? (σ ref) = some (cell.rename σ)

variable {heap old : Heap} {roots : List Value} {refs : List Ref} {size base : Nat} {ref : Ref}

/-- One cell after the other gets its place. -/
theorem placed_from (distinct : refs.Nodup) (inside : ∀ ref ∈ refs, ref < size)
    {places : Array Ref} (sized : places.size = size) :
    let placed := (refs.foldl (fun (acc : Array Ref × Nat) ref =>
      (acc.1.setIfInBounds ref acc.2, acc.2 + 1)) (places, base)).1
    ∀ ref, placed.getD ref ref =
      if ref ∈ refs then base + refs.idxOf ref else places.getD ref ref := by
  induction refs generalizing places base with
  | nil =>
    intro placed ref
    simp [placed]
  | cons first refs ih =>
    intro placed ref
    obtain ⟨absent, distinct⟩ := List.nodup_cons.mp distinct
    obtain ⟨here, inside⟩ := List.forall_mem_cons.mp inside
    have sized' : (places.setIfInBounds first base).size = size := by simpa using sized
    refine (@ih (base + 1) distinct inside _ sized' ref).trans ?_
    by_cases same : ref = first
    · subst same
      rw [if_neg absent, if_pos (.head _), List.idxOf_cons_self, Array.getD_eq_getD_getElem?]
      simp [sized, here]
    · have other : first ≠ ref := Ne.symm same
      simp only [List.mem_cons, same, false_or]
      split
      · rw [List.idxOf_cons_ne _ other, Nat.add_assoc, Nat.add_comm 1]
      · rw [Array.getD_eq_getD_getElem?, Array.getD_eq_getD_getElem?,
          Array.getElem?_setIfInBounds_ne other]

theorem placement_eq (distinct : refs.Nodup) (inside : ∀ ref ∈ refs, ref < size)
    (member : ref ∈ refs) : (placement size base refs).getD ref ref = base + refs.idxOf ref := by
  have placed := @placed_from refs size base distinct inside (Array.replicate size 0) (by simp) ref
  rw [if_pos member] at placed
  exact placed

theorem graft_rename (inside : ∀ ref, old.Reaches roots ref → ref < old.size)
    (reached : old.Reaches roots ref) :
    (heap.graft old roots).1 ref = heap.size + (old.reachable roots).idxOf ref := by
  refine placement_eq (nodup_reachable old roots) (fun ref member => ?_) ?_
  · exact ((mem_reachable old roots ref).mp member).2
  · exact (mem_reachable old roots ref).mpr ⟨reached, inside ref reached⟩

theorem getElem?_filterMap_get? {f : Cell → Cell} (inside : ∀ ref ∈ refs, ref < old.size) (k : Nat) :
    (refs.filterMap fun ref => (old.get? ref).map f)[k]? =
      refs[k]?.bind fun ref => (old.get? ref).map f := by
  induction refs generalizing k with
  | nil => rfl
  | cons first refs ih =>
    obtain ⟨here, inside⟩ := List.forall_mem_cons.mp inside
    obtain ⟨cell, found⟩ := get?_eq_some here
    rw [List.filterMap_cons, found]
    cases k with
    | zero => simp [found]
    | succ k => exact ih inside k

/-- The copies stand behind the cells that were there. -/
theorem get?_graft (k : Nat) :
    (heap.graft old roots).2.get? (heap.size + k) =
      (old.reachable roots)[k]?.bind fun ref =>
        (old.get? ref).map (Cell.rename (heap.graft old roots).1) := by
  have inside : ∀ ref ∈ old.reachable roots, ref < old.size := fun ref member =>
    ((mem_reachable old roots ref).mp member).2
  rw [← getElem?_filterMap_get? inside]
  show (heap.cells ++ List.toArray _)[heap.cells.size + k]? = _
  rw [Array.getElem?_append_right (Nat.le_add_right _ _), Nat.add_sub_cancel_left,
    List.getElem?_toArray]
  rfl

/-- A graft copies what it should, in one piece. -/
theorem relocates_graft (inside : ∀ ref, old.Reaches roots ref → ref < old.size) (heap : Heap) :
    Relocates (heap.graft old roots).1 roots old (heap.graft old roots).2 := by
  have listed : ∀ {ref}, old.Reaches roots ref → ref ∈ old.reachable roots := fun {ref} reached =>
    (mem_reachable old roots ref).mpr ⟨reached, inside ref reached⟩
  refine ⟨inside, fun a b reachedA reachedB same => ?_, fun ref cell reached here => ?_⟩
  · rw [graft_rename inside reachedA, graft_rename inside reachedB] at same
    exact (List.idxOf_inj (listed reachedA)).mp (Nat.add_left_cancel same)
  · rw [graft_rename inside reached, get?_graft,
      List.getElem?_idxOf (listed reached)]
    simp [here]

end Heap

/-- Bindings are renamed in one go or in two, as their values are. -/
theorem Bindings.rename_eq_twice {ρ σ τ : Ref → Ref} {bindings : Bindings Value}
    (same : ∀ entry ∈ bindings, entry.2.rename τ = (entry.2.rename ρ).rename σ) :
    bindings.rename τ = (bindings.rename ρ).rename σ := by
  rw [Bindings.rename, Bindings.rename, Bindings.rename, List.map_map]
  refine List.map_congr_left fun entry member => ?_
  exact congrArg (Prod.mk entry.1) (same entry member)

theorem Cell.rename_eq_twice {ρ σ τ : Ref → Ref} {cell : Cell}
    (same : ∀ v ∈ cell.parts, v.rename τ = (v.rename ρ).rename σ) :
    cell.rename τ = (cell.rename ρ).rename σ := by
  cases cell with
  | list items =>
    refine congrArg Cell.list ?_
    rw [Array.map_map]
    exact Array.map_congr_left fun v member => same v (Array.mem_def.mp member)
  | map entries =>
    refine congrArg Cell.map (Bindings.rename_eq_twice fun entry member => ?_)
    exact same entry.2 (List.mem_map_of_mem member)
  | inst className fields =>
    refine congrArg (Cell.inst className) (Bindings.rename_eq_twice fun entry member => ?_)
    exact same entry.2 (List.mem_map_of_mem member)

namespace Heap

variable {heap later : Heap} {roots : List Value} {τ : Ref → Ref}

/-- The number in the core of a cell that can be reached. -/
def coreRef (heap : Heap) (roots : List Value) (ref : Ref) : Ref :=
  (heap.reachable roots).idxOf ref

def core (heap : Heap) (roots : List Value) : Heap :=
  ⟨((heap.reachable roots).map fun ref =>
    ((heap.get? ref).getD default).rename (heap.coreRef roots)).toArray⟩

/-- Where the cells of a core stand in a heap to which it was moved along `τ`. -/
def spread (heap : Heap) (roots : List Value) (τ : Ref → Ref) (later : Heap) (k : Ref) : Ref :=
  ((heap.reachable roots)[k]?.map τ).getD (later.size + (k - (heap.reachable roots).length))

@[simp] theorem size_core : (heap.core roots).size = (heap.reachable roots).length := by
  simp [core, size]

theorem get?_core {k : Nat} {cell : Cell} (here : (heap.core roots).get? k = some cell) :
    ∃ ref own, (heap.reachable roots)[k]? = some ref ∧ heap.get? ref = some own ∧
      cell = own.rename (heap.coreRef roots) := by
  simp only [core, get?, List.getElem?_toArray, List.getElem?_map, Option.map_eq_some_iff] at here
  obtain ⟨ref, found, rfl⟩ := here
  have inside := ((mem_reachable heap roots ref).mp (List.mem_of_getElem? found)).2
  obtain ⟨own, there⟩ := get?_eq_some inside
  refine ⟨ref, own, found, there, ?_⟩
  rw [get?] at there
  rw [there]
  rfl

namespace Relocates

theorem listed (relocates : Relocates τ roots heap later) {ref : Ref}
    (reached : heap.Reaches roots ref) : ref ∈ heap.reachable roots :=
  (mem_reachable heap roots ref).mpr ⟨reached, relocates.inside ref reached⟩

theorem coreRef_lt (relocates : Relocates τ roots heap later) {ref : Ref}
    (reached : heap.Reaches roots ref) : heap.coreRef roots ref < (heap.core roots).size := by
  rw [size_core]
  exact List.idxOf_lt_length_of_mem (relocates.listed reached)

theorem spread_coreRef (relocates : Relocates τ roots heap later) {ref : Ref}
    (reached : heap.Reaches roots ref) :
    heap.spread roots τ later (heap.coreRef roots ref) = τ ref := by
  rw [spread, coreRef, List.getElem?_idxOf (relocates.listed reached)]
  rfl

theorem below (relocates : Relocates τ roots heap later) {v : Value}
    (reached : ∀ ref, v.ref? = some ref → heap.Reaches roots ref) :
    (v.rename (heap.coreRef roots)).Below (heap.core roots).size := by
  intro k refers
  rw [Value.ref?_rename] at refers
  obtain ⟨ref, own, rfl⟩ := Option.map_eq_some_iff.mp refers
  exact relocates.coreRef_lt (reached ref own)

theorem rename (relocates : Relocates τ roots heap later) {v : Value}
    (reached : ∀ ref, v.ref? = some ref → heap.Reaches roots ref) :
    v.rename τ = (v.rename (heap.coreRef roots)).rename (heap.spread roots τ later) := by
  rw [Value.rename_rename]
  refine Value.rename_congr fun ref refers => ?_
  exact (relocates.spread_coreRef (reached ref refers)).symm

theorem embeds (relocates : Relocates τ roots heap later) :
    Embeds (heap.spread roots τ later) (heap.core roots) later where
  closed := by
    intro k cell here v part
    obtain ⟨ref, own, found, there, rfl⟩ := get?_core here
    rw [Cell.parts_rename] at part
    obtain ⟨u, inner, rfl⟩ := List.mem_map.mp part
    have reached := ((mem_reachable heap roots ref).mp (List.mem_of_getElem? found)).1
    exact relocates.below fun next refers => .part reached there inner refers
  cells := by
    intro k cell here
    obtain ⟨ref, own, found, there, rfl⟩ := get?_core here
    have reached := ((mem_reachable heap roots ref).mp (List.mem_of_getElem? found)).1
    have place : heap.spread roots τ later k = τ ref := by
      rw [spread, found]
      rfl
    rw [place, relocates.cells ref own reached there]
    refine congrArg some (Cell.rename_eq_twice fun v part => ?_)
    exact relocates.rename fun next refers => .part reached there part refers
  injective := by
    intro a inside b there same
    rw [size_core] at inside there
    rw [spread, spread, List.getElem?_eq_getElem inside, List.getElem?_eq_getElem there] at same
    have reached : ∀ k (lt : k < (heap.reachable roots).length),
        heap.Reaches roots (heap.reachable roots)[k] := fun k lt =>
      ((mem_reachable heap roots _).mp (List.getElem_mem lt)).1
    have equal := relocates.injective _ _ (reached a inside) (reached b there) same
    exact (List.Nodup.getElem_inj_iff (nodup_reachable heap roots)).mp equal
  fresh := by
    intro k
    rw [spread, size_core, List.getElem?_eq_none (Nat.le_add_right _ _)]
    simp

end Relocates

end Heap

end Stepwise
