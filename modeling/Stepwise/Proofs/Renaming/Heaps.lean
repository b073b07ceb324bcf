import Stepwise.Proofs.Bindings
import Stepwise.Proofs.Heap.Reach

/-!
One heap inside another. The cells of a closed heap, its core, reappear under other numbers in a
heap that may hold much else, and both go on to number new cells alike. What the language does to
values is the same in both: the following modules go through its operations.
-/
namespace Stepwise

namespace Value

/-- A value that refers, if at all, to a cell below some number. -/
def Below (size : Nat) (v : Value) : Prop := ∀ ref, v.ref? = some ref → ref < size

theorem Below.mono {size more : Nat} {v : Value} (below : v.Below size) (le : size ≤ more) :
    v.Below more :=
  fun ref refers => Nat.lt_of_lt_of_le (below ref refers) le

theorem below_of_scalar {v : Value} (scalar : v.ref? = none) (size : Nat) : v.Below size := by
  intro ref refers
  rw [scalar] at refers
  cases refers

@[simp] theorem below_null (size : Nat) : Below size .null := below_of_scalar rfl size
@[simp] theorem below_bool (size : Nat) (b : Bool) : Below size (.bool b) := below_of_scalar rfl size
@[simp] theorem below_number (size : Nat) (n : Number) : Below size (.number n) :=
  below_of_scalar rfl size
@[simp] theorem below_int (size : Nat) (n : Int) : Below size (.int n) := below_of_scalar rfl size
@[simp] theorem below_text (size : Nat) (s : String) : Below size (.text s) := below_of_scalar rfl size

@[simp] theorem below_list {size : Nat} {ref : Ref} : Below size (.list ref) ↔ ref < size := by
  simp [Below, ref?]

@[simp] theorem below_map {size : Nat} {ref : Ref} : Below size (.map ref) ↔ ref < size := by
  simp [Below, ref?]

@[simp] theorem below_inst {size : Nat} {ref : Ref} : Below size (.inst ref) ↔ ref < size := by
  simp [Below, ref?]

@[simp] theorem rename_null (ρ : Ref → Ref) : rename ρ .null = .null := rfl
@[simp] theorem rename_bool (ρ : Ref → Ref) (b : Bool) : rename ρ (.bool b) = .bool b := rfl
@[simp] theorem rename_number (ρ : Ref → Ref) (n : Number) : rename ρ (.number n) = .number n := rfl
@[simp] theorem rename_int (ρ : Ref → Ref) (n : Int) : rename ρ (.int n) = .int n := rfl
@[simp] theorem rename_text (ρ : Ref → Ref) (s : String) : rename ρ (.text s) = .text s := rfl
@[simp] theorem rename_list (ρ : Ref → Ref) (ref : Ref) : rename ρ (.list ref) = .list (ρ ref) := rfl
@[simp] theorem rename_map (ρ : Ref → Ref) (ref : Ref) : rename ρ (.map ref) = .map (ρ ref) := rfl
@[simp] theorem rename_inst (ρ : Ref → Ref) (ref : Ref) : rename ρ (.inst ref) = .inst (ρ ref) := rfl

@[simp] theorem scalar?_rename (ρ : Ref → Ref) (v : Value) : (v.rename ρ).scalar? = v.scalar? := by
  cases v <;> rfl

@[simp] theorem weight?_rename (ρ : Ref → Ref) (v : Value) : (v.rename ρ).weight? = v.weight? := by
  rw [weight?, weight?, scalar?_rename]

@[simp] theorem ref?_rename (ρ : Ref → Ref) (v : Value) : (v.rename ρ).ref? = v.ref?.map ρ := by
  cases v <;> rfl

theorem rename_of_scalar {v : Value} (scalar : v.ref? = none) (ρ : Ref → Ref) : v.rename ρ = v := by
  cases v <;> first | rfl | cases scalar

theorem rename_rename (ρ σ : Ref → Ref) (v : Value) :
    (v.rename ρ).rename σ = v.rename (σ ∘ ρ) := by
  cases v <;> rfl

theorem rename_congr {ρ σ : Ref → Ref} {v : Value} (same : ∀ ref, v.ref? = some ref → ρ ref = σ ref) :
    v.rename ρ = v.rename σ := by
  cases v <;> first | rfl | (simp only [rename]; rw [same _ rfl])

theorem rename_id {ρ : Ref → Ref} {v : Value} (same : ∀ ref, v.ref? = some ref → ρ ref = ref) :
    v.rename ρ = v := by
  cases v <;> first | rfl | (simp only [rename]; rw [same _ rfl])

/-- The same value under another number. -/
def Image (ρ : Ref → Ref) (size : Nat) (v w : Value) : Prop := v.Below size ∧ w = v.rename ρ

end Value

/-- Several values and the same values under other numbers. -/
def Images (ρ : Ref → Ref) (size : Nat) (vs ws : List Value) : Prop :=
  (∀ v ∈ vs, v.Below size) ∧ ws = vs.map (Value.rename ρ)

theorem Bindings.get?_rename (ρ : Ref → Ref) (bindings : Bindings Value) (name : Name) :
    (bindings.rename ρ).get? name = (bindings.get? name).map (Value.rename ρ) := by
  induction bindings with
  | nil => rfl
  | cons binding rest ih =>
    simp only [Bindings.rename, List.map_cons, Bindings.get?] at ih ⊢
    split
    · rfl
    · exact ih

theorem Bindings.put_rename (ρ : Ref → Ref) (bindings : Bindings Value) (name : Name) (v : Value) :
    (Bindings.put name v bindings).rename ρ =
      Bindings.put name (v.rename ρ) (bindings.rename ρ) := by
  induction bindings with
  | nil => rfl
  | cons binding rest ih =>
    simp only [Bindings.rename, List.map_cons, Bindings.put] at ih ⊢
    split
    · rfl
    · simp only [List.map_cons, ih]

theorem Bindings.below_of_get? {size : Nat} {bindings : Bindings Value} {name : Name} {v : Value}
    (below : ∀ entry ∈ bindings, entry.2.Below size) (found : bindings.get? name = some v) :
    v.Below size := by
  obtain ⟨known, member, -⟩ := Bindings.mem_of_get? found
  exact below _ member

theorem Bindings.below_put {size : Nat} {bindings : Bindings Value} {name : Name} {v : Value}
    (below : ∀ entry ∈ bindings, entry.2.Below size) (new : v.Below size) :
    ∀ entry ∈ Bindings.put name v bindings, entry.2.Below size := by
  intro entry member
  rcases Bindings.mem_of_mem_put member with old | ⟨same, -⟩
  · exact below entry old
  · rw [same]
    exact new

@[simp] theorem Cell.parts_rename (ρ : Ref → Ref) (cell : Cell) :
    (cell.rename ρ).parts = cell.parts.map (Value.rename ρ) := by
  cases cell <;> simp [Cell.rename, Cell.parts, Bindings.rename, Function.comp_def]

@[simp] theorem Value.rename_same (v : Value) : v.rename id = v := rename_id fun _ _ => rfl

@[simp] theorem Bindings.rename_same (bindings : Bindings Value) : bindings.rename id = bindings := by
  simp [Bindings.rename]

@[simp] theorem Cell.rename_same (cell : Cell) : cell.rename id = cell := by
  cases cell <;> simp [Cell.rename, funext Value.rename_same]

namespace Heap

/-- Cells refer to cells only. -/
def Closed (heap : Heap) : Prop :=
  ∀ ref cell, heap.get? ref = some cell → ∀ v ∈ cell.parts, v.Below heap.size

/-- The cells of a closed core stand in a heap, moved along `ρ`, which also leads from the numbers
of new cells of the one to those of the other. -/
structure Embeds (ρ : Ref → Ref) (core heap : Heap) : Prop where
  closed : core.Closed
  cells : ∀ ref cell, core.get? ref = some cell → heap.get? (ρ ref) = some (cell.rename ρ)
  injective : ∀ a < core.size, ∀ b < core.size, ρ a = ρ b → a = b
  fresh : ∀ k, ρ (core.size + k) = heap.size + k

/-- A closed heap is its own core. -/
theorem Closed.embeds {heap : Heap} (closed : heap.Closed) : Embeds id heap heap where
  closed := closed
  cells := by
    intro ref cell here
    rw [Cell.rename_same]
    exact here
  injective := fun _ _ _ _ same => same
  fresh := fun _ => rfl

namespace Embeds

variable {ρ : Ref → Ref} {core heap : Heap} {ref : Ref}

theorem get? (embeds : Embeds ρ core heap) (inside : ref < core.size) :
    heap.get? (ρ ref) = (core.get? ref).map (Cell.rename ρ) := by
  obtain ⟨cell, here⟩ := get?_eq_some inside
  rw [here, embeds.cells ref cell here]
  rfl

theorem lt_size (embeds : Embeds ρ core heap) (inside : ref < core.size) : ρ ref < heap.size := by
  obtain ⟨cell, here⟩ := get?_eq_some inside
  exact lt_size_of_get? (embeds.cells ref cell here)

theorem eq_iff (embeds : Embeds ρ core heap) {other : Ref} (inside : ref < core.size)
    (there : other < core.size) : ρ ref = ρ other ↔ ref = other :=
  ⟨embeds.injective ref inside other there, congrArg ρ⟩

theorem next (embeds : Embeds ρ core heap) : ρ core.size = heap.size := embeds.fresh 0

/-- Under the same numbers there are the same cells. -/
theorem eq_of_id (embeds : Embeds id core heap) : heap = core := by
  have sizes : heap.size = core.size := embeds.next.symm
  have all : ∀ ref, heap.get? ref = core.get? ref := by
    intro ref
    by_cases inside : ref < core.size
    · have here := embeds.get? inside
      rwa [funext Cell.rename_same, Option.map_id'] at here
    · have outside : ¬ ref < heap.size := by rwa [sizes]
      exact (Array.getElem?_eq_none (Nat.le_of_not_lt outside)).trans
        (Array.getElem?_eq_none (Nat.le_of_not_lt inside)).symm
  exact congrArg Heap.mk (Array.ext_getElem? all)

theorem items (embeds : Embeds ρ core heap) (inside : ref < core.size) :
    heap.items (ρ ref) = (core.items ref).map (Value.rename ρ) := by
  simp only [Heap.items, embeds.get? inside]
  cases core.get? ref with
  | none => simp
  | some cell => cases cell <;> simp [Cell.rename]

theorem entries (embeds : Embeds ρ core heap) (inside : ref < core.size) :
    heap.entries (ρ ref) = (core.entries ref).rename ρ := by
  simp only [Heap.entries, embeds.get? inside]
  cases core.get? ref with
  | none => rfl
  | some cell => cases cell <;> rfl

theorem fields (embeds : Embeds ρ core heap) (inside : ref < core.size) :
    heap.fields (ρ ref) = (core.fields ref).rename ρ := by
  simp only [Heap.fields, embeds.get? inside]
  cases core.get? ref with
  | none => rfl
  | some cell => cases cell <;> rfl

theorem className (embeds : Embeds ρ core heap) (inside : ref < core.size) :
    heap.className (ρ ref) = core.className ref := by
  simp only [Heap.className, embeds.get? inside]
  cases core.get? ref with
  | none => rfl
  | some cell => cases cell <;> rfl

theorem below_items (embeds : Embeds ρ core heap) (ref : Ref) :
    ∀ v ∈ (core.items ref).toList, v.Below core.size := by
  intro v member
  unfold Heap.items at member
  split at member
  next here => exact embeds.closed _ _ here v member
  next => cases member

theorem below_entries (embeds : Embeds ρ core heap) (ref : Ref) :
    ∀ entry ∈ core.entries ref, entry.2.Below core.size := by
  intro entry member
  unfold Heap.entries at member
  split at member
  next here => exact embeds.closed _ _ here _ (List.mem_map_of_mem member)
  next => cases member

theorem below_fields (embeds : Embeds ρ core heap) (ref : Ref) :
    ∀ entry ∈ core.fields ref, entry.2.Below core.size := by
  intro entry member
  unfold Heap.fields at member
  split at member
  next here => exact embeds.closed _ _ here _ (List.mem_map_of_mem member)
  next => cases member

/-- Both heaps get a new cell. -/
theorem alloc (embeds : Embeds ρ core heap) {cell : Cell}
    (below : ∀ v ∈ cell.parts, v.Below core.size) :
    Embeds ρ (core.alloc cell).2 (heap.alloc (cell.rename ρ)).2 := by
  have known : ∀ {a}, a < core.size + 1 → a ≠ core.size → a < core.size := by omega
  constructor
  · intro a other here v part
    rw [size_alloc]
    rw [get?_alloc] at here
    split at here
    · cases here
      exact (below v part).mono (Nat.le_succ _)
    · exact (embeds.closed a other here v part).mono (Nat.le_succ _)
  · intro a other here
    rw [get?_alloc] at here ⊢
    split at here
    next new =>
      cases here
      rw [new, embeds.next, if_pos rfl]
    next old =>
      have inside := lt_size_of_get? here
      rw [if_neg (Nat.ne_of_lt (embeds.lt_size inside)), embeds.cells a other here]
  · intro a inside b there same
    rw [size_alloc] at inside there
    by_cases newA : a = core.size <;> by_cases newB : b = core.size
    · omega
    · have old := embeds.lt_size (known there newB)
      rw [newA, embeds.next] at same
      exact absurd same.symm (Nat.ne_of_lt old)
    · have old := embeds.lt_size (known inside newA)
      rw [newB, embeds.next] at same
      exact absurd same (Nat.ne_of_lt old)
    · exact embeds.injective a (known inside newA) b (known there newB) same
  · intro k
    rw [size_alloc, size_alloc, Nat.add_assoc, embeds.fresh, Nat.add_assoc]

/-- Both heaps change a cell. -/
theorem set (embeds : Embeds ρ core heap) (inside : ref < core.size) {cell : Cell}
    (below : ∀ v ∈ cell.parts, v.Below core.size) :
    Embeds ρ (core.set ref cell) (heap.set (ρ ref) (cell.rename ρ)) := by
  constructor
  · intro a other here v part
    rw [size_set]
    rw [get?_set _ _ _ _ inside] at here
    split at here
    · cases here
      exact below v part
    · exact embeds.closed a other here v part
  · intro a other here
    rw [get?_set _ _ _ _ inside] at here
    rw [get?_set _ _ _ _ (embeds.lt_size inside)]
    split at here
    next same =>
      cases here
      rw [same, if_pos rfl]
    next differs =>
      have there := lt_size_of_get? here
      rw [if_neg (mt (embeds.eq_iff there inside).mp differs), embeds.cells a other here]
  · rw [size_set]
    exact embeds.injective
  · rw [size_set, size_set]
    exact embeds.fresh

theorem newList (embeds : Embeds ρ core heap) {items : Array Value}
    (below : ∀ v ∈ items.toList, v.Below core.size) :
    Value.Image ρ (core.newList items).2.size (core.newList items).1
        (heap.newList (items.map (Value.rename ρ))).1 ∧
      Embeds ρ (core.newList items).2 (heap.newList (items.map (Value.rename ρ))).2 := by
  have grown := @Embeds.alloc _ _ _ embeds (.list items) below
  refine ⟨⟨?_, ?_⟩, grown⟩
  · show Value.Below (core.alloc (.list items)).2.size (.list core.size)
    rw [size_alloc, Value.below_list]
    exact Nat.lt_succ_self _
  · show Value.list heap.size = Value.list (ρ core.size)
    rw [embeds.next]

theorem newMap (embeds : Embeds ρ core heap) {entries : Bindings Value}
    (below : ∀ entry ∈ entries, entry.2.Below core.size) :
    Value.Image ρ (core.newMap entries).2.size (core.newMap entries).1
        (heap.newMap (entries.rename ρ)).1 ∧
      Embeds ρ (core.newMap entries).2 (heap.newMap (entries.rename ρ)).2 := by
  have parts : ∀ v ∈ (Cell.map entries).parts, v.Below core.size := by
    intro v part
    obtain ⟨entry, member, rfl⟩ := List.mem_map.mp part
    exact below entry member
  have grown := embeds.alloc parts
  refine ⟨⟨?_, ?_⟩, grown⟩
  · show Value.Below (core.alloc (.map entries)).2.size (.map core.size)
    rw [size_alloc, Value.below_map]
    exact Nat.lt_succ_self _
  · show Value.map heap.size = Value.map (ρ core.size)
    rw [embeds.next]

theorem newInst (embeds : Embeds ρ core heap) (className : Name) :
    Value.Image ρ (core.newInst className []).2.size (core.newInst className []).1
        (heap.newInst className []).1 ∧
      Embeds ρ (core.newInst className []).2 (heap.newInst className []).2 := by
  have grown := @Embeds.alloc _ _ _ embeds (.inst className []) (fun _ member => nomatch member)
  refine ⟨⟨?_, ?_⟩, grown⟩
  · show Value.Below (core.alloc (.inst className [])).2.size (.inst core.size)
    rw [size_alloc, Value.below_inst]
    exact Nat.lt_succ_self _
  · show Value.inst heap.size = Value.inst (ρ core.size)
    rw [embeds.next]

end Embeds

end Heap

end Stepwise
