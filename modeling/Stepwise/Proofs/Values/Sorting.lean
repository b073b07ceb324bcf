import Mathlib.Data.List.Sort
import Mathlib.Data.String.Basic
import Mathlib.Data.Sum.Order
import Stepwise.Builtin
import Stepwise.Engine
import Stepwise.Proofs.Values.Accesses

/-!
Sorting. Numbers come first, everything else goes by its text, and what has one key keeps its order:
`sort_stable`. The keys are found while the list is emptied; no element sees that, as none leads to the
list it is in.
-/
namespace Stepwise

/-- The last of two assignments to a cell counts. -/
theorem Heap.set_set (heap : Heap) (ref : Ref) (first second : Cell) :
    (heap.set ref first).set ref second = heap.set ref second := by
  simp [set]

namespace Value

/-- What a value is sorted by: a number by itself, ahead of all texts, and any other value by the text
shown. -/
inductive Ranked (heap : Heap) : Value → Int ⊕ₗ String → Prop where
  | number (n : Int) : Ranked heap (.int n) (Sum.inlₗ n)
  | text {v : Value} {s : String} : (∀ n, v ≠ .number n) → display heap v = .ok s →
      Ranked heap v (Sum.inrₗ s)

/-- A value that would be sorted by its text, which is too long to be written. -/
def Unshown (heap : Heap) (v : Value) : Prop := (∀ n, v ≠ .number n) ∧ display heap v = tooLarge

/-- A list none of whose elements contains itself is not inside its elements. -/
theorem apart_of_showable {heap : Heap} {ref : Ref} {v : Value} (inside : v ∈ heap.partsAt ref)
    (ok : Showable heap v) : ¬ heap.Reaches [v] ref := fun reached =>
  ok.acyclic ref reached (reached.through fun _ refers => .root inside refers)

/-- Such an element does not see what becomes of the list. -/
theorem display_set {heap : Heap} {ref : Ref} {v : Value} (inside : v ∈ heap.partsAt ref)
    (ok : Showable heap v) (cell : Cell) : display (heap.set ref cell) v = display heap v := by
  cases here : heap.get? ref with
  | none => simp [Heap.partsAt, here] at inside
  | some old =>
    have agrees := Heap.agreesBut_set here cell
    exact display_congr agrees.size fun other reached =>
      agrees.others other fun same => apart_of_showable inside ok (same ▸ reached)

end Value

namespace Prelude

open Value

abbrev Rank := Int ⊕ₗ String

/-- The key that stands for a rank. -/
def Rank.key (r : Rank) : SortKey :=
  match ofLex r with
  | .inl n => .number (.int n)
  | .inr s => .text s

theorem Rank.lt_key (a b : Rank) : a.key.lt b.key = true ↔ a < b := by
  rcases a with m | s <;> rcases b with n | t
  · refine Iff.trans ?_ Sum.Lex.inl_lt_inl_iff.symm
    change (compare m n == .lt) = true ↔ m < n
    rw [beq_iff_eq, compare_lt_iff_lt]
  · exact iff_of_true rfl (Sum.Lex.inl_lt_inr m t)
  · exact iff_of_false Bool.false_ne_true Sum.Lex.not_inr_lt_inl
  · refine Iff.trans ?_ Sum.Lex.inr_lt_inr_iff.symm
    exact decide_eq_true_iff

theorem Rank.isOrdered_key (r : Rank) : r.key.isOrdered = true := by
  rcases r with n | s
  · change (Number.int n).eq (.int n) = true
    simp [Number.eq, Number.compare?]
  · rfl

/-- Ranked values in the order of their ranks. -/
def inRank (a b : Rank × Value) : Bool := a.1 ≤ b.1

theorem inRank_trans (a b c : Rank × Value) (first : inRank a b = true) (second : inRank b c = true) :
    inRank a c = true := by
  simp only [inRank, decide_eq_true_eq] at *
  exact first.trans second

theorem inRank_total (a b : Rank × Value) : (inRank a b || inRank b a) = true := by
  simp only [inRank, Bool.or_eq_true, decide_eq_true_eq]
  exact le_total a.1 b.1

def keyed (entry : Rank × Value) : SortKey × Value := (entry.1.key, entry.2)

/-- Sorting by keys is sorting by ranks. -/
theorem sortByKey_keyed (ranked : List (Rank × Value)) :
    sortByKey (ranked.map keyed) = (ranked.mergeSort inRank).map keyed := by
  have ordered : ((ranked.map keyed).all fun entry => entry.1.isOrdered) = true := by
    simp [keyed, Rank.isOrdered_key]
  rw [sortByKey, if_pos ordered]
  refine (List.map_mergeSort fun a _ b _ => ?_).symm
  rw [Bool.eq_iff_iff, Bool.not_eq_true', ← Bool.not_eq_true]
  exact (decide_eq_true_iff.trans not_lt.symm).trans (not_congr (Rank.lt_key b.1 a.1)).symm

/-- A stable sort lists the positions of what it sorts in another order. -/
theorem mergeSort_positions (ranked : List (Rank × Value)) :
    ∃ order : List Nat, order.Perm (List.range ranked.length) ∧
      order.map (fun i => ranked[i]?) = (ranked.mergeSort inRank).map some ∧
      order.Pairwise fun i j => ∃ a b, ranked[i]? = some a ∧ ranked[j]? = some b ∧
        (a.1 < b.1 ∨ a.1 = b.1 ∧ i < j) := by
  let placed := ranked.zipIdx.mergeSort (List.zipIdxLE inRank)
  have perm : placed.Perm ranked.zipIdx := List.mergeSort_perm _ _
  have found : ∀ entry ∈ placed, ranked[entry.2]? = some entry.1 := fun entry member =>
    List.mem_zipIdx_iff_getElem?.mp (perm.mem_iff.mp member)
  have positions : (placed.map Prod.snd).Perm (List.range ranked.length) := by
    have all := perm.map Prod.snd
    rwa [List.zipIdx_map_snd, ← List.range_eq_range'] at all
  have sorted : placed.Pairwise fun a b => List.zipIdxLE inRank a b = true :=
    List.pairwise_mergeSort (List.zipIdxLE_trans inRank_trans) (List.zipIdxLE_total inRank_total) _
  have distinct : placed.Pairwise fun a b => a.2 ≠ b.2 :=
    List.pairwise_map.mp (positions.nodup_iff.mpr List.nodup_range)
  refine ⟨placed.map Prod.snd, positions, ?_, List.pairwise_map.mpr ?_⟩
  · rw [← List.mergeSort_zipIdx, List.map_map, List.map_map]
    exact List.map_congr_left found
  · refine List.Pairwise.imp_of_mem ?_ (sorted.and distinct)
    rintro a b memberA memberB ⟨le, apart⟩
    refine ⟨a.1, b.1, found a memberA, found b memberB, ?_⟩
    by_cases back : inRank b.1 a.1 = true
    · have forth : inRank a.1 b.1 = true := by
        unfold List.zipIdxLE at le
        split at le
        next forth => exact forth
        next => cases le
      simp only [List.zipIdxLE, forth, back, if_true, decide_eq_true_eq] at le
      simp only [inRank, decide_eq_true_eq] at forth back
      exact .inr ⟨le_antisymm forth back, by omega⟩
    · simp only [inRank, decide_eq_true_eq, not_le] at back
      exact .inl back

/-- The keys of some values, if each of them has one. -/
theorem mapM_sortKey {heap emptied : Heap} {items : List Value}
    (each : ∀ v ∈ items, (∃ r : Rank, Ranked heap v r ∧ sortKey emptied v = .ok r.key) ∨
      Unshown heap v ∧ sortKey emptied v = tooLarge) :
    (∃ ranked : List (Rank × Value), ranked.map Prod.snd = items ∧
      ∀ entry ∈ ranked, Ranked heap entry.2 entry.1 ∧ sortKey emptied entry.2 = .ok entry.1.key) ∨
    (∃ v ∈ items, Unshown heap v) ∧
      (items.mapM fun v => do return (← sortKey emptied v, v)) = tooLarge := by
  induction items with
  | nil => exact .inl ⟨[], rfl, nofun⟩
  | cons v items ih =>
    rcases each v (.head _) with ⟨r, rank, key⟩ | ⟨unshown, failed⟩
    · rcases ih fun w member => each w (.tail _ member) with
        ⟨ranked, rfl, ranks⟩ | ⟨⟨w, member, unshown⟩, failed⟩
      · exact .inl ⟨(r, v) :: ranked, rfl, List.forall_mem_cons.mpr ⟨⟨rank, key⟩, ranks⟩⟩
      · refine .inr ⟨⟨w, .tail _ member, unshown⟩, ?_⟩
        rw [List.mapM_cons, key, failed]
        rfl
    · refine .inr ⟨⟨v, .head _, unshown⟩, ?_⟩
      rw [List.mapM_cons, failed]
      rfl

theorem mapM_keyed {emptied : Heap} {ranked : List (Rank × Value)}
    (keys : ∀ entry ∈ ranked, sortKey emptied entry.2 = .ok entry.1.key) :
    ((ranked.map Prod.snd).mapM fun v => do return (← sortKey emptied v, v)) =
      .ok (ranked.map keyed) := by
  induction ranked with
  | nil => rfl
  | cons entry ranked ih =>
    rw [List.map_cons, List.mapM_cons, keys entry (.head _), ih fun e member => keys e (.tail _ member)]
    rfl

section

variable {heap : Heap} {ref : Ref} {items : Array Value}

theorem sort_eq (here : heap.get? ref = some (.list items)) : sort heap [.list ref] = do
    let keyed ← items.toList.mapM fun v => do
      return (← sortKey (heap.set ref (.list #[])) v, v)
    return (.null, heap.set ref (.list ((sortByKey keyed).map Prod.snd).toArray)) := by
  have known : heap.items ref = items := Heap.items_of_get? here
  rw [← known]
  rfl

/-- Values that have ranks are sorted by them. -/
theorem sort_ranked {ranked : List (Rank × Value)}
    (here : heap.get? ref = some (.list (ranked.map Prod.snd).toArray))
    (keys : ∀ entry ∈ ranked, sortKey (heap.set ref (.list #[])) entry.2 = .ok entry.1.key) :
    sort heap [.list ref] =
      .ok (.null, heap.set ref (.list ((ranked.mergeSort inRank).map Prod.snd).toArray)) := by
  have values : ((ranked.mergeSort inRank).map keyed).map Prod.snd =
      (ranked.mergeSort inRank).map Prod.snd := by
    rw [List.map_map]
    rfl
  rw [sort_eq here, mapM_keyed keys]
  show Except.ok _ = _
  rw [sortByKey_keyed, values]

/-- Sorted values are left as they are. -/
theorem sort_again {ranked : List (Rank × Value)} (here : heap.get? ref = some (.list items))
    (keys : ∀ entry ∈ ranked, sortKey (heap.set ref (.list #[])) entry.2 = .ok entry.1.key) :
    let later := heap.set ref (.list ((ranked.mergeSort inRank).map Prod.snd).toArray)
    sort later [.list ref] = .ok (.null, later) := by
  intro later
  have now : later.get? ref = some (.list ((ranked.mergeSort inRank).map Prod.snd).toArray) :=
    Heap.get?_set_self here _
  have again := sort_ranked now fun entry member => by
    rw [Heap.set_set]
    exact keys entry (List.mem_mergeSort.mp member)
  have settled : (ranked.mergeSort inRank).mergeSort inRank = ranked.mergeSort inRank :=
    List.mergeSort_of_pairwise (List.pairwise_mergeSort inRank_trans inRank_total ranked)
  rw [settled, Heap.set_set] at again
  exact again

/-- The sorted values by the positions that they had. -/
theorem exists_order {ranked : List (Rank × Value)} (values : ranked.map Prod.snd = items.toList)
    (ranks : ∀ entry ∈ ranked, Ranked heap entry.2 entry.1) :
    ∃ order : List Nat, order.Perm (List.range items.size) ∧
      (ranked.mergeSort inRank).map Prod.snd = order.map (items.getD · .null) ∧
      order.Pairwise fun i j => ∃ r s, Ranked heap (items.getD i .null) r ∧
        Ranked heap (items.getD j .null) s ∧ (r < s ∨ r = s ∧ i < j) := by
  have size : ranked.length = items.size := by
    have count := congrArg List.length values
    rwa [List.length_map, Array.length_toList] at count
  have element : ∀ i, items.getD i .null = (ranked[i]?.map Prod.snd).getD .null := fun i => by
    rw [Array.getD_eq_getD_getElem?, ← Array.getElem?_toList, ← values, List.getElem?_map]
  obtain ⟨order, positions, listed, ascends⟩ := mergeSort_positions ranked
  refine ⟨order, size ▸ positions, ?_, ascends.imp ?_⟩
  · have shown := congrArg (List.map fun found => (found.map Prod.snd).getD .null) listed
    rw [List.map_map, List.map_map] at shown
    exact shown.symm.trans (List.map_congr_left fun i _ => (element i).symm)
  · rintro i j ⟨a, b, first, second, before⟩
    rw [element, element, first, second]
    exact ⟨a.1, b.1, ranks a (List.mem_of_getElem? first), ranks b (List.mem_of_getElem? second),
      before⟩

/-- What an element is sorted by is found as well while the list is empty. -/
theorem sortKey_emptied (here : heap.get? ref = some (.list items)) {v : Value} (inside : v ∈ items)
    (whole : ∀ x, v ≠ .number (.float x)) (ok : Showable heap v) :
    (∃ r : Rank, Ranked heap v r ∧ sortKey (heap.set ref (.list #[])) v = .ok r.key) ∨
      Unshown heap v ∧ sortKey (heap.set ref (.list #[])) v = tooLarge := by
  have part : v ∈ heap.partsAt ref := by
    rw [Heap.partsAt, here]
    exact Array.mem_def.mp inside
  have shown := display_set part ok (.list #[])
  by_cases number : ∃ n, v = .number n
  · obtain ⟨n | x, rfl⟩ := number
    · exact .inl ⟨_, .number n, rfl⟩
    · exact absurd rfl (whole x)
  · have other : ∀ n, v ≠ .number n := fun n same => number ⟨n, same⟩
    have key : sortKey (heap.set ref (.list #[])) v = do return .text (← display heap v) := by
      rw [← shown]
      unfold sortKey
      split
      next n => exact absurd rfl (other n)
      next => rfl
    rcases display_ends ok with ⟨s, text⟩ | failed
    · exact .inl ⟨_, .text other text, by rw [key, text]; rfl⟩
    · exact .inr ⟨⟨other, failed⟩, by rw [key, failed]; rfl⟩

end

end Prelude

namespace Value

open Prelude (Rank inRank sort_ranked sortKey_emptied)

/-- A list without floats is sorted in place by its ranks, and what has the same rank keeps its order:
the elements stand in an order of their old positions that ascends by rank, and by position where the
ranks are equal. Sorting it once more changes nothing. If some element has no text that can be written,
the list is left as it was. -/
theorem sort_stable {engine : Engine} {name : Name} {ref : Ref} {items : Array Value}
    (called : Builtin.ofName? name = some .sort)
    (here : engine.heap.get? ref = some (.list items))
    (whole : ∀ x, .number (.float x) ∉ items) (showable : ∀ v ∈ items, Showable engine.heap v) :
    (∃ v ∈ items, Unshown engine.heap v) ∧
      engine.callBuiltin name [.list ref] = (tooLarge, engine) ∨
    (∀ v ∈ items, ∃ r, Ranked engine.heap v r) ∧ ∃ (order : List Nat) (sorted : List Value),
      order.Perm (List.range items.size) ∧ sorted = order.map (items.getD · .null) ∧
      sorted.Perm items.toList ∧
      (order.Pairwise fun i j => ∃ r s, Ranked engine.heap (items.getD i .null) r ∧
        Ranked engine.heap (items.getD j .null) s ∧ (r < s ∨ r = s ∧ i < j)) ∧
      let later : Engine := { engine with
        world := engine.world.withHeap (engine.heap.set ref (.list sorted.toArray)) }
      engine.callBuiltin name [.list ref] = (.ok .null, later) ∧
        later.callBuiltin name [.list ref] = (.ok .null, later) := by
  have each := fun v (member : v ∈ items.toList) =>
    sortKey_emptied here (Array.mem_def.mpr member) (fun x same => whole x (same ▸ Array.mem_def.mpr member))
      (showable v (Array.mem_def.mpr member))
  rcases Prelude.mapM_sortKey each with ⟨ranked, values, ranks⟩ | ⟨⟨v, member, unshown⟩, failed⟩
  · have keys := fun entry member => (ranks entry member).2
    obtain ⟨order, positions, listed, ascends⟩ :=
      Prelude.exists_order values fun entry member => (ranks entry member).1
    refine .inr ⟨fun v member => ?_, order, (ranked.mergeSort inRank).map Prod.snd, positions, listed,
      ?_, ascends, ?_, ?_⟩
    · rw [Array.mem_def, ← values] at member
      obtain ⟨entry, inside, rfl⟩ := List.mem_map.mp member
      exact ⟨entry.1, (ranks entry inside).1⟩
    · rw [← values]
      exact (List.mergeSort_perm ranked inRank).map Prod.snd
    · have here : engine.heap.get? ref = some (.list (ranked.map Prod.snd).toArray) := by
        rw [here, values, Array.toArray_toList]
      exact Engine.callBuiltin_of_ok called (Builtin.changing_of_ok (sort_ranked here keys))
    · exact Engine.callBuiltin_of_ok called
        (Builtin.changing_of_ok (Prelude.sort_again here keys))
  · refine .inl ⟨⟨v, Array.mem_def.mpr member, unshown⟩, ?_⟩
    refine Engine.callBuiltin_of_error called (Builtin.changing_of_error ?_)
    change Prelude.sort engine.heap [.list ref] = _
    rw [Prelude.sort_eq here, failed]
    rfl

/-- Numbers, texts and a list, which is sorted by its text. -/
theorem sort_stable_mixed :
    let items : Array Value := #[.text "b", .int 2, .list 1, .int 1]
    let engine : Engine := { maxSteps := 1, maxCallDepth := 1,
                             world := { heap := ⟨#[.list items, .list #[.text "a"]]⟩ } }
    ∃ sorted : List Value, sorted.Perm items.toList ∧
      engine.callBuiltin "sort" [.list 0] = (.ok .null, { engine with
        world := engine.world.withHeap (engine.heap.set 0 (.list sorted.toArray)) }) := by
  intro items engine
  have showable : ∀ v ∈ items, Showable engine.heap v := by
    have inner : Showable engine.heap (.list 1) := by
      refine .build rfl rfl (fun w member => ?_) nofun
      cases List.mem_singleton.mp member
      exact .scalar rfl
    simp only [items, Array.mem_def, List.forall_mem_cons]
    exact ⟨.scalar rfl, .scalar rfl, inner, .scalar rfl, nofun⟩
  have whole : ∀ x, Value.number (.float x) ∉ items := by simp [items, Value.int]
  have called : Builtin.ofName? "sort" = some .sort := rfl
  have here : engine.heap.get? 0 = some (.list items) := rfl
  rcases sort_stable called here whole showable with
    ⟨⟨v, member, other, unshown⟩, -⟩ | ⟨-, order, sorted, -, -, perm, -, done, -⟩
  · simp only [items, Array.mem_def, List.mem_cons, List.not_mem_nil, or_false] at member
    rcases member with rfl | rfl | rfl | rfl
    · cases unshown
    · exact absurd rfl (other _)
    · cases unshown
    · exact absurd rfl (other _)
  · exact ⟨sorted, perm, done⟩

end Value

end Stepwise
