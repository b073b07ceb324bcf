import Stepwise.Value.Access

/-!
Slices of lists and texts. A slice holds what stands between two positions of the sequence, whatever
integers its bounds are: `slices_exact`.
-/
namespace Stepwise

/-- The elements at the positions from `lo` up to, and without, `hi`. -/
def between {α : Type} (lo hi : Nat) (xs : List α) : List α :=
  (xs.zipIdx.filter fun entry => lo ≤ entry.2 ∧ entry.2 < hi).map Prod.fst

theorem between_from {α : Type} (lo hi : Nat) (xs : List α) (k : Nat) :
    ((xs.zipIdx k).filter fun entry => lo ≤ entry.2 ∧ entry.2 < hi).map Prod.fst =
      (xs.take (hi - k)).drop (lo - k) := by
  induction xs generalizing k with
  | nil => simp
  | cons x xs ih =>
    rw [List.zipIdx_cons, List.filter_cons]
    by_cases below : k < hi
    · have taken : hi - k = hi - (k + 1) + 1 := by omega
      rw [taken, List.take_succ_cons]
      by_cases reached : lo ≤ k
      · have here : lo - k = 0 := by omega
        have later : lo - (k + 1) = 0 := by omega
        rw [if_pos (by simp [below, reached]), List.map_cons, ih, here, later]
        rfl
      · have here : lo - k = lo - (k + 1) + 1 := by omega
        rw [if_neg (by simp [reached]), ih, here, List.drop_succ_cons]
    · have here : hi - k = 0 := by omega
      have later : hi - (k + 1) = 0 := by omega
      rw [if_neg (by simp [below]), ih, here, later]
      simp

theorem between_eq {α : Type} (lo hi : Nat) (xs : List α) :
    between lo hi xs = (xs.take hi).drop lo := between_from lo hi xs 0

theorem between_empty {α : Type} {lo hi : Nat} (le : hi ≤ lo) (xs : List α) :
    between lo hi xs = [] := by
  rw [between_eq]
  exact List.drop_eq_nil_of_le (Nat.le_trans (List.length_take_le hi xs) le)

theorem getElem?_between {α : Type} {lo hi i : Nat} (inside : i < hi - lo) (xs : List α) :
    (between lo hi xs)[i]? = xs[lo + i]? := by
  rw [between_eq, List.getElem?_drop, List.getElem?_take_of_lt (by omega)]

namespace Value

/-- The items of a list, or the characters of a text as texts of their own. -/
def sequence? (heap : Heap) : Value → Option (List Value)
  | .list ref =>
    match heap.get? ref with
    | some (.list items) => some items.toList
    | _ => none
  | .text s => some (s.toList.map fun c => .text (String.ofList [c]))
  | _ => none

/-- A bound of a slice; null where there is none. -/
def bound : Option Int → Value
  | none => .null
  | some k => .int k

/-- The position that a bound stands for among `n` elements, cut to lie between none and all of
them. A negative one counts from the end. -/
def position (n default : Nat) : Option Int → Nat
  | none => default
  | some k => (min (max 0 (if k < 0 then n + k else k)) n).toNat

theorem clamp_bound (n default : Nat) (b : Option Int) :
    clamp n default (bound b) = .ok (position n default b) := by
  cases b with
  | none => rfl
  | some k =>
    change Except.ok _ = Except.ok _
    congr 1
    unfold position
    dsimp only
    split <;> omega

/-- Counting from the end or from the start makes no difference. -/
theorem clamp_from_end {n : Nat} {k : Int} (low : 1 ≤ k) (high : k ≤ n) (default : Nat) :
    clamp n default (.int (-k)) = clamp n default (.int (n - k)) := by
  have behind := clamp_bound n default (some (-k))
  have front := clamp_bound n default (some (n - k))
  refine behind.trans (.trans ?_ front.symm)
  congr 1
  unfold position
  dsimp only
  split <;> split <;> omega

variable {heap : Heap} {v : Value} {items : List Value}

theorem sequence_cases (sequence : v.sequence? heap = some items) :
    (∃ ref, v = .list ref ∧ heap.get? ref = some (.list items.toArray)) ∨
      ∃ s : String, v = .text s ∧ items = s.toList.map fun c => .text (String.ofList [c]) := by
  unfold sequence? at sequence
  split at sequence
  next ref =>
    split at sequence
    next here =>
      cases sequence
      exact .inl ⟨ref, rfl, here⟩
    next => cases sequence
  next s =>
    cases sequence
    exact .inr ⟨s, rfl, rfl⟩
  next => cases sequence

theorem resolve_int {what : String} {n : Nat} {i : Nat} (inside : i < n) :
    resolve heap what n (.int i) = .ok i := by
  have low : ¬ (i : Int) < 0 := by omega
  have high : (i : Int) < n := by omega
  simp [resolve, Value.int, Number.whole?, low, high]

/-- Indexing gives the element at a position. -/
theorem getIndex_sequence (sequence : v.sequence? heap = some items) {i : Nat}
    (inside : i < items.length) : getIndex heap v (.int i) = .ok items[i] := by
  rcases sequence_cases sequence with ⟨ref, rfl, here⟩ | ⟨s, rfl, rfl⟩
  · have known : heap.items ref = items.toArray := by simp [Heap.items, here]
    have found : resolve heap "List" items.toArray.size (.int i) = .ok i := resolve_int inside
    unfold getIndex
    dsimp only
    rw [known, found]
    change Except.ok _ = Except.ok _
    simp [Array.getD, inside]
  · rw [List.length_map] at inside
    have found : resolve heap "String" s.toList.length (.int i) = .ok i := resolve_int inside
    have single : (s.toList.drop i).take 1 = [s.toList[i]] := by
      rw [List.drop_eq_getElem_cons inside]
      rfl
    unfold getIndex
    dsimp only
    rw [found]
    change Except.ok _ = Except.ok _
    rw [single, List.getElem_map]

/-- Everything stays where it is. -/
def Keeps (heap later : Heap) : Prop :=
  ∀ ref cell, heap.get? ref = some cell → later.get? ref = some cell

theorem keeps_newList (heap : Heap) (items : Array Value) : Keeps heap (heap.newList items).2 := by
  intro ref cell here
  have older : ref ≠ heap.size := by
    rintro rfl
    simp [Heap.get?, Heap.size] at here
  exact (heap.get?_alloc (.list items) ref).trans (by rw [if_neg older, here])

theorem sequence_newList (heap : Heap) (items : Array Value) :
    (heap.newList items).1.sequence? (heap.newList items).2 = some items.toList := by
  have here := heap.get?_alloc (.list items) heap.size
  rw [if_pos rfl] at here
  change (match (heap.alloc (.list items)).2.get? heap.size with
    | some (.list items) => some items.toList
    | _ => none) = some items.toList
  rw [here]

/-- A slice of a sequence is a sequence of the same kind, with nothing else changed. -/
theorem slice_bounds (sequence : v.sequence? heap = some items) (first last : Option Int) :
    ∃ w later, slice heap v (bound first) (bound last) = .ok (w, later) ∧ Keeps heap later ∧
      w.typeName later = v.typeName heap ∧ w.sequence? later =
        some (between (position items.length 0 first) (position items.length items.length last)
          items) := by
  rcases sequence_cases sequence with ⟨ref, rfl, here⟩ | ⟨s, rfl, rfl⟩
  · have known : heap.items ref = items.toArray := by simp [Heap.items, here]
    let part := items.toArray.extract (position items.length 0 first)
      (position items.length items.length last)
    refine ⟨(heap.newList part).1, (heap.newList part).2, ?_, keeps_newList heap part, rfl, ?_⟩
    · unfold slice
      dsimp only
      rw [known, List.size_toArray, clamp_bound, clamp_bound]
      rfl
    · rw [sequence_newList, between_eq, Array.toList_extract, List.extract_eq_take_drop]
      exact congrArg some List.drop_take.symm
  · refine ⟨.text (String.ofList ((s.toList.take (position s.toList.length s.toList.length last)).drop
      (position s.toList.length 0 first))), heap, ?_, fun _ _ here => here, rfl, ?_⟩
    · unfold slice
      dsimp only
      rw [clamp_bound, clamp_bound]
      rfl
    · rw [between_eq, List.length_map, ← List.map_take, ← List.map_drop]
      change some _ = some _
      rw [String.toList_ofList]

theorem Keeps.trans {later last : Heap} (first : Keeps heap later) (second : Keeps later last) :
    Keeps heap last := fun ref cell here => second ref cell (first ref cell here)

/-- A sequence holds the same elements as long as everything stays where it is. -/
theorem Keeps.sequence {later : Heap} (keeps : Keeps heap later)
    (sequence : v.sequence? heap = some items) : v.sequence? later = some items := by
  rcases sequence_cases sequence with ⟨ref, rfl, here⟩ | ⟨s, rfl, rfl⟩
  · simp [sequence?, keeps ref _ here]
  · rfl

/-- What stands in front of a bound and what stands behind it is everything. -/
theorem between_split (k : Int) (items : List Value) :
    between 0 (position items.length items.length (some k)) items ++
      between (position items.length 0 (some k)) items.length items = items := by
  rw [between_eq, between_eq, List.drop_zero, List.take_length]
  exact List.take_append_drop (position items.length 0 (some k)) items

/-- For a list or a text with `n` elements: a slice between any integers, or without a bound, is never
a fault, and holds the elements between the positions that the bounds stand for; two slices that meet at
a bound make up the whole; and a bound that counts from the end may as well count from the start. -/
theorem slices_exact (sequence : v.sequence? heap = some items) :
    (∀ first last : Option Int,
      let lo := position items.length 0 first
      let hi := position items.length items.length last
      ∃ w later, slice heap v (bound first) (bound last) = .ok (w, later) ∧ Keeps heap later ∧
        w.typeName later = v.typeName heap ∧ w.sequence? later = some (between lo hi items) ∧
        (hi ≤ lo → w.sequence? later = some []) ∧
        ∀ i : Nat, i < hi - lo → getIndex later w (.int i) = getIndex heap v (.int (lo + i : Nat))) ∧
    (∀ k : Int, ∃ x later y last front back,
      slice heap v (bound none) (bound (some k)) = .ok (x, later) ∧
      slice later v (bound (some k)) (bound none) = .ok (y, last) ∧
      x.sequence? last = some front ∧ y.sequence? last = some back ∧ front ++ back = items) ∧
    ∀ k : Int, 1 ≤ k → k ≤ items.length → ∀ other : Value,
      slice heap v (.int (-k)) other = slice heap v (.int (items.length - k)) other ∧
        slice heap v other (.int (-k)) = slice heap v other (.int (items.length - k)) := by
  refine ⟨fun first last => ?_, fun k => ?_, fun k low high other => ?_⟩
  · obtain ⟨w, later, sliced, keeps, kind, part⟩ := slice_bounds sequence first last
    refine ⟨w, later, sliced, keeps, kind, part, fun empty => ?_, fun i inside => ?_⟩
    · rw [part, between_empty empty]
    · have found := getElem?_between inside items
      have within : position items.length 0 first + i < items.length := by
        have cut : position items.length items.length last ≤ items.length := by
          unfold position
          split <;> omega
        omega
      rw [List.getElem?_eq_getElem within] at found
      obtain ⟨inPart, same⟩ := List.getElem?_eq_some_iff.mp found
      rw [getIndex_sequence part inPart, getIndex_sequence sequence within, same]
  · obtain ⟨x, later, sliced, keeps, -, front⟩ := slice_bounds sequence none (some k)
    obtain ⟨y, last, sliced', keeps', -, back⟩ :=
      slice_bounds (keeps.sequence sequence) (some k) none
    exact ⟨x, later, y, last, _, _, sliced, sliced', keeps'.sequence front, back,
      between_split k items⟩
  · rcases sequence_cases sequence with ⟨ref, rfl, here⟩ | ⟨s, rfl, rfl⟩
    · have known : heap.items ref = items.toArray := by simp [Heap.items, here]
      have same := clamp_from_end low high
      constructor
      · simp only [slice, known, List.size_toArray, same]
      · simp only [slice, known, List.size_toArray, same]
    · rw [List.length_map] at high ⊢
      have same := clamp_from_end low high
      constructor
      · simp only [slice, same]
      · simp only [slice, same]

/-- A list of three, from its second element on to a bound that is out of reach. -/
theorem slices_exact_tail :
    (list 0).sequence? ⟨#[.list #[.int 5, .int 6, .int 7]]⟩ = some [.int 5, .int 6, .int 7] ∧
      ∃ w later, slice ⟨#[.list #[.int 5, .int 6, .int 7]]⟩ (.list 0) (.int (-2)) (.int 9) =
          .ok (w, later) ∧ w.sequence? later = some [.int 6, .int 7] := by
  have three : (list 0).sequence? ⟨#[.list #[.int 5, .int 6, .int 7]]⟩ =
      some [.int 5, .int 6, .int 7] := rfl
  obtain ⟨w, later, sliced, -, -, part, -⟩ := (slices_exact three).1 (some (-2)) (some 9)
  exact ⟨three, w, later, sliced, part⟩

end Value

end Stepwise
