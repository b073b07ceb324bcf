import Stepwise.Runs

/-!
Sorting by runs looks at items only through the comparison. Hence it commutes with every map that
keeps the comparison, and gives nothing that was not there.
-/
namespace Stepwise.Runs

variable {α β : Type} (f : α → β) (lt : β → β → Bool)

theorem bisect_map (side : Side) (leads : β → Bool) (items : List α) (low high : Nat) :
    bisect side leads (items.map f) low high = bisect side (fun x => leads (f x)) items low high := by
  fun_induction bisect side (fun x => leads (f x)) items low high with
  | case1 low high inside middle found ih =>
    rw [bisect, if_pos inside]
    simp only [List.getElem?_map, Option.any_map]
    exact (if_pos found).trans ih
  | case2 low high inside middle missing ih =>
    rw [bisect, if_pos inside]
    simp only [List.getElem?_map, Option.any_map]
    exact (if_neg missing).trans ih
  | case3 low high outside => rw [bisect, if_neg outside]

theorem stride_map (leads : β → Bool) (items : List α) (last next : Nat) :
    stride leads (items.map f) last next = stride (fun x => leads (f x)) items last next := by
  fun_induction stride (fun x => leads (f x)) items last next with
  | case1 last next inside found ih =>
    rw [stride, dif_pos (by simpa using inside)]
    simp only [List.getElem_map]
    rw [if_pos found, ih]
  | case2 last next inside missing =>
    rw [stride, dif_pos (by simpa using inside)]
    simp only [List.getElem_map]
    rw [if_neg missing]
  | case3 last next outside => rw [stride, dif_neg (by simpa using outside), List.length_map]

theorem leading_map (side : Side) (leads : β → Bool) (items : List α) :
    leading side leads (items.map f) = leading side (fun x => leads (f x)) items := by
  cases items with
  | nil => rfl
  | cons x rest =>
    rw [List.map_cons, leading, leading, ← List.map_cons, stride_map]
    simp only [bisect_map]

namespace Merging

def map (m : Merging α) : Merging β := ⟨m.first.map f, m.second.map f, m.merged.map f⟩

theorem isOver_map (m : Merging α) : (m.map f).isOver = m.isOver := by
  obtain ⟨first, second, merged⟩ := m
  rcases first with _ | ⟨x, _ | ⟨y, rest⟩⟩ <;> cases second <;> rfl

theorem result_map (m : Merging α) : (m.map f).result = m.result.map f := by
  obtain ⟨first, second, merged⟩ := m
  rcases first with _ | ⟨x, _ | ⟨y, rest⟩⟩ <;> simp [result, map]

theorem takeFirst_map (m : Merging α) (n : Nat) : (m.map f).takeFirst n = (m.takeFirst n).map f := by
  simp [takeFirst, map]

theorem takeSecond_map (m : Merging α) (n : Nat) :
    (m.map f).takeSecond n = (m.takeSecond n).map f := by
  simp [takeSecond, map]

end Merging

/-- The comparison of items by their images. -/
abbrev through (a b : α) : Bool := lt (f a) (f b)

theorem yields_map (side : Side) (x y : α) :
    yields side lt (f x) (f y) = yields side (through f lt) x y := by
  cases side <;> rfl

theorem passFirst_map (side : Side) (m : Merging α) :
    passFirst side lt (m.map f) = Prod.map id (Merging.map f) (passFirst side (through f lt) m) := by
  have second : (m.map f).second = m.second.map f := rfl
  have first : (m.map f).first = m.first.map f := rfl
  unfold passFirst
  rw [Merging.isOver_map, second, first]
  cases m.isOver with
  | true => rfl
  | false =>
    cases m.second with
    | nil => rfl
    | cons y rest =>
      simp only [List.map_cons, leading_map, yields_map, Merging.takeFirst_map, Merging.isOver_map,
        Merging.takeSecond_map, Prod.map, id]
      split <;> rfl

theorem passSecond_map (side : Side) (m : Merging α) :
    passSecond side lt (m.map f) =
      Prod.map id (Merging.map f) (passSecond side (through f lt) m) := by
  have second : (m.map f).second = m.second.map f := rfl
  have first : (m.map f).first = m.first.map f := rfl
  unfold passSecond
  rw [Merging.isOver_map, second, first]
  cases m.isOver with
  | true => rfl
  | false =>
    cases m.first with
    | nil => rfl
    | cons x rest =>
      simp only [List.map_cons, leading_map, yields_map, Merging.takeFirst_map, Merging.isOver_map,
        Merging.takeSecond_map, Prod.map, id]
      split <;> rfl

theorem passBoth_map (side : Side) (m : Merging α) :
    passBoth side lt (m.map f) = Prod.map id (Merging.map f) (passBoth side (through f lt) m) := by
  cases side <;> simp only [passBoth, passFirst_map, passSecond_map, Prod.map, id]

theorem mergeFrom_map (side : Side) (fuel : Nat) (pace : Pace) (patience : Nat) (m : Merging α) :
    mergeFrom side lt fuel pace patience (m.map f) =
      Prod.map (List.map f) id (mergeFrom side (through f lt) fuel pace patience m) := by
  induction fuel generalizing pace patience m with
  | zero => simp only [mergeFrom, Merging.result_map, Prod.map, id]
  | succ fuel ih =>
    have second : (m.map f).second = m.second.map f := rfl
    have first : (m.map f).first = m.first.map f := rfl
    unfold mergeFrom
    rw [Merging.isOver_map, second, first]
    cases m.isOver with
    | true => simp only [Merging.result_map, Prod.map, id]
    | false =>
      cases pace with
      | search =>
        simp only [passBoth_map, Prod.map, id, Merging.isOver_map, Merging.result_map]
        split
        · rfl
        · split <;> exact ih ..
      | single fromFirst fromSecond =>
        cases m.first with
        | nil => simp only [List.map_nil, Merging.result_map, Prod.map, id]
        | cons x xs =>
          cases m.second with
          | nil => simp only [List.map_nil, List.map_cons, Merging.result_map, Prod.map, id]
          | cons y ys =>
            simp only [List.map_cons, yields_map, Merging.takeSecond_map, Merging.takeFirst_map]
            split <;> exact ih ..

theorem mergeAt_map (side : Side) (patience : Nat) (first second : List α) :
    mergeAt side lt patience (first.map f) (second.map f) =
      Prod.map (List.map f) id (mergeAt side (through f lt) patience first second) := by
  have start : Merging.takeSecond { first := first.map f, second := second.map f } 1 =
      (Merging.takeSecond { first, second } 1).map f := Merging.takeSecond_map f { first, second } 1
  rw [mergeAt, start, List.length_map, List.length_map, mergeFrom_map]
  rfl

theorem merge_map (patience : Nat) (left right : List α) :
    merge lt patience (left.map f) (right.map f) =
      Prod.map (List.map f) id (merge (through f lt) patience left right) := by
  cases right with
  | nil => rfl
  | cons head rest =>
    simp only [List.map_cons, merge]
    simp only [← List.map_cons, leading_map, ← List.map_drop, List.getLast?_map]
    cases (left.drop (leading .front (fun x => !lt (f head) (f x)) left)).getLast? with
    | none => simp only [Option.map_none, Prod.map, id, List.map_append]
    | some last =>
      simp only [Option.map_some, ← List.map_reverse, leading_map, List.length_map, ← List.map_take,
        mergeAt_map, List.isEmpty_map]
      split
      · simp [Prod.map]
      · split <;> simp [Prod.map]

theorem spanLinked_map (linked : β → β → Bool) (x : α) (items : List α) :
    spanLinked linked (f x) (items.map f) =
      Prod.map (List.map f) (List.map f) (spanLinked (fun a b => linked (f a) (f b)) x items) := by
  induction items generalizing x with
  | nil => rfl
  | cons y rest ih =>
    simp only [List.map_cons, spanLinked, ih]
    split <;> simp [Prod.map]

theorem takeRun_map (items : List α) :
    takeRun lt (items.map f) =
      Prod.map (List.map f) (List.map f) (takeRun (through f lt) items) := by
  rcases items with _ | ⟨x, _ | ⟨y, rest⟩⟩
  · rfl
  · rfl
  · simp only [List.map_cons, takeRun, spanLinked_map]
    split <;> simp [Prod.map]

theorem insert_map (run : List α) (x : α) :
    insert lt (run.map f) (f x) = (insert (through f lt) run x).map f := by
  simp only [insert, bisect_map, List.length_map, ← List.map_take, ← List.map_drop, List.map_append,
    List.map_cons]

theorem foldl_insert_map (items run : List α) :
    (items.map f).foldl (insert lt) (run.map f) =
      (items.foldl (insert (through f lt)) run).map f := by
  induction items generalizing run with
  | nil => rfl
  | cons x items ih => rw [List.map_cons, List.foldl_cons, List.foldl_cons, insert_map, ih]

namespace Run

def map (run : Run α) : Run β := { run with items := run.items.map f }

theorem join_map (patience : Nat) (left right : Run α) :
    (left.map f).join lt patience (right.map f) =
      Prod.map (map f) id (left.join (through f lt) patience right) := by
  have merged := merge_map f lt patience left.items right.items
  simp only [join, map, merged, Prod.map, id]

end Run

theorem separation_map (n : Nat) (run : Run α) (next : List α) :
    separation n (run.map f) (next.map f) = separation n run next := by
  simp only [separation, Run.map, List.length_map]

theorem settle_map (fineness patience : Nat) (top : Run α) (stack : List (Run α)) :
    settle lt fineness patience (top.map f) (stack.map (Run.map f)) =
      Prod.map (List.map (Run.map f)) id (settle (through f lt) fineness patience top stack) := by
  induction stack generalizing patience top with
  | nil => rfl
  | cons below stack ih =>
    simp only [List.map_cons, settle, Run.join_map, Prod.map, id, ih]
    split
    next finer =>
      have finer : fineness < below.fineness := finer
      simp only [if_pos finer]
    next coarser =>
      have coarser : ¬ fineness < below.fineness := coarser
      simp only [if_neg coarser]
      rfl

theorem collapse_map (patience : Nat) (top : Run α) (stack : List (Run α)) :
    collapse lt patience (top.map f) (stack.map (Run.map f)) =
      (collapse (through f lt) patience top stack).map f := by
  fun_induction collapse (through f lt) patience top stack with
  | case1 patience top => rw [List.map_nil, collapse]; rfl
  | case2 patience top below =>
    rw [List.map_cons, List.map_nil, collapse, Run.join_map]
    rfl
  | case3 patience top below lower stack shorter joined patience' same ih =>
    have shorter : (lower.map f).items.length < (top.map f).items.length := by
      simpa [Run.map] using shorter
    simp only [List.map_cons] at ih ⊢
    rw [collapse, if_pos shorter, Run.join_map, same]
    exact ih
  | case4 patience top below lower stack longer joined patience' same ih =>
    have longer : ¬ (lower.map f).items.length < (top.map f).items.length := by
      simpa [Run.map] using longer
    simp only [List.map_cons] at ih ⊢
    rw [collapse, if_neg longer, Run.join_map, same]
    exact ih

theorem sortFrom_map (n fuel patience start : Nat) (items : List α) (stack : List (Run α)) :
    sortFrom lt n fuel patience start (items.map f) (stack.map (Run.map f)) =
      (sortFrom (through f lt) n fuel patience start items stack).map f := by
  induction fuel generalizing patience start items stack with
  | zero =>
    simp only [sortFrom, List.map_append, List.map_flatMap, ← List.map_reverse, List.flatMap_map]
    rfl
  | succ fuel ih =>
    simp only [sortFrom, takeRun_map, Prod.map, List.length_map, ← List.map_take, foldl_insert_map,
      ← List.map_drop, List.isEmpty_map]
    cases stack with
    | nil =>
      simp only [List.map_nil]
      split
      · exact collapse_map f lt patience ⟨start, _, 0⟩ []
      · exact ih _ _ _ [⟨start, _, 0⟩]
    | cons top stack =>
      simp only [List.map_cons, separation_map, settle_map, Prod.map, id]
      split
      · exact collapse_map f lt _ ⟨start, _, 0⟩ _
      · exact ih _ _ _ (⟨start, _, 0⟩ :: _)

/-- Sorting commutes with a map that keeps the comparison. -/
theorem sort_map (items : List α) :
    sort lt (items.map f) = (sort (through f lt) items).map f := by
  rw [sort, List.length_map]
  exact sortFrom_map f lt _ _ _ _ items []

/-- Sorting gives only items of the list. -/
theorem mem_of_mem_sort {less : α → α → Bool} {items : List α} {x : α}
    (member : x ∈ sort less items) : x ∈ items := by
  have sorted := sort_map Subtype.val less items.attach
  rw [List.attach_map_subtype_val] at sorted
  rw [sorted] at member
  obtain ⟨⟨y, inside⟩, -, rfl⟩ := List.mem_map.mp member
  exact inside

end Stepwise.Runs
