import Mathlib.Data.Set.Card
import Stepwise.Prelude.Lists
import Stepwise.Proofs.Values.Contents
import Stepwise.Value.Operators

/-!
Equality and the searches in lists. Equality of comparable values is an equivalence, and membership,
first position and count all speak of the same positions of the list: `searches_fit_equality`.
-/
namespace Stepwise.Value

variable {heap : Heap} {a b c x y : Value} {items : List Value}

theorem equal_self (ok : Comparable heap a) : equal heap a a = .ok true :=
  (equal_iff ok ok).mpr (.refl ok)

theorem equal_comm (okA : Comparable heap a) (okB : Comparable heap b) :
    equal heap b a = equal heap a b := by
  obtain ⟨same, done, tells⟩ := equal_decides okA okB
  obtain ⟨same', done', tells'⟩ := equal_decides okB okA
  have agree : same' = same := by
    rw [Bool.eq_iff_iff, tells, tells']
    exact ⟨fun content => content.symm okB okA, fun content => content.symm okA okB⟩
  rw [done, done', agree]

theorem equal_trans (okA : Comparable heap a) (okB : Comparable heap b) (okC : Comparable heap c)
    (first : equal heap a b = .ok true) (second : equal heap b c = .ok true) :
    equal heap a c = .ok true :=
  (equal_iff okA okC).mpr
    (((equal_iff okA okB).mp first).trans ((equal_iff okB okC).mp second) okA okB okC)

/-- Equality goes by levels: it holds when the outermost level matches and it holds inside. -/
theorem equal_iff_matches (okA : Comparable heap a) (okB : Comparable heap b) :
    equal heap a b = .ok true ↔ Matches heap (fun x y => equal heap x y = .ok true) a b := by
  rw [equal_iff okA okB, sameContent_iff]
  constructor
  · exact fun level => level.imp fun x inA y inB => (equal_iff (okA.part inA) (okB.part inB)).mpr
  · exact fun level => level.imp fun x inA y inB => (equal_iff (okA.part inA) (okB.part inB)).mp

/-- Nothing distinguishes equal values that are compared with a third one. -/
theorem equal_congr (okA : Comparable heap a) (okX : Comparable heap x) (okY : Comparable heap y)
    (same : equal heap x y = .ok true) : equal heap a y = equal heap a x := by
  obtain ⟨atX, done, tells⟩ := equal_decides okA okX
  obtain ⟨atY, done', tells'⟩ := equal_decides okA okY
  have content := (equal_iff okX okY).mp same
  have agree : atY = atX := by
    rw [Bool.eq_iff_iff, tells, tells']
    exact ⟨fun there => there.trans (content.symm okX okY) okA okY okX,
      fun here => here.trans content okA okX okY⟩
  rw [done, done', agree]

/-! All three searches go through the positions of the items that equal the value. -/

/-- The positions, counted from `k`, of the items that equal a value. -/
def positionsFrom (heap : Heap) (x : Value) (k : Nat) (items : List Value) : List Nat :=
  ((items.zipIdx k).filter fun entry => equal heap entry.1 x matches .ok true).map Prod.snd

theorem positionsFrom_cons {item : Value} {same : Bool} (answer : equal heap item x = .ok same)
    (k : Nat) (items : List Value) : positionsFrom heap x k (item :: items) =
      if same then k :: positionsFrom heap x (k + 1) items
      else positionsFrom heap x (k + 1) items := by
  rw [positionsFrom, List.zipIdx_cons, List.filter_cons]
  simp only [answer]
  cases same <;> rfl

theorem mem_positions {p : Nat} : p ∈ positionsFrom heap x 0 items ↔
    ∃ item, items[p]? = some item ∧ equal heap item x = .ok true := by
  have answers : ∀ item, (equal heap item x matches .ok true) = true ↔
      equal heap item x = .ok true := by
    intro item
    split <;> simp_all
  simp only [positionsFrom, List.mem_map, List.mem_filter, Prod.exists, answers,
    List.mem_zipIdx_iff_getElem?]
  constructor
  · rintro ⟨item, _, ⟨found, same⟩, rfl⟩
    exact ⟨item, found, same⟩
  · rintro ⟨item, found, same⟩
    exact ⟨item, p, ⟨found, same⟩, rfl⟩

theorem positionsFrom_sorted (k : Nat) : (positionsFrom heap x k items).Pairwise (· < ·) := by
  have sub := (List.filter_sublist (p := fun entry => equal heap entry.1 x matches .ok true)
    (l := items.zipIdx k)).map Prod.snd
  rw [List.zipIdx_map_snd] at sub
  exact List.Pairwise.sublist sub List.pairwise_lt_range'

theorem indexFrom_eq (okX : Comparable heap x) (oks : ∀ item ∈ items, Comparable heap item) (k : Nat) :
    Prelude.indexFrom heap x k items =
      .ok ((positionsFrom heap x k items).head?.elim (-1) Int.ofNat) := by
  induction items generalizing k with
  | nil => rfl
  | cons item items ih =>
    obtain ⟨same, answer, -⟩ := equal_decides (oks item (.head _)) okX
    rw [Prelude.indexFrom, answer, positionsFrom_cons answer]
    cases same with
    | true => rfl
    | false => exact ih (fun other member => oks other (.tail _ member)) (k + 1)

theorem countEqual_eq (okX : Comparable heap x) (oks : ∀ item ∈ items, Comparable heap item)
    (k : Nat) : Prelude.countEqual heap x items = .ok (positionsFrom heap x k items).length := by
  induction items generalizing k with
  | nil => rfl
  | cons item items ih =>
    obtain ⟨same, answer, -⟩ := equal_decides (oks item (.head _)) okX
    have later := ih (fun other member => oks other (.tail _ member)) (k + 1)
    rw [Prelude.countEqual, answer, positionsFrom_cons answer]
    cases same with
    | true => simp [later, bind, Except.bind, pure, Except.pure]
    | false => simp [later, bind, Except.bind, pure, Except.pure]

/-- Membership compares the other way round, which makes no difference. -/
theorem anyEqual_eq (okX : Comparable heap x) (oks : ∀ item ∈ items, Comparable heap item) (k : Nat) :
    anyEqual heap x items = .ok !(positionsFrom heap x k items).isEmpty := by
  induction items generalizing k with
  | nil => rfl
  | cons item items ih =>
    have okItem := oks item (.head _)
    obtain ⟨same, answer, -⟩ := equal_decides okItem okX
    rw [anyEqual, ← equal_comm okX okItem, answer, positionsFrom_cons answer]
    cases same with
    | true => rfl
    | false => exact ih (fun other member => oks other (.tail _ member)) (k + 1)

theorem positionsFrom_congr (okX : Comparable heap x) (okY : Comparable heap y)
    (same : equal heap x y = .ok true) (oks : ∀ item ∈ items, Comparable heap item) (k : Nat) :
    positionsFrom heap y k items = positionsFrom heap x k items := by
  induction items generalizing k with
  | nil => rfl
  | cons item items ih =>
    have okItem := oks item (.head _)
    obtain ⟨atX, answer, -⟩ := equal_decides okItem okX
    have answer' := (equal_congr okItem okX okY same).trans answer
    rw [positionsFrom_cons answer, positionsFrom_cons answer',
      ih fun other member => oks other (.tail _ member)]

/-- The positions of a list at which an item equals a value. -/
def equalAt (heap : Heap) (ref : Ref) (x : Value) : Set Nat :=
  {p | ∃ item, (heap.items ref)[p]? = some item ∧ equal heap item x = .ok true}

theorem equalAt_eq (heap : Heap) (ref : Ref) (x : Value) :
    equalAt heap ref x = (positionsFrom heap x 0 (heap.items ref).toList).toFinset := by
  ext p
  simp only [equalAt, Set.mem_ofPred_eq, List.coe_toFinset, mem_positions, Array.getElem?_toList]

theorem ncard_equalAt (heap : Heap) (ref : Ref) (x : Value) :
    (equalAt heap ref x).ncard = (positionsFrom heap x 0 (heap.items ref).toList).length := by
  have sorted := @positionsFrom_sorted heap x (heap.items ref).toList 0
  have once : (positionsFrom heap x 0 (heap.items ref).toList).Nodup :=
    sorted.imp fun below => Nat.ne_of_lt below
  rw [equalAt_eq, Set.ncard_coe_finset, List.toFinset_card_of_nodup once]

theorem head_positions (heap : Heap) (ref : Ref) (x : Value) :
    (equalAt heap ref x = ∅ ∧ (positionsFrom heap x 0 (heap.items ref).toList).head? = none) ∨
      ∃ p, IsLeast (equalAt heap ref x) p ∧
        (positionsFrom heap x 0 (heap.items ref).toList).head? = some p := by
  rw [equalAt_eq]
  have sorted := @positionsFrom_sorted heap x (heap.items ref).toList 0
  cases found : positionsFrom heap x 0 (heap.items ref).toList with
  | nil => exact .inl ⟨by simp, rfl⟩
  | cons p later =>
    rw [found] at sorted
    refine .inr ⟨p, ⟨by simp, fun q member => ?_⟩, rfl⟩
    rw [List.coe_toFinset] at member
    rcases List.mem_cons.mp member with rfl | after
    · exact le_rfl
    · exact (List.rel_of_pairwise_cons sorted after).le

/-- What the three searches answer: from the same positions, each its own summary. -/
theorem searches_eq {ref : Ref} (okL : Comparable heap (.list ref)) (okX : Comparable heap x) :
    let positions := positionsFrom heap x 0 (heap.items ref).toList
    contains heap (.list ref) x = .ok !positions.isEmpty ∧
      Prelude.index heap [.list ref, x] = .ok (.int (positions.head?.elim (-1) Int.ofNat)) ∧
      Prelude.count heap [.list ref, x] = .ok (.int positions.length) := by
  have oks : ∀ item ∈ (heap.items ref).toList, Comparable heap item :=
    fun item member => okL.part (Heap.part_of_item member)
  refine ⟨anyEqual_eq okX oks 0, ?_, ?_⟩
  · change (do return Value.int (← Prelude.indexFrom heap x 0 (heap.items ref).toList)) = _
    rw [indexFrom_eq okX oks]
    rfl
  · change (do return Value.int (← Prelude.countEqual heap x (heap.items ref).toList)) = _
    rw [countEqual_eq okX oks 0]
    rfl

/-- Between values without floats that do not contain themselves, equality is an equivalence: it
always has an answer, and it goes by levels, with lists compared in order, maps by their names and
instances by identity; a boolean equals no number. For a list and a value, membership, first
position and count speak of the positions whose items equal the value: the least one or `-1`, and
how many there are. Equal values are found alike. -/
theorem searches_fit_equality (heap : Heap) :
    (∀ a, Comparable heap a → equal heap a a = .ok true) ∧
    (∀ a b, Comparable heap a → Comparable heap b →
      (∃ same, equal heap a b = .ok same ∧ equal heap b a = .ok same) ∧
      (equal heap a b = .ok true ↔ Matches heap (fun x y => equal heap x y = .ok true) a b)) ∧
    (∀ a b c, Comparable heap a → Comparable heap b → Comparable heap c →
      equal heap a b = .ok true → equal heap b c = .ok true → equal heap a c = .ok true) ∧
    (∀ r s, equal heap (.inst r) (.inst s) = .ok (decide (r = s))) ∧
    (∀ p n, equal heap (.bool p) (.number n) = .ok false ∧
      equal heap (.number n) (.bool p) = .ok false) ∧
    ∀ ref x, Comparable heap (.list ref) → Comparable heap x → ∃ found i n,
      contains heap (.list ref) x = .ok found ∧
      Prelude.index heap [.list ref, x] = .ok (.int i) ∧
      Prelude.count heap [.list ref, x] = .ok (.int n) ∧
      (found = true ↔ 0 ≤ i) ∧ (0 ≤ i ↔ 1 ≤ n) ∧
      (equalAt heap ref x = ∅ ∧ i = -1 ∨ ∃ p : Nat, IsLeast (equalAt heap ref x) p ∧ i = p) ∧
      n = (equalAt heap ref x).ncard ∧
      ∀ y, Comparable heap y → equal heap x y = .ok true →
        contains heap (.list ref) y = .ok found ∧
        Prelude.index heap [.list ref, y] = .ok (.int i) ∧
        Prelude.count heap [.list ref, y] = .ok (.int n) := by
  refine ⟨fun a ok => equal_self ok, fun a b okA okB => ⟨?_, equal_iff_matches okA okB⟩,
    fun a b c okA okB okC => equal_trans okA okB okC, fun r s => rfl, fun p n => ⟨rfl, rfl⟩,
    fun ref x okL okX => ?_⟩
  · obtain ⟨same, answer, -⟩ := equal_decides okA okB
    exact ⟨same, answer, (equal_comm okA okB).trans answer⟩
  · obtain ⟨member, first, number⟩ := searches_eq okL okX
    refine ⟨_, _, _, member, first, number, ?_, ?_, ?_, ?_, fun y okY same => ?_⟩
    · cases positionsFrom heap x 0 (heap.items ref).toList <;> simp
    · cases positionsFrom heap x 0 (heap.items ref).toList <;> simp
    · rcases head_positions heap ref x with ⟨none, head⟩ | ⟨p, least, head⟩
      · exact .inl ⟨none, by rw [head]; rfl⟩
      · exact .inr ⟨p, least, by rw [head]; rfl⟩
    · rw [ncard_equalAt]
    · have alike := positionsFrom_congr okX okY same
        (fun item member => okL.part (Heap.part_of_item member)) 0
      obtain ⟨member', first', number'⟩ := searches_eq okL okY
      rw [alike] at member' first' number'
      exact ⟨member', first', number'⟩

/-- A map is found in a list by another one with the same entries in another order. -/
theorem searches_fit_equality_maps :
    let one : Value := .int 1
    let two : Value := .int 2
    let heap : Heap := ⟨#[.list #[one, .map 1], .map [("a", one), ("b", two)],
      .map [("b", two), ("a", one)]]⟩
    Comparable heap (.list 0) ∧ Comparable heap (.map 1) ∧ Comparable heap (.map 2) ∧
      equal heap (.map 1) (.map 2) = .ok true ∧
      Prelude.index heap [.list 0, .map 2] = Prelude.index heap [.list 0, .map 1] ∧
      Prelude.count heap [.list 0, .map 2] = Prelude.count heap [.list 0, .map 1] := by
  intro one two heap
  have number : ∀ n : Int, Comparable heap (.int n) := fun n => .build nofun nofun nofun
  have first : Comparable heap (.map 1) := by
    refine .build (show ∀ w ∈ [one, two], _ by simp [one, two, number]) nofun ?_
    rintro _ ⟨⟩
    decide
  have second : Comparable heap (.map 2) := by
    refine .build (show ∀ w ∈ [two, one], _ by simp [one, two, number]) nofun ?_
    rintro _ ⟨⟩
    decide
  have list : Comparable heap (.list 0) :=
    .build (show ∀ w ∈ [one, .map 1], _ by simp [one, number, first]) nofun nofun
  obtain ⟨-, -, -, -, -, searches⟩ := searches_fit_equality heap
  obtain ⟨_, i, n, -, index, count, -, -, -, -, alike⟩ := searches 0 (.map 1) list first
  have same : equal heap (.map 1) (.map 2) = .ok true := rfl
  obtain ⟨-, index', count'⟩ := alike (.map 2) second same
  exact ⟨list, first, second, same, index'.trans index.symm, count'.trans count.symm⟩

end Stepwise.Value
