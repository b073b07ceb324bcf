import Mathlib.Data.List.Forall2
import Mathlib.Data.List.Perm.Subperm
import Mathlib.Data.List.ProdSigma
import Mathlib.Data.Option.Basic
import Mathlib.Logic.Relation
import Stepwise.Proofs.Bindings
import Stepwise.Proofs.Heap.Reach
import Stepwise.Value.Equal

/-!
What equality decides. It goes down into two values at once; pairs of cells on the way differ, and under
a value that does not contain itself no pair is met again (`Descent`). Two values have the same content
when every level of one matches the same level of the other; on comparable values equality always comes
to an end and says whether they do (`equal_decides`).
-/
namespace Stepwise

theorem length_le_of_nodup_pairs {size : Nat} {path : List (Ref × Ref)} (distinct : path.Nodup)
    (inside : ∀ pair ∈ path, pair.1 < size ∧ pair.2 < size) : path.length ≤ size * size := by
  have fits : path ⊆ List.range size ×ˢ List.range size := by
    intro pair member
    obtain ⟨first, second⟩ := inside pair member
    exact List.mem_product.mpr ⟨List.mem_range.mpr first, List.mem_range.mpr second⟩
  have shorter := (distinct.subperm fits).length_le
  rwa [List.length_product, List.length_range] at shorter

/-- A path of pairs of cells on which there is no pair twice, with fuel for all other pairs. -/
structure PairPath (size fuel : Nat) (path : List (Ref × Ref)) : Prop where
  distinct : path.Nodup
  inside : ∀ pair ∈ path, pair.1 < size ∧ pair.2 < size
  enough : size * size < fuel + path.length

namespace PairPath

variable {size fuel : Nat} {path : List (Ref × Ref)}

theorem nil (size : Nat) : PairPath size (size * size + 1) [] :=
  ⟨.nil, by simp, Nat.lt_succ_self _⟩

theorem fuel_pos (ok : PairPath size fuel path) : ∃ less, fuel = less + 1 := by
  have := length_le_of_nodup_pairs ok.distinct ok.inside
  have := ok.enough
  exact ⟨fuel - 1, by omega⟩

theorem cons (ok : PairPath size (fuel + 1) path) {a b : Ref} (first : a < size) (second : b < size)
    (new : (a, b) ∉ path) : PairPath size fuel ((a, b) :: path) := by
  refine ⟨List.nodup_cons.mpr ⟨new, ok.distinct⟩, ?_, ?_⟩
  · intro pair member
    rcases List.mem_cons.mp member with rfl | later
    · exact ⟨first, second⟩
    · exact ok.inside pair later
  · have := ok.enough
    rw [List.length_cons]
    omega

end PairPath

namespace Heap

variable {heap : Heap} {ref : Ref} {v : Value}

theorem lt_size_of_part (inside : v ∈ heap.partsAt ref) : ref < heap.size := by
  cases here : heap.get? ref with
  | none => simp [partsAt, here] at inside
  | some cell => exact lt_size_of_get? here

theorem part_of_item (member : v ∈ (heap.items ref).toList) : v ∈ heap.partsAt ref := by
  unfold items at member
  split at member
  next items here => rwa [partsAt, here]
  next => simp at member

theorem part_of_entry {name : Name} (member : (name, v) ∈ heap.entries ref) :
    v ∈ heap.partsAt ref := by
  unfold entries at member
  split at member
  next entries here =>
    rw [partsAt, here]
    exact List.mem_map.mpr ⟨(name, v), member, rfl⟩
  next => cases member

end Heap

namespace Value

variable {heap : Heap} {u v w : Value}

/-- The values that equality looks at inside a value. An instance hides its fields. -/
def parts (heap : Heap) : Value → List Value
  | .list ref | .map ref => heap.partsAt ref
  | _ => []

/-- The values that are a value or inside it, at any depth. -/
def Within (heap : Heap) : Value → Value → Prop :=
  Relation.ReflTransGen fun v w => w ∈ v.parts heap

/-- The values that are properly inside a value, at any depth. -/
def Holds (heap : Heap) : Value → Value → Prop :=
  Relation.TransGen fun v w => w ∈ v.parts heap

/-- A value without floats in which nothing contains itself. The maps in it have every key once, as
all maps have that are made by putting one entry after the other. -/
structure Comparable (heap : Heap) (v : Value) : Prop where
  acyclic : ∀ w, Within heap v w → ¬ Holds heap w w
  whole : ∀ x, ¬ Within heap v (.number (.float x))
  keyed : ∀ ref, Within heap v (.map ref) → (heap.entries ref).keys.Nodup

theorem Comparable.part (ok : Comparable heap v) (inside : w ∈ v.parts heap) :
    Comparable heap w where
  acyclic u within := ok.acyclic u (.head inside within)
  whole x within := ok.whole x (.head inside within)
  keyed ref within := ok.keyed ref (.head inside within)

/-- Comparable values are built from the inside out. -/
theorem Comparable.build (parts : ∀ w ∈ v.parts heap, Comparable heap w)
    (whole : ∀ x, v ≠ .number (.float x))
    (keyed : ∀ ref, v = .map ref → (heap.entries ref).keys.Nodup) : Comparable heap v where
  acyclic w within holds := by
    rcases within.cases_head with rfl | ⟨part, inside, deeper⟩
    · obtain ⟨part, inside, back⟩ := Relation.TransGen.head'_iff.mp holds
      exact (parts part inside).acyclic part .refl (Relation.TransGen.tail'_iff.mpr ⟨v, back, inside⟩)
    · exact (parts part inside).acyclic w deeper holds
  whole x within := by
    rcases within.cases_head with rfl | ⟨part, inside, deeper⟩
    · exact whole x rfl
    · exact (parts part inside).whole x deeper
  keyed ref within := by
    rcases within.cases_head with rfl | ⟨part, inside, deeper⟩
    · exact keyed ref rfl
    · exact (parts part inside).keyed ref deeper

theorem parts_of_mem {ref : Ref} (refers : v.ref? = some ref) (inside : w ∈ v.parts heap) :
    v.parts heap = heap.partsAt ref := by
  cases v with
  | list | map =>
    cases refers
    rfl
  | _ => cases inside

/-- Down a path of pairs of cells to a value that is inside the first cell of every pair. -/
structure Descent (heap : Heap) (fuel : Nat) (path : List (Ref × Ref)) (v : Value) : Prop where
  pairs : PairPath heap.size fuel path
  above : ∀ pair ∈ path, ∃ u, u.ref? = some pair.1 ∧ Holds heap u v

namespace Descent

variable {fuel : Nat} {path : List (Ref × Ref)} {a b : Ref}

theorem start (heap : Heap) (v : Value) : Descent heap (heap.size * heap.size + 1) [] v :=
  ⟨.nil _, fun _ member => nomatch member⟩

/-- No cell of the path comes back below it: what is inside it would be inside itself. -/
theorem new (descent : Descent heap fuel path v) (acyclic : ¬ Holds heap v v)
    (parts : v.parts heap = heap.partsAt a) : (a, b) ∉ path := by
  intro member
  obtain ⟨u, refers, holds⟩ := descent.above _ member
  obtain ⟨w, inside, within⟩ := Relation.TransGen.head'_iff.mp holds
  refine acyclic (Relation.TransGen.head'_iff.mpr ⟨w, ?_, within⟩)
  rwa [parts, ← parts_of_mem refers inside]

theorem down (descent : Descent heap (fuel + 1) path v) (acyclic : ¬ Holds heap v v)
    (refers : v.ref? = some a) (inside : w ∈ v.parts heap) (other : b < heap.size) :
    Descent heap fuel ((a, b) :: path) w := by
  have parts := parts_of_mem refers inside
  have here : a < heap.size := Heap.lt_size_of_part (parts ▸ inside)
  refine ⟨descent.pairs.cons here other (descent.new acyclic parts), fun pair member => ?_⟩
  rcases List.mem_cons.mp member with rfl | earlier
  · exact ⟨v, refers, .single inside⟩
  · obtain ⟨u, refers, holds⟩ := descent.above pair earlier
    exact ⟨u, refers, holds.tail inside⟩

end Descent

end Value

theorem option_rel_iff {α β : Type} {R : α → β → Prop} {x : Option α} {y : Option β} :
    Option.Rel R x y ↔ x.isSome = y.isSome ∧ ∀ a b, x = some a → y = some b → R a b := by
  cases x <;> cases y <;> simp

namespace Bindings

variable {α : Type} {xs ys : Bindings α}

theorem has_of_mem {entry : Name × α} (member : entry ∈ xs) : xs.has entry.1 = true :=
  has_iff_mem_keys.mpr (List.mem_map.mpr ⟨entry, member, rfl⟩)

theorem keys_subset_iff : xs.keys ⊆ ys.keys ↔ ∀ entry ∈ xs, ys.has entry.1 = true := by
  simp only [List.subset_def, keys, List.forall_mem_map, has_iff_mem_keys]

/-- Two bindings bind the same names to related things. -/
theorem rel_get?_iff {R : α → α → Prop} (distinct : xs.keys.Nodup) (default : α) :
    (∀ name, Option.Rel R (xs.get? name) (ys.get? name)) ↔
      (∀ name, xs.has name = ys.has name) ∧
        ∀ entry ∈ xs, R entry.2 ((ys.get? entry.1).getD default) := by
  simp only [option_rel_iff, forall_and, has]
  refine and_congr_right fun names => ⟨fun related entry member => ?_, fun related name x y => ?_⟩
  · have here := get?_of_mem distinct member
    have there := names entry.1
    rw [here, Option.isSome_some, eq_comm, Option.isSome_iff_exists] at there
    obtain ⟨y, there⟩ := there
    rw [there]
    exact related entry.1 entry.2 y here there
  · intro here there
    obtain ⟨known, member, same⟩ := mem_of_get? here
    have holds := related _ member
    rwa [get?_congr same, there] at holds

end Bindings

namespace Value

variable {heap : Heap} {a b c : Value}

theorem sameKeys_iff {xs ys : Bindings Value} (first : xs.keys.Nodup) (second : ys.keys.Nodup) :
    sameKeys xs ys = true ↔ ∀ name, xs.has name = ys.has name := by
  have lengths : ∀ zs : Bindings Value, zs.keys.length = zs.length := fun _ => List.length_map _
  rw [sameKeys, Bool.and_eq_true, beq_iff_eq, List.all_eq_true, ← Bindings.keys_subset_iff,
    ← lengths xs, ← lengths ys]
  constructor
  · rintro ⟨length, subset⟩ name
    have perm := (first.subperm subset).perm_of_length_le (Nat.le_of_eq length.symm)
    rw [Bool.eq_iff_iff, Bindings.has_iff_mem_keys, Bindings.has_iff_mem_keys]
    exact perm.mem_iff
  · intro same
    have forth : xs.keys ⊆ ys.keys :=
      Bindings.keys_subset_iff.mpr fun entry member => same entry.1 ▸ Bindings.has_of_mem member
    have back : ys.keys ⊆ xs.keys :=
      Bindings.keys_subset_iff.mpr fun entry member => same entry.1 ▸ Bindings.has_of_mem member
    exact ⟨((first.subperm forth).antisymm (second.subperm back)).length_eq, forth⟩

/-- One level of two values agrees, and what is inside them is related: the items of two lists in
their order, the entries of two maps by their names. Instances agree with nothing but themselves. -/
inductive Matches (heap : Heap) (R : Value → Value → Prop) : Value → Value → Prop where
  | null : Matches heap R .null .null
  | bool (b : Bool) : Matches heap R (.bool b) (.bool b)
  | number {m n : Number} : m.eq n = true → Matches heap R (.number m) (.number n)
  | text (s : String) : Matches heap R (.text s) (.text s)
  | inst (ref : Ref) : Matches heap R (.inst ref) (.inst ref)
  | list {a b : Ref} : List.Forall₂ R (heap.items a).toList (heap.items b).toList →
      Matches heap R (.list a) (.list b)
  | map {a b : Ref} :
      (∀ name, Option.Rel R ((heap.entries a).get? name) ((heap.entries b).get? name)) →
      Matches heap R (.map a) (.map b)

section

variable {R : Value → Value → Prop}

theorem matches_bool_iff {p q : Bool} : Matches heap R (.bool p) (.bool q) ↔ p = q :=
  ⟨fun | .bool _ => rfl, fun same => same ▸ .bool p⟩

theorem matches_text_iff {s t : String} : Matches heap R (.text s) (.text t) ↔ s = t :=
  ⟨fun | .text _ => rfl, fun same => same ▸ .text s⟩

theorem matches_inst_iff {r s : Ref} : Matches heap R (.inst r) (.inst s) ↔ r = s :=
  ⟨fun | .inst _ => rfl, fun same => same ▸ .inst r⟩

theorem matches_list_iff {r s : Ref} : Matches heap R (.list r) (.list s) ↔
    List.Forall₂ R (heap.items r).toList (heap.items s).toList :=
  ⟨fun | .list related => related, .list⟩

theorem matches_map_iff {r s : Ref} : Matches heap R (.map r) (.map s) ↔
    ∀ name, Option.Rel R ((heap.entries r).get? name) ((heap.entries s).get? name) :=
  ⟨fun | .map related => related, .map⟩

end

/-- Values that match at every level. -/
def SameContent (heap : Heap) (a b : Value) : Prop :=
  ∃ R, (∀ x y, R x y → Matches heap R x y) ∧ R a b

theorem part_of_get? {ref : Ref} {name : Name} (found : (heap.entries ref).get? name = some a) :
    a ∈ heap.partsAt ref := by
  obtain ⟨known, member, -⟩ := Bindings.mem_of_get? found
  exact Heap.part_of_entry member

/-- What matches for one relation matches for any other that says as much about the parts. -/
theorem Matches.imp {R S : Value → Value → Prop} (level : Matches heap R a b)
    (parts : ∀ x ∈ a.parts heap, ∀ y ∈ b.parts heap, R x y → S x y) : Matches heap S a b := by
  cases level with
  | list related =>
    obtain ⟨length, related⟩ := List.forall₂_iff_zip.mp related
    refine .list (List.forall₂_iff_zip.mpr ⟨length, fun member => ?_⟩)
    obtain ⟨first, second⟩ := List.of_mem_zip member
    exact parts _ (Heap.part_of_item first) _ (Heap.part_of_item second) (related member)
  | map related =>
    refine .map fun name => ?_
    obtain ⟨names, related⟩ := option_rel_iff.mp (related name)
    refine option_rel_iff.mpr ⟨names, fun x y first second => ?_⟩
    exact parts x (part_of_get? first) y (part_of_get? second) (related x y first second)
  | number same => exact .number same
  | _ => constructor

theorem sameContent_iff : SameContent heap a b ↔ Matches heap (SameContent heap) a b := by
  constructor
  · rintro ⟨R, levels, related⟩
    exact (levels a b related).imp fun x _ y _ inside => ⟨R, levels, inside⟩
  · intro level
    refine ⟨Matches heap (SameContent heap), fun x y here => here.imp fun v _ w _ inside => ?_, level⟩
    obtain ⟨R, levels, related⟩ := inside
    exact (levels v w related).imp fun x _ y _ deeper => ⟨R, levels, deeper⟩

/-! Between comparable values, having the same content is an equivalence. -/

theorem Comparable.number_eq_iff {m n : Number} (first : Comparable heap (.number m))
    (second : Comparable heap (.number n)) : m.eq n = true ↔ m = n := by
  cases m with
  | float x => exact absurd .refl (first.whole x)
  | int i =>
    cases n with
    | float x => exact absurd .refl (second.whole x)
    | int j => simp [Number.eq, Number.compare?]

theorem SameContent.refl (ok : Comparable heap a) : SameContent heap a a := by
  refine ⟨fun x y => x = y ∧ Comparable heap x, ?_, rfl, ok⟩
  rintro x _ ⟨rfl, ok⟩
  cases x with
  | number n => exact .number ((ok.number_eq_iff ok).mpr rfl)
  | list r =>
    exact .list (List.forall₂_same.mpr fun x member => ⟨rfl, ok.part (Heap.part_of_item member)⟩)
  | map r =>
    refine .map fun name => option_rel_iff.mpr ⟨rfl, fun x y first second => ?_⟩
    exact ⟨Option.some.inj (first.symm.trans second), ok.part (part_of_get? first)⟩
  | _ => constructor

/-- The parts of comparable values that match are comparable as well. -/
theorem SameContent.matches (same : SameContent heap a b) (okA : Comparable heap a)
    (okB : Comparable heap b) :
    Matches heap (fun x y => SameContent heap x y ∧ Comparable heap x ∧ Comparable heap y) a b :=
  (sameContent_iff.mp same).imp fun _ inA _ inB inside => ⟨inside, okA.part inA, okB.part inB⟩

theorem SameContent.symm (same : SameContent heap a b) (okA : Comparable heap a)
    (okB : Comparable heap b) : SameContent heap b a := by
  refine ⟨fun y x => SameContent heap x y ∧ Comparable heap x ∧ Comparable heap y, ?_,
    same, okA, okB⟩
  rintro y x ⟨same, okX, okY⟩
  cases same.matches okX okY with
  | number equal =>
    exact .number ((okY.number_eq_iff okX).mpr ((okX.number_eq_iff okY).mp equal).symm)
  | list related => exact .list related.flip
  | map related =>
    refine .map fun name => ?_
    obtain ⟨names, related⟩ := option_rel_iff.mp (related name)
    exact option_rel_iff.mpr ⟨names.symm, fun v w first second => related w v second first⟩
  | _ => constructor

theorem SameContent.trans (first : SameContent heap a b) (second : SameContent heap b c)
    (okA : Comparable heap a) (okB : Comparable heap b) (okC : Comparable heap c) :
    SameContent heap a c := by
  refine ⟨fun x z => ∃ y, (SameContent heap x y ∧ Comparable heap x ∧ Comparable heap y) ∧
    SameContent heap y z ∧ Comparable heap y ∧ Comparable heap z, ?_,
    b, ⟨first, okA, okB⟩, second, okB, okC⟩
  rintro x z ⟨y, ⟨first, okX, okY⟩, second, -, okZ⟩
  cases first.matches okX okY with
  | number equal =>
    cases second.matches okY okZ with
    | number equal' =>
      have both := ((okX.number_eq_iff okY).mp equal).trans ((okY.number_eq_iff okZ).mp equal')
      exact .number ((okX.number_eq_iff okZ).mpr both)
  | list related =>
    cases second.matches okY okZ with
    | list related' =>
      refine .list (List.forall₂_iff_get.mpr ⟨related.length_eq.trans related'.length_eq, ?_⟩)
      intro i inX inZ
      have inY := related.length_eq ▸ inX
      exact ⟨_, (List.forall₂_iff_get.mp related).2 i inX inY,
        (List.forall₂_iff_get.mp related').2 i inY inZ⟩
  | map related =>
    cases second.matches okY okZ with
    | map related' =>
      refine .map fun name => ?_
      obtain ⟨names, related⟩ := option_rel_iff.mp (related name)
      obtain ⟨names', related'⟩ := option_rel_iff.mp (related' name)
      refine option_rel_iff.mpr ⟨names.trans names', fun v w here there => ?_⟩
      rw [here] at names
      obtain ⟨u, between⟩ := Option.isSome_iff_exists.mp names.symm
      exact ⟨u, related v u here between, related' u w between there⟩
  | _ =>
    cases second.matches okY okZ
    constructor

/-! Equality decides whether values have the same content. -/

/-- The answer is there, and it says whether something holds. -/
def Decides (answer : Except Failure Bool) (p : Prop) : Prop :=
  ∃ same, answer = .ok same ∧ (same = true ↔ p)

theorem Decides.congr {answer : Except Failure Bool} {p q : Prop} (decides : Decides answer p)
    (equivalent : p ↔ q) : Decides answer q := by
  obtain ⟨same, done, tells⟩ := decides
  exact ⟨same, done, tells.trans equivalent⟩

theorem decides_false {p : Prop} (never : ¬ p) : Decides (.ok false) p :=
  ⟨false, rfl, by simp [never]⟩

theorem allEqual_decides {f : Value → Value → Except Failure Bool} {P : Value → Value → Prop}
    {pairs : List (Value × Value)}
    (each : ∀ pair ∈ pairs, Decides (f pair.1 pair.2) (P pair.1 pair.2)) :
    Decides (allEqual f pairs) (∀ pair ∈ pairs, P pair.1 pair.2) := by
  induction pairs with
  | nil => exact ⟨true, rfl, by simp⟩
  | cons pair pairs ih =>
    obtain ⟨same, done, tells⟩ := each pair (.head _)
    obtain ⟨others, done', tells'⟩ := ih fun other member => each other (.tail _ member)
    rw [List.forall_mem_cons, ← tells, ← tells', allEqual, done]
    cases same with
    | false => exact decides_false (by simp)
    | true => exact ⟨others, done', by simp⟩

theorem items_decide {f : Value → Value → Except Failure Bool} {R : Value → Value → Prop}
    {xs ys : Array Value} (each : ∀ x ∈ xs.toList, ∀ y ∈ ys.toList, Decides (f x y) (R x y)) :
    Decides (if xs.size != ys.size then .ok false else allEqual f (xs.toList.zip ys.toList))
      (List.Forall₂ R xs.toList ys.toList) := by
  rw [List.forall₂_iff_zip, Array.length_toList, Array.length_toList]
  by_cases size : xs.size = ys.size
  · rw [if_neg (by simp [size])]
    refine (allEqual_decides fun pair member => ?_).congr
      ⟨fun all => ⟨size, fun member => all _ member⟩, fun level _ member => level.2 member⟩
    obtain ⟨first, second⟩ := List.of_mem_zip member
    exact each _ first _ second
  · rw [if_pos (by simp [size])]
    exact decides_false fun level => size level.1

theorem entries_decide {f : Value → Value → Except Failure Bool} {R : Value → Value → Prop}
    {xs ys : Bindings Value} (first : xs.keys.Nodup) (second : ys.keys.Nodup)
    (each : ∀ entry ∈ xs, ∀ name y, ys.get? name = some y → Decides (f entry.2 y) (R entry.2 y)) :
    Decides (if !sameKeys xs ys then .ok false
        else allEqual f (xs.map fun entry => (entry.2, (ys.get? entry.1).getD .null)))
      (∀ name, Option.Rel R (xs.get? name) (ys.get? name)) := by
  rw [Bindings.rel_get?_iff first .null, ← sameKeys_iff first second]
  by_cases keys : sameKeys xs ys = true
  · rw [if_neg (by simp [keys])]
    refine (@allEqual_decides f R _ ?_).congr ?_
    · rintro _ member
      obtain ⟨entry, inside, rfl⟩ := List.mem_map.mp member
      have bound := (sameKeys_iff first second).mp keys entry.1
      rw [Bindings.has_of_mem inside, eq_comm] at bound
      obtain ⟨y, found⟩ := Option.isSome_iff_exists.mp bound
      rw [found]
      exact each entry inside entry.1 y found
    · rw [List.forall_mem_map, and_iff_right keys]
  · rw [if_pos (by simp [keys])]
    exact decides_false fun level => keys level.1

/-- Down a path that repeats nothing, equality decides by levels: what it finds inside two values
is one step further down the path. -/
theorem equalFrom_decides {fuel : Nat} {path : List (Ref × Ref)} (okA : Comparable heap a)
    (okB : Comparable heap b) (descent : Descent heap fuel path a) :
    Decides (equalFrom heap fuel path a b) (SameContent heap a b) := by
  induction fuel generalizing a b path with
  | zero =>
    obtain ⟨_, absurd⟩ := descent.pairs.fuel_pos
    cases absurd
  | succ fuel ih =>
    have acyclic := okA.acyclic a .refl
    have parts : ∀ r s, a.ref? = some r → b.ref? = some s →
        ∀ x ∈ a.parts heap, ∀ y ∈ b.parts heap,
          Decides (equalFrom heap fuel ((r, s) :: path) x y) (SameContent heap x y) := by
      intro r s refersA refersB x inA y inB
      refine ih (okA.part inA) (okB.part inB) (descent.down acyclic refersA inA ?_)
      exact Heap.lt_size_of_part (parts_of_mem refersB inB ▸ inB)
    refine Decides.congr ?_ sameContent_iff.symm
    cases a with
    | null =>
      cases b with
      | null => exact ⟨true, rfl, iff_of_true rfl .null⟩
      | _ => exact decides_false nofun
    | bool p =>
      cases b with
      | bool q => exact ⟨p == q, rfl, by rw [beq_iff_eq, matches_bool_iff]⟩
      | _ => exact decides_false nofun
    | number m =>
      cases b with
      | number n => exact ⟨m.eq n, rfl, .number, fun | .number equal => equal⟩
      | _ => exact decides_false nofun
    | text s =>
      cases b with
      | text t => exact ⟨s == t, rfl, by rw [beq_iff_eq, matches_text_iff]⟩
      | _ => exact decides_false nofun
    | inst r =>
      cases b with
      | inst s => exact ⟨r == s, rfl, by rw [beq_iff_eq, matches_inst_iff]⟩
      | _ => exact decides_false nofun
    | list r =>
      cases b with
      | list s =>
        have new : (r, s) ∉ path := descent.new acyclic rfl
        simp only [equalFrom, List.contains_eq_mem, new, decide_false, Bool.false_eq_true, if_false]
        exact (items_decide fun x inX y inY => parts r s rfl rfl x (Heap.part_of_item inX) y
          (Heap.part_of_item inY)).congr matches_list_iff.symm
      | _ => exact decides_false nofun
    | map r =>
      cases b with
      | map s =>
        have new : (r, s) ∉ path := descent.new acyclic rfl
        simp only [equalFrom, List.contains_eq_mem, new, decide_false, Bool.false_eq_true, if_false]
        exact (entries_decide (okA.keyed r .refl) (okB.keyed s .refl) fun entry inX _ y found =>
          parts r s rfl rfl entry.2 (Heap.part_of_entry inX) y (part_of_get? found)).congr
            matches_map_iff.symm
      | _ => exact decides_false nofun

/-- On comparable values equality comes to an end and says whether the content is the same. -/
theorem equal_decides (okA : Comparable heap a) (okB : Comparable heap b) :
    Decides (equal heap a b) (SameContent heap a b) :=
  equalFrom_decides okA okB (.start heap a)

theorem equal_iff (okA : Comparable heap a) (okB : Comparable heap b) :
    equal heap a b = .ok true ↔ SameContent heap a b := by
  obtain ⟨same, done, tells⟩ := equal_decides okA okB
  rw [done, ← tells, Except.ok.injEq]

end Value

end Stepwise
