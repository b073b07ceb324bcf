import Stepwise.Proofs.Renaming.Heaps
import Stepwise.Proofs.Values.Contents
import Stepwise.Value.Equal
import Stepwise.Value.Text

/-!
Texts and equality do not depend on how cells are numbered. Both follow values to a depth bounded by
the size of the heap; a path repeats no cell, so any bound above the size of the core is enough.
-/
namespace Stepwise

theorem mapM_congr {α β : Type} {f g : α → Except Failure β} {xs : List α}
    (same : ∀ x ∈ xs, f x = g x) : xs.mapM f = xs.mapM g := by
  induction xs with
  | nil => rfl
  | cons x xs ih =>
    rw [List.mapM_cons, List.mapM_cons, same x (.head _), ih fun y member => same y (.tail _ member)]

theorem length_le_of_nodup {size : Nat} {path : List Ref} (distinct : path.Nodup)
    (inside : ∀ ref ∈ path, ref < size) : path.length ≤ size := by
  have fits : path ⊆ List.range size := fun ref member => List.mem_range.mpr (inside ref member)
  simpa using (distinct.subperm fits).length_le

/-- A path on which there is no cell twice, with fuel for all cells that are not on it. -/
structure Path (size fuel : Nat) (path : List Ref) : Prop where
  distinct : path.Nodup
  inside : ∀ ref ∈ path, ref < size
  enough : size < fuel + path.length

theorem path_nil {size fuel : Nat} (enough : size < fuel) : Path size fuel [] :=
  ⟨.nil, (fun _ member => nomatch member), enough⟩

namespace Path

variable {size fuel : Nat} {path : List Ref}

theorem fuel_pos (ok : Path size fuel path) : ∃ less, fuel = less + 1 := by
  have := length_le_of_nodup ok.distinct ok.inside
  have := ok.enough
  exact ⟨fuel - 1, by omega⟩

theorem cons (ok : Path size (fuel + 1) path) {ref : Ref} (inside : ref < size)
    (new : ref ∉ path) : Path size fuel (ref :: path) := by
  refine ⟨List.nodup_cons.mpr ⟨new, ok.distinct⟩, ?_, ?_⟩
  · simpa [inside] using ok.inside
  · have := ok.enough
    rw [List.length_cons]
    omega

end Path

namespace Heap.Embeds

variable {ρ : Ref → Ref} {core heap : Heap} {ref : Ref}

theorem mem_map_iff (embeds : Embeds ρ core heap) {path : List Ref} (inside : ref < core.size)
    (within : ∀ other ∈ path, other < core.size) : ρ ref ∈ path.map ρ ↔ ref ∈ path := by
  constructor
  · intro member
    obtain ⟨other, there, same⟩ := List.mem_map.mp member
    rwa [← embeds.injective other (within other there) ref inside same]
  · exact List.mem_map_of_mem

theorem typeName (embeds : Embeds ρ core heap) {v : Value} (below : v.Below core.size) :
    (v.rename ρ).typeName heap = v.typeName core := by
  cases v with
  | inst ref => exact embeds.className (Value.below_inst.mp below)
  | _ => rfl

theorem isTruthy (embeds : Embeds ρ core heap) {v : Value} (below : v.Below core.size) :
    (v.rename ρ).isTruthy heap = v.isTruthy core := by
  cases v with
  | list ref =>
    simp [Value.isTruthy, embeds.items (Value.below_list.mp below), Array.isEmpty]
  | _ => rfl

theorem format (embeds : Embeds ρ core heap) (style : Value.ListStyle) {v : Value} {fuel more : Nat}
    {path : List Ref} (below : v.Below core.size) (ok : Path core.size fuel path)
    (ok' : Path core.size more path) :
    Value.format style heap more (path.map ρ) (v.rename ρ) =
      Value.format style core fuel path v := by
  induction fuel generalizing v more path with
  | zero =>
    obtain ⟨_, absurd⟩ := ok.fuel_pos
    cases absurd
  | succ fuel ih =>
    obtain ⟨more, rfl⟩ := ok'.fuel_pos
    have parts : ∀ {ref}, ref < core.size → ref ∉ path → ∀ w : Value, w.Below core.size →
        Value.format style heap more (ρ ref :: path.map ρ) (w.rename ρ) =
          Value.format style core fuel (ref :: path) w :=
      fun inside new _ below => ih below (ok.cons inside new) (ok'.cons inside new)
    cases v with
    | null | bool | number | text => simp only [Value.rename_null, Value.rename_bool, Value.rename_number,
      Value.rename_text, Value.format]
    | list ref =>
      have inside := Value.below_list.mp below
      simp only [Value.rename_list, Value.format, List.contains_eq_mem, decide_eq_true_eq,
        embeds.mem_map_iff inside ok.inside, embeds.items inside, Array.toList_map, List.mapM_map]
      split
      · rfl
      next new =>
        congr 1
        exact mapM_congr fun w member => parts inside new w (embeds.below_items ref w member)
    | map ref =>
      have inside := Value.below_map.mp below
      simp only [Value.rename_map, Value.format, List.contains_eq_mem, decide_eq_true_eq,
        embeds.mem_map_iff inside ok.inside, embeds.entries inside, Bindings.rename, List.mapM_map]
      split
      · rfl
      next new =>
        congr 1
        refine mapM_congr fun entry member => ?_
        simp only [Function.comp_apply]
        rw [parts inside new _ (embeds.below_entries ref entry member)]
    | inst ref =>
      have inside := Value.below_inst.mp below
      simp only [Value.rename_inst, Value.format, List.contains_eq_mem, decide_eq_true_eq,
        embeds.mem_map_iff inside ok.inside, embeds.fields inside, embeds.className inside,
        Bindings.rename, List.mapM_map]
      split
      · rfl
      next new =>
        congr 1
        refine mapM_congr fun entry member => ?_
        simp only [Function.comp_apply]
        rw [parts inside new _ (embeds.below_fields ref entry member)]

/-- A heap is no smaller than its core. -/
theorem size_le (embeds : Embeds ρ core heap) : core.size ≤ heap.size := by
  have images : ((List.range core.size).map ρ).Nodup := by
    refine List.Nodup.map_on ?_ List.nodup_range
    intro a memberA b memberB same
    exact embeds.injective a (List.mem_range.mp memberA) b (List.mem_range.mp memberB) same
  have inside : ∀ ref ∈ (List.range core.size).map ρ, ref < heap.size := by
    intro ref member
    obtain ⟨a, there, rfl⟩ := List.mem_map.mp member
    exact embeds.lt_size (List.mem_range.mp there)
  simpa using length_le_of_nodup images inside

theorem paths (embeds : Embeds ρ core heap) : Path core.size (heap.size + 1) [] :=
  path_nil (Nat.lt_succ_of_le embeds.size_le)

theorem display (embeds : Embeds ρ core heap) {v : Value} (below : v.Below core.size) :
    (v.rename ρ).display heap = v.display core :=
  embeds.format .bare below (path_nil (Nat.lt_succ_self _)) embeds.paths

theorem toText (embeds : Embeds ρ core heap) {v : Value} (below : v.Below core.size) :
    (v.rename ρ).toText heap = v.toText core :=
  embeds.format .bracketed below (path_nil (Nat.lt_succ_self _)) embeds.paths

theorem key (embeds : Embeds ρ core heap) {v : Value} (below : v.Below core.size) :
    (v.rename ρ).key heap = v.key core := by
  have shown := embeds.display below
  cases v <;> first | rfl | exact shown

theorem line (embeds : Embeds ρ core heap) {vs : List Value} (below : ∀ v ∈ vs, v.Below core.size) :
    Value.line heap (vs.map (Value.rename ρ)) = Value.line core vs := by
  unfold Value.line
  rw [List.mapM_map]
  congr 1
  exact mapM_congr fun v member => embeds.display (below v member)

theorem spellFrom (embeds : Embeds ρ core heap) {v : Value} {fuel more : Nat} {path : List Ref}
    (below : v.Below core.size) (ok : Path core.size fuel path) (ok' : Path core.size more path) :
    Value.spellFrom heap more (path.map ρ) (v.rename ρ) = Value.spellFrom core fuel path v := by
  induction fuel generalizing v more path with
  | zero =>
    obtain ⟨_, absurd⟩ := ok.fuel_pos
    cases absurd
  | succ fuel ih =>
    obtain ⟨more, rfl⟩ := ok'.fuel_pos
    have parts : ∀ {ref}, ref < core.size → ref ∉ path → ∀ w : Value, w.Below core.size →
        Value.spellFrom heap more (ρ ref :: path.map ρ) (w.rename ρ) =
          Value.spellFrom core fuel (ref :: path) w :=
      fun inside new _ below => ih below (ok.cons inside new) (ok'.cons inside new)
    cases v with
    | null | bool | number | text => simp only [Value.rename_null, Value.rename_bool,
      Value.rename_number, Value.rename_text, Value.spellFrom]
    | list ref =>
      have inside := Value.below_list.mp below
      simp only [Value.rename_list, Value.spellFrom, List.contains_eq_mem, decide_eq_true_eq,
        embeds.mem_map_iff inside ok.inside, embeds.items inside, Array.toList_map, List.map_map]
      split
      · rfl
      next new =>
        congr 3
        exact List.map_congr_left fun w member => parts inside new w (embeds.below_items ref w member)
    | map ref =>
      have inside := Value.below_map.mp below
      simp only [Value.rename_map, Value.spellFrom, List.contains_eq_mem, decide_eq_true_eq,
        embeds.mem_map_iff inside ok.inside, embeds.entries inside, Bindings.rename, List.map_map]
      split
      · rfl
      next new =>
        congr 3
        refine List.map_congr_left fun entry member => ?_
        simp only [Function.comp_apply]
        rw [parts inside new _ (embeds.below_entries ref entry member)]
    | inst ref =>
      have inside := Value.below_inst.mp below
      simp only [Value.rename_inst, Value.spellFrom, List.contains_eq_mem, decide_eq_true_eq,
        embeds.mem_map_iff inside ok.inside, embeds.fields inside, embeds.className inside,
        Bindings.rename, List.map_map]
      split
      · rfl
      next new =>
        congr 3
        refine List.map_congr_left fun entry member => ?_
        simp only [Function.comp_apply]
        rw [parts inside new _ (embeds.below_fields ref entry member)]

theorem spelling (embeds : Embeds ρ core heap) {v : Value} (below : v.Below core.size) :
    (v.rename ρ).spelling heap = v.spelling core :=
  embeds.spellFrom below (path_nil (Nat.lt_succ_self _)) embeds.paths

theorem below_of_reaches (embeds : Embeds ρ core heap) {roots : List Value}
    (below : ∀ v ∈ roots, v.Below core.size) (reached : core.Reaches roots ref) :
    ref < core.size := by
  cases reached with
  | root member refers => exact below _ member _ refers
  | part _ here part refers => exact embeds.closed _ _ here _ part _ refers

/-- The same cells can be reached, under other numbers. -/
theorem reaches_iff (embeds : Embeds ρ core heap) {roots : List Value}
    (below : ∀ v ∈ roots, v.Below core.size) (other : Ref) :
    heap.Reaches (roots.map (Value.rename ρ)) other ↔
      ∃ ref, core.Reaches roots ref ∧ ρ ref = other := by
  constructor
  · intro reached
    induction reached with
    | root member refers =>
      obtain ⟨v, root, rfl⟩ := List.mem_map.mp member
      rw [Value.ref?_rename] at refers
      obtain ⟨ref, own, rfl⟩ := Option.map_eq_some_iff.mp refers
      exact ⟨ref, .root root own, rfl⟩
    | part _ here part refers ih =>
      obtain ⟨ref, reached, rfl⟩ := ih
      obtain ⟨cell, found⟩ := get?_eq_some (embeds.below_of_reaches below reached)
      rw [embeds.cells ref cell found] at here
      cases here
      rw [Cell.parts_rename] at part
      obtain ⟨v, inner, rfl⟩ := List.mem_map.mp part
      rw [Value.ref?_rename] at refers
      obtain ⟨next, own, rfl⟩ := Option.map_eq_some_iff.mp refers
      exact ⟨next, .part reached found inner own, rfl⟩
  · rintro ⟨ref, reached, rfl⟩
    induction reached with
    | root member refers =>
      refine .root (List.mem_map_of_mem member) ?_
      rw [Value.ref?_rename, refers]
      rfl
    | @part ref next cell v _ here part refers ih =>
      have moved : v.rename ρ ∈ (cell.rename ρ).parts := by
        rw [Cell.parts_rename]
        exact List.mem_map_of_mem part
      refine .part ih (embeds.cells _ _ here) moved ?_
      rw [Value.ref?_rename, refers]
      rfl

theorem fits (embeds : Embeds ρ core heap) {v : Value} (below : v.Below core.size) :
    (v.rename ρ).fits heap = v.fits core := by
  have writable : ∀ w : Value, (w.rename ρ).isWritable = w.isWritable := by
    intro w
    rw [Value.isWritable, Value.isWritable, Value.scalar?_rename]
  have cellWritable : ∀ cell : Cell, (cell.rename ρ).isWritable = cell.isWritable := by
    intro cell
    cases cell <;> simp [Cell.rename, Cell.isWritable, Bindings.rename, writable, Function.comp_def]
  have roots : ∀ w ∈ [v], w.Below core.size := by simpa using below
  unfold Value.fits
  rw [Value.ref?_rename]
  cases refers : v.ref? with
  | none => exact writable v
  | some _ =>
    rw [Option.map_some]
    dsimp only
    rw [Bool.eq_iff_iff, List.all_eq_true, List.all_eq_true]
    constructor
    · intro all ref member
      have reached := ((mem_reachable core _ _).mp member).1
      have inside := embeds.below_of_reaches roots reached
      have holds := all (ρ ref) ((mem_reachable heap _ _).mpr
        ⟨(embeds.reaches_iff roots (ρ ref)).mpr ⟨ref, reached, rfl⟩, embeds.lt_size inside⟩)
      rw [embeds.get? inside] at holds
      cases here : core.get? ref <;> simp_all
    · intro all other member
      obtain ⟨ref, reached, rfl⟩ :=
        (embeds.reaches_iff roots other).mp ((mem_reachable heap _ _).mp member).1
      have inside := embeds.below_of_reaches roots reached
      have holds := all ref ((mem_reachable core _ _).mpr ⟨reached, inside⟩)
      rw [embeds.get? inside]
      cases here : core.get? ref <;> simp_all

theorem literal (embeds : Embeds ρ core heap) {v : Value} (below : v.Below core.size) :
    (v.rename ρ).literal heap = v.literal core := by
  rw [Value.literal, Value.literal, embeds.fits below, embeds.spelling below]

theorem plain (embeds : Embeds ρ core heap) {v : Value} (below : v.Below core.size) :
    (v.rename ρ).plain heap = v.plain core := by
  have shown := embeds.literal below
  cases v <;> first | rfl | exact shown

end Heap.Embeds

theorem Value.allEqual_rename {ρ : Ref → Ref} {f g : Value → Value → Except Failure Bool}
    {pairs : List (Value × Value)}
    (same : ∀ pair ∈ pairs, f (pair.1.rename ρ) (pair.2.rename ρ) = g pair.1 pair.2) :
    allEqual f (pairs.map (Prod.map (rename ρ) (rename ρ))) = allEqual g pairs := by
  induction pairs with
  | nil => rfl
  | cons pair pairs ih =>
    have rest := ih fun other member => same other (.tail _ member)
    simp only [List.map_cons, Prod.map, allEqual, same pair (.head _)] at rest ⊢
    rw [rest]

namespace Heap.Embeds

variable {ρ : Ref → Ref} {core heap : Heap}

theorem mem_pairs_iff (embeds : Embeds ρ core heap) {path : List (Ref × Ref)} {a b : Ref}
    (first : a < core.size) (second : b < core.size)
    (within : ∀ pair ∈ path, pair.1 < core.size ∧ pair.2 < core.size) :
    (ρ a, ρ b) ∈ path.map (Prod.map ρ ρ) ↔ (a, b) ∈ path := by
  constructor
  · intro member
    obtain ⟨⟨c, d⟩, there, same⟩ := List.mem_map.mp member
    obtain ⟨sameFirst, sameSecond⟩ := Prod.mk.inj same
    obtain ⟨insideC, insideD⟩ := within _ there
    rwa [← embeds.injective c insideC a first sameFirst,
      ← embeds.injective d insideD b second sameSecond]
  · exact List.mem_map_of_mem

theorem sameKeys_rename (ρ : Ref → Ref) (xs ys : Bindings Value) :
    Value.sameKeys (xs.rename ρ) (ys.rename ρ) = Value.sameKeys xs ys := by
  have has : ∀ name, (ys.rename ρ).has name = ys.has name := by
    intro name
    rw [Bindings.has, Bindings.has, Bindings.get?_rename, Option.isSome_map]
  have keys : ∀ f : Name → Bool, (xs.rename ρ).all (fun entry => f entry.1) =
      xs.all fun entry => f entry.1 := by
    intro f
    simp [Bindings.rename, Function.comp_def]
  simp only [Value.sameKeys, has, keys]
  simp [Bindings.rename]

theorem equalFrom (embeds : Embeds ρ core heap) {v w : Value} {fuel more : Nat}
    {path : List (Ref × Ref)} (belowV : v.Below core.size) (belowW : w.Below core.size)
    (ok : PairPath core.size fuel path) (ok' : PairPath core.size more path) :
    Value.equalFrom heap more (path.map (Prod.map ρ ρ)) (v.rename ρ) (w.rename ρ) =
      Value.equalFrom core fuel path v w := by
  induction fuel generalizing v w more path with
  | zero =>
    obtain ⟨_, absurd⟩ := ok.fuel_pos
    cases absurd
  | succ fuel ih =>
    obtain ⟨more, rfl⟩ := ok'.fuel_pos
    cases v with
    | inst a =>
      cases w with
      | inst b =>
        have same := embeds.eq_iff (Value.below_inst.mp belowV) (Value.below_inst.mp belowW)
        simp only [Value.rename_inst, Value.equalFrom, beq_eq_decide, same]
      | _ => simp [Value.equalFrom]
    | list a =>
      cases w with
      | list b =>
        have first := Value.below_list.mp belowV
        have second := Value.below_list.mp belowW
        simp only [Value.rename_list, Value.equalFrom, List.contains_eq_mem, decide_eq_true_eq,
          embeds.mem_pairs_iff first second ok.inside, embeds.items first, embeds.items second,
          Array.size_map, Array.toList_map, List.zip_map]
        split
        · rfl
        · split
          · rfl
          next new =>
            refine Value.allEqual_rename fun pair member => ?_
            obtain ⟨memberV, memberW⟩ := List.of_mem_zip member
            exact ih (embeds.below_items a _ memberV) (embeds.below_items b _ memberW)
              (ok.cons first second new) (ok'.cons first second new)
      | _ => simp [Value.equalFrom]
    | map a =>
      cases w with
      | map b =>
        have first := Value.below_map.mp belowV
        have second := Value.below_map.mp belowW
        simp only [Value.rename_map, Value.equalFrom, List.contains_eq_mem, decide_eq_true_eq,
          embeds.mem_pairs_iff first second ok.inside, embeds.entries first, embeds.entries second,
          sameKeys_rename]
        split
        · rfl
        · split
          · rfl
          next new =>
            have pairs : ((core.entries a).rename ρ).map
                  (fun entry => (entry.2, (((core.entries b).rename ρ).get? entry.1).getD .null)) =
                ((core.entries a).map fun entry =>
                  (entry.2, ((core.entries b).get? entry.1).getD .null)).map
                    (Prod.map (Value.rename ρ) (Value.rename ρ)) := by
              simp only [Bindings.get?_rename]
              rw [Bindings.rename, List.map_map, List.map_map]
              refine List.map_congr_left fun entry _ => ?_
              simp only [Function.comp_apply, Prod.map]
              cases (core.entries b).get? entry.1 <;> rfl
            rw [pairs]
            refine Value.allEqual_rename fun pair member => ?_
            obtain ⟨entry, memberV, rfl⟩ := List.mem_map.mp member
            refine ih (embeds.below_entries a entry memberV) ?_ (ok.cons first second new)
              (ok'.cons first second new)
            cases found : (core.entries b).get? entry.1 with
            | none => exact Value.below_null _
            | some other => exact Bindings.below_of_get? (embeds.below_entries b) found
      | _ => simp [Value.equalFrom]
    | _ => cases w <;> simp [Value.equalFrom]

theorem equal (embeds : Embeds ρ core heap) {v w : Value} (belowV : v.Below core.size)
    (belowW : w.Below core.size) :
    Value.equal heap (v.rename ρ) (w.rename ρ) = Value.equal core v w := by
  have squares := Nat.mul_le_mul embeds.size_le embeds.size_le
  exact embeds.equalFrom belowV belowW (.nil _) ⟨.nil, by simp, Nat.lt_succ_of_le squares⟩

end Heap.Embeds

end Stepwise
