import Stepwise.Builtin
import Stepwise.Proofs.Renaming.Values
import Stepwise.Proofs.Runs

/-!
Builtin functions do not depend on how cells are numbered.
-/
namespace Stepwise

namespace Heap.Embeds

open Prelude
open Value (Image)

variable {ρ : Ref → Ref} {core heap : Heap} {args : List Value} {v : Value}

theorem arity_rename (name : String) (args : List Value) (low high : Nat) (usage : Option String) :
    arity name (args.map (Value.rename ρ)) low high usage = arity name args low high usage := by
  simp only [arity, List.length_map]

theorem arg_rename (args : List Value) (i : Nat) :
    arg (args.map (Value.rename ρ)) i = (arg args i).rename ρ := by
  rw [arg, arg, List.getD_eq_getElem?_getD, List.getD_eq_getElem?_getD, List.getElem?_map]
  cases args[i]? <;> rfl

theorem below_arg {size : Nat} (below : ∀ v ∈ args, v.Below size) (i : Nat) :
    (arg args i).Below size := by
  rw [arg, List.getD_eq_getElem?_getD]
  cases found : args[i]? with
  | none => exact Value.below_null _
  | some v => exact below v (List.mem_of_getElem? found)

theorem whole?_rename (v : Value) : whole? (v.rename ρ) = whole? v := by
  cases v <;> rfl

theorem wantText (embeds : Embeds ρ core heap) (name : String) (below : v.Below core.size)
    (position : String) :
    Prelude.wantText name heap (v.rename ρ) position = Prelude.wantText name core v position := by
  have named := embeds.typeName below
  cases v with
  | inst ref =>
    simp only [Value.rename_inst] at named
    simp only [Value.rename_inst, Prelude.wantText, named]
  | _ => rfl

theorem wantNumber (embeds : Embeds ρ core heap) (name : String) (below : v.Below core.size)
    (position : String) :
    Prelude.wantNumber name heap (v.rename ρ) position =
      Prelude.wantNumber name core v position := by
  have named := embeds.typeName below
  cases v with
  | inst ref =>
    simp only [Value.rename_inst] at named
    simp only [Value.rename_inst, Prelude.wantNumber, named]
  | _ => rfl

theorem wantList (embeds : Embeds ρ core heap) (name : String) (below : v.Below core.size)
    (position : String) :
    Alike (fun ref ref' => ref < core.size ∧ ref' = ρ ref) (Prelude.wantList name core v position)
      (Prelude.wantList name heap (v.rename ρ) position) := by
  have named := embeds.typeName below
  cases v with
  | list ref => exact .ok ⟨Value.below_list.mp below, rfl⟩
  | inst ref =>
    simp only [Value.rename_inst] at named
    simp only [Value.rename_inst, Prelude.wantList, named]
    exact .error
  | _ => exact .error

/-- A list is given other items. -/
theorem made_list (embeds : Embeds ρ core heap) {ref : Ref} (inside : ref < core.size) {v w : Value}
    (image : Image ρ core.size v w) {items items' : Array Value}
    (same : items' = items.map (Value.rename ρ)) (below : ∀ v ∈ items.toList, v.Below core.size) :
    Made ρ core (v, core.set ref (.list items)) (w, heap.set (ρ ref) (.list items')) := by
  subst same
  obtain ⟨le, grown⟩ := @grown_set _ _ _ embeds _ inside (.list items) below
  exact ⟨le, ⟨image.1.mono le, image.2⟩, grown⟩

theorem null_image (ρ : Ref → Ref) (size : Nat) : Image ρ size .null .null := .of_scalar ρ size rfl

theorem append (embeds : Embeds ρ core heap) (below : ∀ v ∈ args, v.Below core.size) :
    Alike (Made ρ core) (Prelude.append core args)
      (Prelude.append heap (args.map (Value.rename ρ))) := by
  simp only [Prelude.append, arity_rename, arg_rename]
  refine .andThen rfl fun _ => .bind (embeds.wantList _ (below_arg below 0) _) ?_
  rintro ref _ ⟨inside, rfl⟩
  refine .pure (embeds.made_list inside (null_image ρ _) ?_ ?_)
  · rw [embeds.items inside, Array.map_push]
  · intro v member
    rw [Array.toList_push] at member
    rcases List.mem_append.mp member with old | new
    · exact embeds.below_items ref v old
    · rw [List.mem_singleton.mp new]
      exact below_arg below 1

theorem isEmpty_items (items : Array Value) :
    (items.map (Value.rename ρ)).isEmpty = items.isEmpty := by
  simp [Array.isEmpty]

/-- Takes an item out of a list, wherever its position comes from. -/
theorem popAt (embeds : Embeds ρ core heap) {ref : Ref} (inside : ref < core.size) (position : Int) :
    Alike (Made ρ core)
      (if (position < -((core.items ref).size : Int) ||
          ((core.items ref).size : Int) ≤ position) = true then do
        let shown ← digits position
        refuse "pop" s!"index {shown} is out of range (length {(core.items ref).size})"
      else
        pure ((core.items ref).getD
            (if position < 0 then position + (core.items ref).size else position).toNat .null,
          core.set ref (.list ((core.items ref).eraseIdxIfInBounds
            (if position < 0 then position + (core.items ref).size else position).toNat))))
      (if (position < -((core.items ref).size : Int) ||
          ((core.items ref).size : Int) ≤ position) = true then do
        let shown ← digits position
        refuse "pop" s!"index {shown} is out of range (length {(core.items ref).size})"
      else
        pure (((core.items ref).map (Value.rename ρ)).getD
            (if position < 0 then position + (core.items ref).size else position).toNat .null,
          heap.set (ρ ref) (.list (((core.items ref).map (Value.rename ρ)).eraseIdxIfInBounds
            (if position < 0 then position + (core.items ref).size else position).toNat)))) := by
  split
  · exact .andThen rfl fun _ => .error
  · refine .pure (embeds.made_list inside (embeds.getD_items _) ?_ ?_)
    · apply Array.toList_inj.mp
      simp [List.eraseIdx_map]
    · intro v member
      rw [Array.toList_eraseIdxIfInBounds] at member
      exact embeds.below_items ref v (List.mem_of_mem_eraseIdx member)

theorem pop (embeds : Embeds ρ core heap) (below : ∀ v ∈ args, v.Below core.size) :
    Alike (Made ρ core) (Prelude.pop core args) (Prelude.pop heap (args.map (Value.rename ρ))) := by
  simp only [Prelude.pop, arity_rename, arg_rename, whole?_rename, List.length_map]
  refine .andThen rfl fun _ => .bind (embeds.wantList _ (below_arg below 0) _) ?_
  rintro ref _ ⟨inside, rfl⟩
  simp only [embeds.items inside, isEmpty_items, Array.size_map]
  split
  · exact .error
  · split
    · exact .andThen rfl (embeds.popAt inside)
    · split
      · exact .andThen rfl (embeds.popAt inside)
      · exact .error

theorem insert (embeds : Embeds ρ core heap) (below : ∀ v ∈ args, v.Below core.size) :
    Alike (Made ρ core) (Prelude.insert core args)
      (Prelude.insert heap (args.map (Value.rename ρ))) := by
  simp only [Prelude.insert, arity_rename, arg_rename, whole?_rename]
  refine .andThen rfl fun _ => .bind (embeds.wantList _ (below_arg below 0) _) ?_
  rintro ref _ ⟨inside, rfl⟩
  simp only [embeds.items inside, Array.size_map]
  split
  · exact .error
  · split
    · exact .andThen rfl fun _ => .error
    · refine .pure (embeds.made_list inside (null_image ρ _) ?_ ?_)
      · simp only [Array.map_append, Array.map_extract, List.map_toArray, List.map_cons, List.map_nil]
      · intro v member
        simp only [Array.toList_append, Array.toList_extract, List.mem_append, List.mem_singleton]
          at member
        rcases member with (early | rfl) | late
        · exact embeds.below_items ref v (List.mem_of_mem_drop (List.mem_of_mem_take early))
        · exact below_arg below 2
        · exact embeds.below_items ref v (List.mem_of_mem_drop (List.mem_of_mem_take late))

theorem reverse (embeds : Embeds ρ core heap) (below : ∀ v ∈ args, v.Below core.size) :
    Alike (Made ρ core) (Prelude.reverse core args)
      (Prelude.reverse heap (args.map (Value.rename ρ))) := by
  simp only [Prelude.reverse, arity_rename, arg_rename]
  refine .andThen rfl fun _ => .bind (embeds.wantList _ (below_arg below 0) _) ?_
  rintro ref _ ⟨inside, rfl⟩
  refine .pure (embeds.made_list inside (null_image ρ _) ?_ ?_)
  · rw [embeds.items inside, Array.map_reverse]
  · intro v member
    rw [Array.toList_reverse, List.mem_reverse] at member
    exact embeds.below_items ref v member

theorem clear (embeds : Embeds ρ core heap) (below : ∀ v ∈ args, v.Below core.size) :
    Alike (Made ρ core) (Prelude.clear core args)
      (Prelude.clear heap (args.map (Value.rename ρ))) := by
  simp only [Prelude.clear, arity_rename, arg_rename]
  refine .andThen rfl fun _ => .bind (embeds.wantList _ (below_arg below 0) _) ?_
  rintro ref _ ⟨inside, rfl⟩
  refine .pure (embeds.made_list inside (null_image ρ _) (by simp) ?_)
  exact fun _ member => nomatch member

theorem sortKey (embeds : Embeds ρ core heap) (below : v.Below core.size) :
    Prelude.sortKey heap (v.rename ρ) = Prelude.sortKey core v := by
  have shown := embeds.display below
  cases v with
  | number n => rfl
  | _ => exact congrArg (fun text => text >>= fun s => pure (SortKey.text s)) shown

theorem sortByKey_rename (keyed : List (SortKey × Value)) :
    sortByKey (keyed.map (Prod.map id (Value.rename ρ))) =
      (sortByKey keyed).map (Prod.map id (Value.rename ρ)) := by
  have ordered : (keyed.map (Prod.map id (Value.rename ρ))).all (fun entry => entry.1.isOrdered) =
      keyed.all fun entry => entry.1.isOrdered := by
    rw [List.all_map]
    rfl
  unfold sortByKey
  rw [ordered]
  split
  · symm
    apply List.map_mergeSort
    exact fun _ _ _ _ => rfl
  · exact Runs.sort_map _ _ _

theorem mem_of_mem_sortByKey {keyed : List (SortKey × Value)} {entry : SortKey × Value}
    (member : entry ∈ sortByKey keyed) : entry ∈ keyed := by
  unfold sortByKey at member
  split at member
  · exact (List.mergeSort_perm _ _).mem_iff.mp member
  · exact Runs.mem_of_mem_sort member

theorem keyed (embeds : Embeds ρ core heap) {items : List Value}
    (below : ∀ v ∈ items, v.Below core.size) :
    Alike (fun found found' => (∀ entry ∈ found, entry.2.Below core.size) ∧
        found' = found.map (Prod.map id (Value.rename ρ)))
      (items.mapM fun v => do return (← Prelude.sortKey core v, v))
      ((items.map (Value.rename ρ)).mapM fun v => do return (← Prelude.sortKey heap v, v)) := by
  induction items with
  | nil => exact .ok ⟨(fun _ member => nomatch member), rfl⟩
  | cons v items ih =>
    have first := below v (.head _)
    rw [List.map_cons, List.mapM_cons, List.mapM_cons, embeds.sortKey first]
    simp only [bind_assoc, pure_bind]
    refine .andThen rfl fun key => .bind (ih fun w member => below w (.tail _ member)) ?_
    rintro found _ ⟨rest, rfl⟩
    refine .pure ⟨?_, rfl⟩
    intro entry member
    rcases List.mem_cons.mp member with rfl | later
    · exact first
    · exact rest entry later

theorem sort (embeds : Embeds ρ core heap) (below : ∀ v ∈ args, v.Below core.size) :
    Alike (Made ρ core) (Prelude.sort core args) (Prelude.sort heap (args.map (Value.rename ρ))) := by
  simp only [Prelude.sort, arity_rename, arg_rename]
  refine .andThen rfl fun _ => .bind (embeds.wantList _ (below_arg below 0) _) ?_
  rintro ref _ ⟨inside, rfl⟩
  have emptied : Embeds ρ (core.set ref (.list #[])) (heap.set (ρ ref) (.list #[])) := by
    have set := @Embeds.set _ _ _ _ embeds inside (.list #[]) (fun _ member => nomatch member)
    simpa [Cell.rename] using set
  have items : ∀ v ∈ (core.items ref).toList, v.Below (core.set ref (.list #[])).size := by
    rw [size_set]
    exact embeds.below_items ref
  rw [embeds.items inside, Array.toList_map]
  refine .bind (emptied.keyed items) ?_
  rintro found _ ⟨within, rfl⟩
  rw [size_set] at within
  refine .pure (embeds.made_list inside (null_image ρ _) ?_ ?_)
  · rw [sortByKey_rename, List.map_map, List.map_toArray, List.map_map]
    rfl
  · intro v member
    obtain ⟨entry, sorted, rfl⟩ := List.mem_map.mp member
    exact within entry (mem_of_mem_sortByKey sorted)

theorem indexFrom (embeds : Embeds ρ core heap) (belowV : v.Below core.size) {items : List Value}
    (below : ∀ w ∈ items, w.Below core.size) (i : Nat) :
    Prelude.indexFrom heap (v.rename ρ) i (items.map (Value.rename ρ)) =
      Prelude.indexFrom core v i items := by
  induction items generalizing i with
  | nil => rfl
  | cons item items ih =>
    rw [List.map_cons, Prelude.indexFrom, Prelude.indexFrom,
      embeds.equal (below item (.head _)) belowV, ih fun w member => below w (.tail _ member)]

theorem countEqual (embeds : Embeds ρ core heap) (belowV : v.Below core.size) {items : List Value}
    (below : ∀ w ∈ items, w.Below core.size) :
    Prelude.countEqual heap (v.rename ρ) (items.map (Value.rename ρ)) =
      Prelude.countEqual core v items := by
  induction items with
  | nil => rfl
  | cons item items ih =>
    rw [List.map_cons, Prelude.countEqual, Prelude.countEqual,
      embeds.equal (below item (.head _)) belowV, ih fun w member => below w (.tail _ member)]

theorem index (embeds : Embeds ρ core heap) (below : ∀ v ∈ args, v.Below core.size) :
    Alike (Image ρ core.size) (Prelude.index core args)
      (Prelude.index heap (args.map (Value.rename ρ))) := by
  simp only [Prelude.index, arity_rename, arg_rename]
  refine .andThen rfl fun _ => .bind (embeds.wantList _ (below_arg below 0) _) ?_
  rintro ref _ ⟨inside, rfl⟩
  rw [embeds.items inside, Array.toList_map]
  exact .andThen (embeds.indexFrom (below_arg below 1) (embeds.below_items ref) 0) fun _ =>
    .pure (.of_scalar ρ _ rfl)

theorem count (embeds : Embeds ρ core heap) (below : ∀ v ∈ args, v.Below core.size) :
    Alike (Image ρ core.size) (Prelude.count core args)
      (Prelude.count heap (args.map (Value.rename ρ))) := by
  simp only [Prelude.count, arity_rename, arg_rename]
  refine .andThen rfl fun _ => .bind (embeds.wantList _ (below_arg below 0) _) ?_
  rintro ref _ ⟨inside, rfl⟩
  rw [embeds.items inside, Array.toList_map]
  exact .andThen (embeds.countEqual (below_arg below 1) (embeds.below_items ref)) fun _ =>
    .pure (.of_scalar ρ _ rfl)

theorem len (embeds : Embeds ρ core heap) (below : ∀ v ∈ args, v.Below core.size) :
    Alike (Image ρ core.size) (Prelude.len core args)
      (Prelude.len heap (args.map (Value.rename ρ))) := by
  simp only [Prelude.len, arity_rename, arg_rename]
  refine .andThen rfl fun _ => ?_
  have first := below_arg below 0
  generalize arg args 0 = v at first
  have named := embeds.typeName first
  cases v with
  | list ref =>
    simp only [Value.rename_list, embeds.items (Value.below_list.mp first), Array.size_map]
    exact .pure (.of_scalar ρ _ rfl)
  | text s => exact .pure (.of_scalar ρ _ rfl)
  | map ref =>
    simp only [Value.rename_map, embeds.entries (Value.below_map.mp first), Bindings.rename,
      List.length_map]
    exact .pure (.of_scalar ρ _ rfl)
  | inst ref =>
    simp only [Value.rename_inst] at named
    simp only [Value.rename_inst, named]
    exact .error
  | _ => exact .error

theorem abs (embeds : Embeds ρ core heap) (below : ∀ v ∈ args, v.Below core.size) :
    Alike (Image ρ core.size) (Prelude.abs core args)
      (Prelude.abs heap (args.map (Value.rename ρ))) := by
  simp only [Prelude.abs, arity_rename, arg_rename, embeds.wantNumber _ (below_arg below 0)]
  exact .andThen rfl fun _ => .andThen rfl fun _ => .pure (.of_scalar ρ _ rfl)

/-- The best of some values. -/
theorem bestOf (embeds : Embeds ρ core heap) (name : String) (beats : Number → Number → Bool)
    {values : List Value} (below : ∀ v ∈ values, v.Below core.size) :
    Alike (Image ρ core.size)
      (do match ← values.mapM fun v => Prelude.wantNumber name core v "every value" with
        | [] => refuse name "needs at least 1 argument"
        | first :: rest => return .number (best beats first rest))
      (do match ← (values.map (Value.rename ρ)).mapM fun v =>
            Prelude.wantNumber name heap v "every value" with
        | [] => refuse name "needs at least 1 argument"
        | first :: rest => return .number (best beats first rest)) := by
  refine .andThen ?_ fun numbers => ?_
  · rw [List.mapM_map]
    exact mapM_congr fun v member => embeds.wantNumber _ (below v member) _
  · split
    · exact .error
    · exact .pure (.of_scalar ρ _ rfl)

theorem extreme (embeds : Embeds ρ core heap) (name : String) (beats : Number → Number → Bool)
    (below : ∀ v ∈ args, v.Below core.size) :
    Alike (Image ρ core.size) (Prelude.extreme name beats core args)
      (Prelude.extreme name beats heap (args.map (Value.rename ρ))) := by
  have several := embeds.bestOf name beats below
  unfold Prelude.extreme
  match args with
  | [] => exact .error
  | [.list ref] =>
    have inside := Value.below_list.mp (below _ (.head _))
    simp only [List.map_cons, List.map_nil, Value.rename_list, embeds.items inside, isEmpty_items,
      Array.toList_map]
    split
    · exact .error
    · exact embeds.bestOf name beats (embeds.below_items ref)
  | [.null] | [.bool _] | [.number _] | [.text _] | [.map _] | [.inst _] => exact several
  | v :: _ :: _ => cases v <;> exact several

theorem sumFrom (embeds : Embeds ρ core heap) {values : List Value}
    (below : ∀ v ∈ values, v.Below core.size) (total : Number) :
    Alike (Image ρ core.size) (Prelude.sumFrom core total values)
      (Prelude.sumFrom heap total (values.map (Value.rename ρ))) := by
  induction values generalizing total with
  | nil => exact .ok (.of_scalar ρ _ rfl)
  | cons v values ih =>
    rw [List.map_cons, Prelude.sumFrom, Prelude.sumFrom]
    refine .andThen (embeds.wantNumber _ (below v (.head _)) _) fun n => ?_
    split
    · exact ih (fun w member => below w (.tail _ member)) _
    · exact .error

theorem sum (embeds : Embeds ρ core heap) (below : ∀ v ∈ args, v.Below core.size) :
    Alike (Image ρ core.size) (Prelude.sum core args)
      (Prelude.sum heap (args.map (Value.rename ρ))) := by
  simp only [Prelude.sum, arity_rename, arg_rename]
  refine .andThen rfl fun _ => .bind (embeds.wantList _ (below_arg below 0) _) ?_
  rintro ref _ ⟨inside, rfl⟩
  rw [embeds.items inside, Array.toList_map]
  exact embeds.sumFrom (embeds.below_items ref) _

theorem alike_roundPlaces (size : Nat) (n : Number) (places : Nat) :
    Alike (Image ρ size) (roundPlaces n places) (roundPlaces n places) := alike_orTooLarge _ _

theorem round (embeds : Embeds ρ core heap) (below : ∀ v ∈ args, v.Below core.size) :
    Alike (Image ρ core.size) (Prelude.round core args)
      (Prelude.round heap (args.map (Value.rename ρ))) := by
  simp only [Prelude.round, arity_rename, arg_rename, whole?_rename, List.length_map,
    embeds.wantNumber _ (below_arg below 0)]
  refine .andThen rfl fun _ => .andThen rfl fun n => ?_
  split
  · split
    · exact .pure (.of_scalar ρ _ rfl)
    · split
      · exact .pure (.of_scalar ρ _ rfl)
      · exact .andThen rfl fun _ => .pure (.of_scalar ρ _ rfl)
  · split
    · exact alike_roundPlaces _ _ _
    · split
      · exact alike_roundPlaces _ _ _
      · exact .pure (.of_scalar ρ _ rfl)
    · exact .error

theorem sqrt (embeds : Embeds ρ core heap) (below : ∀ v ∈ args, v.Below core.size) :
    Alike (Image ρ core.size) (Prelude.sqrt core args)
      (Prelude.sqrt heap (args.map (Value.rename ρ))) := by
  simp only [Prelude.sqrt, arity_rename, arg_rename, embeds.wantNumber _ (below_arg below 0)]
  refine .andThen rfl fun _ => .andThen rfl fun n => ?_
  split
  · exact .error
  · split
    · exact .pure (.of_scalar ρ _ rfl)
    · exact .error

theorem power (embeds : Embeds ρ core heap) (below : ∀ v ∈ args, v.Below core.size) :
    Alike (Image ρ core.size) (Prelude.pow core args)
      (Prelude.pow heap (args.map (Value.rename ρ))) := by
  simp only [Prelude.pow, arity_rename, arg_rename, embeds.wantNumber _ (below_arg below 0),
    embeds.wantNumber _ (below_arg below 1)]
  refine .andThen rfl fun _ => .andThen rfl fun base => .andThen rfl fun exponent => ?_
  split
  · exact .pure (.of_scalar ρ _ rfl)
  · split
    · exact .pure (.of_scalar ρ _ rfl)
    · exact .andThen rfl fun _ => .andThen rfl fun _ => .error

theorem toInt (embeds : Embeds ρ core heap) (below : ∀ v ∈ args, v.Below core.size) :
    Alike (Image ρ core.size) (Prelude.toInt core args)
      (Prelude.toInt heap (args.map (Value.rename ρ))) := by
  simp only [Prelude.toInt, arity_rename, arg_rename]
  refine .andThen rfl fun _ => ?_
  have first := below_arg below 0
  generalize arg args 0 = v at first
  have named := embeds.typeName first
  cases v with
  | bool b => exact .pure (.of_scalar ρ _ rfl)
  | number n => exact .andThen rfl fun _ => .pure (.of_scalar ρ _ rfl)
  | text s =>
    simp only [Value.rename_text]
    split
    · exact .pure (.of_scalar ρ _ rfl)
    · exact .error
  | inst ref =>
    simp only [Value.rename_inst] at named
    simp only [Value.rename_inst, named]
    exact .error
  | _ => exact .error

theorem toFloat (embeds : Embeds ρ core heap) (below : ∀ v ∈ args, v.Below core.size) :
    Alike (Image ρ core.size) (Prelude.toFloat core args)
      (Prelude.toFloat heap (args.map (Value.rename ρ))) := by
  simp only [Prelude.toFloat, arity_rename, arg_rename]
  refine .andThen rfl fun _ => ?_
  have first := below_arg below 0
  generalize arg args 0 = v at first
  have named := embeds.typeName first
  cases v with
  | bool b => exact .pure (.of_scalar ρ _ rfl)
  | number n =>
    simp only [Value.rename_number]
    split
    · exact .pure (.of_scalar ρ _ rfl)
    · exact .error
  | text s =>
    simp only [Value.rename_text]
    split
    · exact .pure (.of_scalar ρ _ rfl)
    · exact .error
  | inst ref =>
    simp only [Value.rename_inst] at named
    simp only [Value.rename_inst, named]
    exact .error
  | _ => exact .error

theorem str (embeds : Embeds ρ core heap) (below : ∀ v ∈ args, v.Below core.size) :
    Alike (Image ρ core.size) (Prelude.toText core args)
      (Prelude.toText heap (args.map (Value.rename ρ))) := by
  simp only [Prelude.toText, arity_rename, arg_rename, embeds.toText (below_arg below 0)]
  exact .andThen rfl fun _ => .andThen rfl fun _ => .pure (.of_scalar ρ _ rfl)

theorem upper (embeds : Embeds ρ core heap) (below : ∀ v ∈ args, v.Below core.size) :
    Alike (Image ρ core.size) (Prelude.upper core args)
      (Prelude.upper heap (args.map (Value.rename ρ))) := by
  simp only [Prelude.upper, arity_rename, arg_rename, embeds.wantText _ (below_arg below 0)]
  exact .andThen rfl fun _ => .andThen rfl fun _ => .pure (.of_scalar ρ _ rfl)

theorem lower (embeds : Embeds ρ core heap) (below : ∀ v ∈ args, v.Below core.size) :
    Alike (Image ρ core.size) (Prelude.lower core args)
      (Prelude.lower heap (args.map (Value.rename ρ))) := by
  simp only [Prelude.lower, arity_rename, arg_rename, embeds.wantText _ (below_arg below 0)]
  exact .andThen rfl fun _ => .andThen rfl fun _ => .pure (.of_scalar ρ _ rfl)

theorem strip (embeds : Embeds ρ core heap) (below : ∀ v ∈ args, v.Below core.size) :
    Alike (Image ρ core.size) (Prelude.strip core args)
      (Prelude.strip heap (args.map (Value.rename ρ))) := by
  simp only [Prelude.strip, arity_rename, arg_rename, embeds.wantText _ (below_arg below 0)]
  exact .andThen rfl fun _ => .andThen rfl fun _ => .pure (.of_scalar ρ _ rfl)

theorem pieces (embeds : Embeds ρ core heap) (below : ∀ v ∈ args, v.Below core.size) :
    Prelude.pieces heap (args.map (Value.rename ρ)) = Prelude.pieces core args := by
  simp only [Prelude.pieces, arity_rename, arg_rename, List.length_map,
    embeds.wantText _ (below_arg below 0), embeds.wantText _ (below_arg below 1)]

theorem split (embeds : Embeds ρ core heap) (below : ∀ v ∈ args, v.Below core.size) :
    Alike (Made ρ core) (Prelude.split core args)
      (Prelude.split heap (args.map (Value.rename ρ))) := by
  refine .andThen (embeds.pieces below) fun found => .pure ?_
  have texts : (found.map Value.text).toArray =
      (found.map Value.text).toArray.map (Value.rename ρ) := by
    rw [List.map_toArray, List.map_map]
    rfl
  have made := @made_newList _ _ _ embeds (found.map Value.text).toArray ?_
  · rwa [← texts] at made
  · intro v member
    obtain ⟨s, -, rfl⟩ := List.mem_map.mp member
    exact Value.below_text _ _

theorem join (embeds : Embeds ρ core heap) (below : ∀ v ∈ args, v.Below core.size) :
    Alike (Image ρ core.size) (Prelude.join core args)
      (Prelude.join heap (args.map (Value.rename ρ))) := by
  simp only [Prelude.join, arity_rename, arg_rename, List.length_map,
    embeds.display (below_arg below 1)]
  refine .andThen rfl fun _ => .bind (embeds.wantList _ (below_arg below 0) _) ?_
  rintro ref _ ⟨inside, rfl⟩
  have texts : (heap.items (ρ ref)).toList.mapM (Value.toText heap) =
      (core.items ref).toList.mapM (Value.toText core) := by
    rw [embeds.items inside, Array.toList_map, List.mapM_map]
    exact mapM_congr fun v member => embeds.toText (embeds.below_items ref v member)
  rw [texts]
  split
  · exact .andThen rfl fun _ => .andThen rfl fun _ => .pure (.of_scalar ρ _ rfl)
  · exact .andThen rfl fun _ => .andThen rfl fun _ => .pure (.of_scalar ρ _ rfl)

theorem replace (embeds : Embeds ρ core heap) (below : ∀ v ∈ args, v.Below core.size) :
    Alike (Image ρ core.size) (Prelude.replace core args)
      (Prelude.replace heap (args.map (Value.rename ρ))) := by
  simp only [Prelude.replace, arity_rename, arg_rename, embeds.wantText _ (below_arg below 0),
    embeds.wantText _ (below_arg below 1), embeds.wantText _ (below_arg below 2)]
  exact .andThen rfl fun _ => .andThen rfl fun _ => .andThen rfl fun _ => .andThen rfl fun _ =>
    .pure (.of_scalar ρ _ rfl)

theorem onPart (embeds : Embeds ρ core heap) (name usage : String)
    {ask : List Char → List Char → Value} (scalar : ∀ whole part, (ask whole part).ref? = none)
    (below : ∀ v ∈ args, v.Below core.size) :
    Alike (Image ρ core.size) (Prelude.onPart name usage ask core args)
      (Prelude.onPart name usage ask heap (args.map (Value.rename ρ))) := by
  simp only [Prelude.onPart, arity_rename, arg_rename, embeds.wantText _ (below_arg below 0),
    embeds.wantText _ (below_arg below 1)]
  exact .andThen rfl fun _ => .andThen rfl fun _ => .andThen rfl fun _ =>
    .pure (.of_scalar ρ _ (scalar _ _))

end Heap.Embeds

namespace World

/-- A world whose heap holds that of another one, and which is like it in all else. -/
structure Embeds (ρ : Ref → Ref) (core world : World) : Prop where
  heap : core.heap.Embeds ρ world.heap
  output : world.output = core.output
  numbers : world.numbers = core.numbers
  drawn : world.drawn = core.drawn

/-- A later world has no fewer cells, and what was printed stands in it. Only where there may be
chance was a number drawn, and never from another source. -/
structure Grows (chance : Prop) (world later : World) : Prop where
  cells : world.heap.size ≤ later.heap.size
  output : world.output.toList <+: later.output.toList
  numbers : later.numbers = world.numbers
  drawn : chance ∨ later.drawn = world.drawn

/-- Cutting off the lines that were printed since. -/
theorem take_output {world later : World}
    (printed : world.output.toList <+: later.output.toList) :
    later.output.take world.output.size = world.output := by
  obtain ⟨more, same⟩ := printed
  apply Array.ext'
  rw [Array.take_eq_extract, Array.toList_extract, ← same]
  simp

variable {chance : Prop}

theorem Grows.refl (world : World) : world.Grows chance world :=
  ⟨Nat.le_refl _, List.prefix_rfl, rfl, .inr rfl⟩

theorem Grows.trans {a b c : World} (first : a.Grows chance b) (second : b.Grows chance c) :
    a.Grows chance c := by
  refine ⟨Nat.le_trans first.cells second.cells, first.output.trans second.output,
    second.numbers.trans first.numbers, ?_⟩
  rcases first.drawn with chance | same
  · exact .inl chance
  · rcases second.drawn with chance | same'
    · exact .inl chance
    · exact .inr (same'.trans same)

end World

namespace Builtin

open Value (Image)

/-- The builtins that draw a number. -/
def isRandom : Builtin → Bool
  | .random | .randint => true
  | _ => false

variable {ρ : Ref → Ref} {chance : Prop} {core world : World} {args : List Value}

/-- A value and a world that come of a call, and their images. -/
def Called (ρ : Ref → Ref) (chance : Prop) (core : World) (result result' : Value × World) : Prop :=
  core.Grows chance result.2 ∧ Image ρ result.2.heap.size result.1 result'.1 ∧
    World.Embeds ρ result.2 result'.2

theorem reading_alike (embeds : World.Embeds ρ core world)
    {f : Heap → List Value → Except Failure Value}
    (read : Alike (Image ρ core.heap.size) (f core.heap args)
      (f world.heap (args.map (Value.rename ρ)))) :
    Alike (Called ρ chance core) (reading f core args) (reading f world (args.map (Value.rename ρ))) := by
  refine .bind read fun v w image => .pure ⟨.refl _, image, embeds⟩

theorem changing_alike (embeds : World.Embeds ρ core world) {f : Prelude.Changing}
    (changed : Alike (Heap.Embeds.Made ρ core.heap) (f core.heap args)
      (f world.heap (args.map (Value.rename ρ)))) :
    Alike (Called ρ chance core) (changing f core args) (changing f world (args.map (Value.rename ρ))) := by
  refine .bind changed ?_
  rintro made made' ⟨le, image, heap⟩
  exact .pure ⟨⟨le, List.prefix_rfl, rfl, .inr rfl⟩, image, heap, embeds.output, embeds.numbers,
    embeds.drawn⟩

theorem draw_embeds (embeds : World.Embeds ρ core world) (lucky : chance) (bound : Nat) :
    (world.draw bound).1 = (core.draw bound).1 ∧ core.Grows chance (core.draw bound).2 ∧
      World.Embeds ρ (core.draw bound).2 (world.draw bound).2 := by
  refine ⟨?_, ⟨Nat.le_refl _, List.prefix_rfl, rfl, .inl lucky⟩, embeds.heap, embeds.output,
    embeds.numbers, congrArg (· + 1) embeds.drawn⟩
  rw [World.draw, World.draw, embeds.numbers, embeds.drawn]

/-- A value made of a drawn number. -/
theorem called_drawn {drawn drawn' : Nat × World}
    (draws : drawn'.1 = drawn.1 ∧ core.Grows chance drawn.2 ∧ World.Embeds ρ drawn.2 drawn'.2)
    {make : Nat → Value} (scalar : ∀ n, (make n).ref? = none) :
    Called ρ chance core (make drawn.1, drawn.2) (make drawn'.1, drawn'.2) := by
  obtain ⟨same, grows, embeds⟩ := draws
  refine ⟨grows, ?_, embeds⟩
  rw [same]
  exact .of_scalar ρ _ (scalar _)

theorem random_alike (embeds : World.Embeds ρ core world) (lucky : chance) :
    Alike (Called ρ chance core) (Prelude.random core args)
      (Prelude.random world (args.map (Value.rename ρ))) := by
  refine .andThen (Heap.Embeds.arity_rename ..) fun _ => .pure ?_
  exact @called_drawn _ _ _ _ _ (draw_embeds embeds lucky (pow2 53))
    (fun n => .number (.float (Float.ofNat n / Float.ofNat (pow2 53)))) fun _ => rfl

theorem randint_alike (embeds : World.Embeds ρ core world) (lucky : chance) :
    Alike (Called ρ chance core) (Prelude.randint core args)
      (Prelude.randint world (args.map (Value.rename ρ))) := by
  refine .andThen (Heap.Embeds.arity_rename ..) fun _ => ?_
  rw [Heap.Embeds.arg_rename, Heap.Embeds.arg_rename, Heap.Embeds.whole?_rename,
    Heap.Embeds.whole?_rename]
  split
  next low high _ _ =>
    split
    · exact .error
    · refine .pure ?_
      exact @called_drawn _ _ _ _ _ (draw_embeds embeds lucky _) (fun n => .int (low + n)) fun _ => rfl
  next => exact .error

/-- A builtin function does the same to a core and to a heap around it. -/
theorem run_alike (embeds : World.Embeds ρ core world) (b : Builtin)
    (lucky : b.isRandom = true → chance)
    (below : ∀ v ∈ args, v.Below core.heap.size) :
    Alike (Called ρ chance core) (b.run core args) (b.run world (args.map (Value.rename ρ))) := by
  have heap := embeds.heap
  cases b with
  | print =>
    refine .andThen (heap.line below) fun line => .pure ⟨⟨Nat.le_refl _, ?_, rfl, .inr rfl⟩,
      .of_scalar ρ _ rfl, heap, ?_, embeds.numbers, embeds.drawn⟩
    · show core.output.toList <+: (core.output.push line).toList
      rw [Array.toList_push]
      exact List.prefix_append _ _
    · show world.output.push line = core.output.push line
      rw [embeds.output]
  | random => exact random_alike embeds (lucky rfl)
  | randint => exact randint_alike embeds (lucky rfl)
  | len => exact reading_alike embeds (heap.len below)
  | append => exact changing_alike embeds (heap.append below)
  | pop => exact changing_alike embeds (heap.pop below)
  | insert => exact changing_alike embeds (heap.insert below)
  | sort => exact changing_alike embeds (heap.sort below)
  | reverse => exact changing_alike embeds (heap.reverse below)
  | index => exact reading_alike embeds (heap.index below)
  | count => exact reading_alike embeds (heap.count below)
  | clear => exact changing_alike embeds (heap.clear below)
  | abs => exact reading_alike embeds (heap.abs below)
  | min => exact reading_alike embeds (heap.extreme "min" Number.lt below)
  | max => exact reading_alike embeds (heap.extreme "max" (fun m n => n.lt m) below)
  | sum => exact reading_alike embeds (heap.sum below)
  | int => exact reading_alike embeds (heap.toInt below)
  | float => exact reading_alike embeds (heap.toFloat below)
  | str => exact reading_alike embeds (heap.str below)
  | upper => exact reading_alike embeds (heap.upper below)
  | lower => exact reading_alike embeds (heap.lower below)
  | split => exact changing_alike embeds (heap.split below)
  | join => exact reading_alike embeds (heap.join below)
  | strip => exact reading_alike embeds (heap.strip below)
  | replace => exact reading_alike embeds (heap.replace below)
  | find =>
    refine reading_alike embeds (heap.onPart _ _ (fun whole part => ?_) below)
    split <;> rfl
  | startsWith => exact reading_alike embeds (heap.onPart _ _ (fun _ _ => rfl) below)
  | endsWith => exact reading_alike embeds (heap.onPart _ _ (fun _ _ => rfl) below)
  | round => exact reading_alike embeds (heap.round below)
  | sqrt => exact reading_alike embeds (heap.sqrt below)
  | pow => exact reading_alike embeds (heap.power below)

theorem call_alike (embeds : World.Embeds ρ core world) (name : Name)
    (lucky : ∀ b, ofName? name = some b → b.isRandom = true → chance)
    (below : ∀ v ∈ args, v.Below core.heap.size) :
    Alike (Called ρ chance core) (call name core args) (call name world (args.map (Value.rename ρ))) := by
  unfold call
  split
  next b named => exact run_alike embeds b (lucky b named) below
  next => exact .complain _ _

end Builtin

end Stepwise
