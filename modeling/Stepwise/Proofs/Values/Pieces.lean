import Stepwise.Engine
import Stepwise.Proofs.Outcome
import Stepwise.Proofs.Values.Slices

/-!
Texts cut into pieces. A separator that is not empty cuts wherever it is found when each search starts
behind the occurrence before, so that overlapping occurrences count once; the pieces joined by it are
the text again: `join_split`.
-/
namespace Stepwise

namespace Text

variable {part sep whole piece : List Char} {i : Nat}

theorem indexFrom_eq (part : List Char) (position : Nat) (whole : List Char) :
    indexFrom part position whole = (index? part whole).map (position + ·) := by
  unfold index?
  induction whole generalizing position with
  | nil => cases part <;> rfl
  | cons c cs ih =>
    rw [indexFrom, indexFrom]
    by_cases here : part.isPrefixOf (c :: cs) = true
    · rw [if_pos here, if_pos here]
      rfl
    · rw [if_neg here, if_neg here, ih, ih 1, Option.map_map]
      exact congrArg (fun f => (indexFrom part 0 cs).map f) (funext fun k => by simp; omega)

theorem index?_nil (nonempty : part ≠ []) : index? part [] = none := by
  rw [index?, indexFrom, if_neg (by simpa using nonempty)]

theorem index?_cons (part : List Char) (c : Char) (cs : List Char) :
    index? part (c :: cs) =
      if part <+: c :: cs then some 0 else (index? part cs).map (· + 1) := by
  rw [index?, indexFrom, indexFrom_eq]
  simp only [List.isPrefixOf_iff_prefix, Nat.add_comm]

/-- What is not found is nowhere in the text. -/
theorem index?_eq_none_iff (nonempty : part ≠ []) :
    index? part whole = none ↔ ¬ part <:+: whole := by
  induction whole with
  | nil => simp [index?_nil nonempty, nonempty]
  | cons c cs ih =>
    rw [index?_cons, List.infix_cons_iff]
    split
    next here => simp [here]
    next away => simp [ih, away]

/-- What is found stands at that position, and not before it. -/
theorem index?_found (nonempty : part ≠ []) (found : index? part whole = some i) :
    whole = whole.take i ++ (part ++ whole.drop (i + part.length)) ∧ ¬ part <:+: whole.take i := by
  induction whole generalizing i with
  | nil => cases (index?_nil nonempty).symm.trans found
  | cons c cs ih =>
    rw [index?_cons] at found
    split at found
    next here =>
      cases found
      obtain ⟨back, whole⟩ := here
      rw [← whole]
      simp [nonempty]
    next away =>
      obtain ⟨k, later, rfl⟩ := Option.map_eq_some_iff.mp found
      obtain ⟨whole, clear⟩ := ih later
      rw [List.take_succ_cons, Nat.add_right_comm, List.drop_succ_cons, List.infix_cons_iff]
      refine ⟨congrArg (c :: ·) whole, ?_⟩
      -- An occurrence in front of the one that is found would have been found first.
      rintro (early | early)
      · exact away (early.trans (List.cons_prefix_cons.mpr ⟨rfl, List.take_prefix k cs⟩))
      · exact clear early

theorem drop_shorter (nonempty : part ≠ []) (found : index? part whole = some i) :
    (whole.drop (i + part.length)).length < whole.length := by
  have length := congrArg List.length (index?_found nonempty found).1
  have := List.length_pos_iff.mpr nonempty
  simp only [List.length_append] at length
  omega

/-- How often a part is found in a text, each search starting behind the occurrence before. -/
def occurrences (part whole : List Char) : Nat :=
  if _ : part ≠ [] then
    match found : index? part whole with
    | some i => occurrences part (whole.drop (i + part.length)) + 1
    | none => 0
  else 0
termination_by whole.length
decreasing_by exact drop_shorter ‹part ≠ []› found

theorem occurrences_found (nonempty : part ≠ []) (found : index? part whole = some i) :
    occurrences part whole = occurrences part (whole.drop (i + part.length)) + 1 := by
  rw [occurrences, dif_pos nonempty]
  split
  next j same =>
    cases found.symm.trans same
    rfl
  next away => cases found.symm.trans away

theorem occurrences_away (away : index? part whole = none) : occurrences part whole = 0 := by
  rw [occurrences]
  split
  next nonempty =>
    split
    next i found => cases away.symm.trans found
    next => rfl
  next => rfl

/-- What is left of a separator is passed over. -/
theorem splitFrom_skip (sep : List Char) (skip : Nat) (whole : List Char) :
    splitFrom sep skip whole = splitFrom sep 0 (whole.drop skip) := by
  induction whole generalizing skip with
  | nil => simp [splitFrom]
  | cons c cs ih =>
    cases skip with
    | zero => rfl
    | succ skip => rw [splitFrom, ih, List.drop_succ_cons]

theorem splitFrom_ne_nil (sep whole : List Char) : splitFrom sep 0 whole ≠ [] := by
  cases whole with
  | nil => exact List.cons_ne_nil _ _
  | cons c cs =>
    rw [splitFrom]
    split
    · exact List.cons_ne_nil _ _
    · split <;> exact List.cons_ne_nil _ _

/-- The first piece ends where the separator is found, and the rest is cut in the same way. -/
theorem splitFrom_eq (nonempty : sep ≠ []) (whole : List Char) :
    splitFrom sep 0 whole = match index? sep whole with
      | some i => whole.take i :: splitFrom sep 0 (whole.drop (i + sep.length))
      | none => [whole] := by
  induction whole with
  | nil => rw [index?_nil nonempty, splitFrom]
  | cons c cs ih =>
    rw [index?_cons, splitFrom]
    by_cases here : sep <+: c :: cs
    · rw [if_pos here, if_pos (List.isPrefixOf_iff_prefix.mpr here), splitFrom_skip]
      have length : 0 + sep.length = sep.length - 1 + 1 := by
        have := List.length_pos_iff.mpr nonempty
        omega
      dsimp only
      rw [length, List.drop_succ_cons]
      rfl
    · rw [if_neg here, if_neg (mt List.isPrefixOf_iff_prefix.mp here), ih]
      cases index? sep cs with
      | none => rfl
      | some i =>
        dsimp only [Option.map_some]
        rw [List.take_succ_cons, Nat.add_right_comm, List.drop_succ_cons]

theorem intercalate_cons {pieces : List (List Char)} (more : pieces ≠ []) :
    List.intercalate sep (piece :: pieces) = piece ++ (sep ++ List.intercalate sep pieces) := by
  cases pieces with
  | nil => exact absurd rfl more
  | cons next pieces => simp [List.intercalate]

section

variable (nonempty : sep ≠ [])
include nonempty

theorem intercalate_splitFrom (whole : List Char) :
    List.intercalate sep (splitFrom sep 0 whole) = whole := by
  induction whole using occurrences.induct sep with
  | case1 whole _ i found ih =>
    rw [splitFrom_eq nonempty, found]
    dsimp only
    rw [intercalate_cons (splitFrom_ne_nil _ _), ih]
    exact (index?_found nonempty found).1.symm
  | case2 whole _ away =>
    rw [splitFrom_eq nonempty, away]
    exact List.append_nil whole
  | case3 whole empty => exact absurd nonempty empty

theorem clear_of_splitFrom (whole : List Char) :
    ∀ piece ∈ splitFrom sep 0 whole, ¬ sep <:+: piece := by
  induction whole using occurrences.induct sep with
  | case1 whole _ i found ih =>
    rw [splitFrom_eq nonempty, found]
    exact List.forall_mem_cons.mpr ⟨(index?_found nonempty found).2, ih⟩
  | case2 whole _ away =>
    rw [splitFrom_eq nonempty, away]
    exact List.forall_mem_singleton.mpr ((index?_eq_none_iff nonempty).mp away)
  | case3 whole empty => exact absurd nonempty empty

theorem length_splitFrom (whole : List Char) :
    (splitFrom sep 0 whole).length = occurrences sep whole + 1 := by
  induction whole using occurrences.induct sep with
  | case1 whole _ i found ih =>
    rw [splitFrom_eq nonempty, found, occurrences_found nonempty found]
    exact congrArg (· + 1) ih
  | case2 whole _ away =>
    rw [splitFrom_eq nonempty, away, occurrences_away away]
    rfl
  | case3 whole empty => exact absurd nonempty empty

end

theorem intercalate_singletons (whole : List Char) :
    List.intercalate [] (whole.map fun c => [c]) = whole := by
  induction whole with
  | nil => rfl
  | cons c cs ih =>
    cases cs with
    | nil => rfl
    | cons next cs =>
      exact congrArg (c :: ·) ih

/-- The pieces of a text, joined, are the text. -/
theorem intercalate_split (sep whole : List Char) :
    List.intercalate sep (split sep whole) = whole := by
  unfold split
  split
  next empty =>
    rw [List.isEmpty_iff.mp empty]
    exact intercalate_singletons whole
  next nonempty => exact intercalate_splitFrom (mt List.isEmpty_iff.mpr nonempty) whole

end Text

namespace Value

theorem mapM_toText (heap : Heap) (texts : List String) :
    (texts.map Value.text).mapM (toText heap) = .ok texts := by
  induction texts with
  | nil => rfl
  | cons s texts ih =>
    rw [List.map_cons, List.mapM_cons, ih]
    rfl

end Value

namespace Prelude

theorem split_text (heap : Heap) (t p : String) : split heap [.text t, .text p] =
    .ok (heap.newList (((Text.split p.toList t.toList).map String.ofList).map Value.text).toArray) :=
  rfl

theorem join_eq (heap : Heap) (ref : Ref) (p : String) : join heap [.list ref, .text p] = do
    return .text (String.intercalate p (← (heap.items ref).toList.mapM (Value.toText heap))) :=
  rfl

theorem join_texts {heap : Heap} {ref : Ref} {pieces : List String}
    (here : heap.get? ref = some (.list (pieces.map Value.text).toArray)) (p : String) :
    join heap [.list ref, .text p] = .ok (.text (String.intercalate p pieces)) := by
  have known : (heap.items ref).toList = pieces.map Value.text := by rw [Heap.items, here]
  rw [join_eq, known, Value.mapM_toText]
  rfl

end Prelude

/-- A text cut at a separator and joined by it is the text again. The pieces are in a new list, and
everything else stays where it is. No piece has the separator in it, and there is one piece more than
there are occurrences, each searched for behind the one before; the pieces between nothing are the
characters. -/
theorem Engine.join_split (engine : Engine) {cut glue : Name}
    (cuts : Builtin.ofName? cut = some .split) (glues : Builtin.ofName? glue = some .join)
    (t p : String) :
    ∃ (pieces : List String) (ref : Ref) (later : Engine),
      engine.callBuiltin cut [.text t, .text p] = (.ok (.list ref), later) ∧
      later.heap.get? ref = some (.list (pieces.map Value.text).toArray) ∧
      Value.Keeps engine.heap later.heap ∧
      later.callBuiltin glue [.list ref, .text p] = (.ok (.text t), later) ∧
      (p ≠ "" → (∀ piece ∈ pieces, ¬ p.toList <:+: piece.toList) ∧
        pieces.length = Text.occurrences p.toList t.toList + 1) ∧
      (p = "" → pieces = t.toList.map String.singleton) := by
  let pieces := (Text.split p.toList t.toList).map String.ofList
  let new := engine.heap.newList (pieces.map Value.text).toArray
  have here : new.2.get? engine.heap.size = some (.list (pieces.map Value.text).toArray) :=
    (engine.heap.get?_alloc _ _).trans (if_pos rfl)
  have whole : String.intercalate p pieces = t := by
    apply String.toList_inj.mp
    rw [String.toList_intercalate, List.map_map]
    simpa [Function.comp_def] using Text.intercalate_split p.toList t.toList
  refine ⟨pieces, engine.heap.size, { engine with world := engine.world.withHeap new.2 },
    Engine.callBuiltin_of_ok cuts (Builtin.changing_of_ok (Prelude.split_text engine.heap t p)), here,
    Value.keeps_newList _ _, ?_, fun nonempty => ?_, ?_⟩
  · have joined := Prelude.join_texts here p
    rw [whole] at joined
    exact Engine.callBuiltin_of_ok glues (Builtin.reading_of_ok joined)
  · have nonempty : p.toList ≠ [] := fun same => nonempty (String.toList_inj.mp same)
    have cut : Text.split p.toList t.toList = Text.splitFrom p.toList 0 t.toList :=
      if_neg (mt List.isEmpty_iff.mp nonempty)
    constructor
    · intro piece member
      obtain ⟨piece, inside, rfl⟩ := List.mem_map.mp member
      rw [cut] at inside
      rw [String.toList_ofList]
      exact Text.clear_of_splitFrom nonempty t.toList piece inside
    · rw [List.length_map, cut, Text.length_splitFrom nonempty]
  · rintro rfl
    exact List.map_map

/-- A separator that overlaps itself, at both ends of a text. -/
theorem Engine.join_split_overlapping :
    let engine : Engine := { maxSteps := 1, maxCallDepth := 1 }
    ∃ (pieces : List String) (ref : Ref) (later : Engine),
      engine.callBuiltin "split" [.text "aaabaa", .text "aa"] = (.ok (.list ref), later) ∧
      later.callBuiltin "join" [.list ref, .text "aa"] = (.ok (.text "aaabaa"), later) ∧
      later.heap.get? ref = some (.list (pieces.map Value.text).toArray) ∧ pieces.length = 3 := by
  intro engine
  have cuts : Builtin.ofName? "split" = some .split := rfl
  have glues : Builtin.ofName? "join" = some .join := rfl
  obtain ⟨pieces, ref, later, cut, here, -, joined, laws, -⟩ :=
    join_split engine cuts glues "aaabaa" "aa"
  refine ⟨pieces, ref, later, cut, joined, here, (laws (by decide)).2.trans ?_⟩
  simp [Text.occurrences, Text.index?, Text.indexFrom]

end Stepwise
