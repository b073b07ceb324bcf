import Stepwise.Proofs.Renaming.Texts

/-!
What is shown of values. A text is made from the cells that a value leads to and from nothing else
(`display_congr`). A value in which nothing contains itself always has one, unless an integer in it is
too large to be written (`display_ends`).
-/
namespace Stepwise

/-- The names that stand in a cell. -/
def Cell.names : Cell → List Name
  | .list _ => []
  | .map entries => entries.names
  | .inst _ fields => fields.names

namespace Heap

variable {heap : Heap} {roots : List Value} {ref next : Ref}

/-- What some values lead to by way of one of them, or of a part of theirs. -/
theorem Reaches.through {v : Value} (inside : ∀ ref, v.ref? = some ref → heap.Reaches roots ref)
    (reached : heap.Reaches [v] next) : heap.Reaches roots next := by
  induction reached with
  | root member refers =>
    cases List.mem_singleton.mp member
    exact inside _ refers
  | part _ here part refers ih => exact .part ih here part refers

theorem Reaches.ofPart {v : Value} (reached : heap.Reaches roots ref) (inside : v ∈ heap.partsAt ref)
    (refers : v.ref? = some next) : heap.Reaches roots next := by
  cases here : heap.get? ref with
  | none => simp [partsAt, here] at inside
  | some cell =>
    rw [partsAt, here] at inside
    exact .part reached here inside refers

/-- Whatever some values lead to, one of them leads to. -/
theorem Reaches.exists_root (reached : heap.Reaches roots next) :
    ∃ v ∈ roots, heap.Reaches [v] next := by
  induction reached with
  | root member refers => exact ⟨_, member, .root (List.mem_singleton_self _) refers⟩
  | part _ here part refers ih =>
    obtain ⟨v, member, reached⟩ := ih
    exact ⟨v, member, .part reached here part refers⟩

/-- A value leads to its own cell and to what its parts lead to. -/
theorem Reaches.cases_head {v : Value} (reached : heap.Reaches [v] next) :
    ∃ ref, v.ref? = some ref ∧ (next = ref ∨ heap.Reaches (heap.partsAt ref) next) := by
  induction reached with
  | root member refers =>
    cases List.mem_singleton.mp member
    exact ⟨_, refers, .inl rfl⟩
  | part _ here part refers ih =>
    obtain ⟨ref, own, rfl | inside⟩ := ih
    · refine ⟨_, own, .inr (.root ?_ refers)⟩
      rwa [partsAt, here]
    · exact ⟨ref, own, .inr (.part inside here part refers)⟩

theorem part_of_field {name : Name} {v : Value} (member : (name, v) ∈ heap.fields ref) :
    v ∈ heap.partsAt ref := by
  unfold fields at member
  split at member
  next className fields here =>
    rw [partsAt, here]
    exact List.mem_map.mpr ⟨(name, v), member, rfl⟩
  next => cases member

end Heap

namespace Value

variable {heap later : Heap} {ref next : Ref} {v w : Value}

theorem reaches_self (refers : v.ref? = some ref) : heap.Reaches [v] ref :=
  .root (List.mem_singleton_self v) refers

theorem reaches_of_part (refers : v.ref? = some ref) (inside : w ∈ heap.partsAt ref)
    (reached : heap.Reaches [w] next) : heap.Reaches [v] next :=
  reached.through fun _ => (reaches_self refers).ofPart inside

/-- The text of a value depends on the cells it leads to only. -/
theorem format_congr (style : ListStyle) (fuel : Nat) (path : List Ref)
    (same : ∀ ref, heap.Reaches [v] ref → later.get? ref = heap.get? ref) :
    format style later fuel path v = format style heap fuel path v := by
  induction fuel generalizing path v with
  | zero => cases v <;> rfl
  | succ fuel ih =>
    have part : ∀ {ref w}, v.ref? = some ref → w ∈ heap.partsAt ref →
        format style later fuel (ref :: path) w = format style heap fuel (ref :: path) w :=
      fun refers inside => ih _ fun next reached => same next (reaches_of_part refers inside reached)
    cases v with
    | list ref =>
      have items : later.items ref = heap.items ref := by
        rw [Heap.items, Heap.items, same ref (reaches_self rfl)]
      simp only [format, items]
      congr 2
      exact mapM_congr fun w member => part rfl (Heap.part_of_item member)
    | map ref =>
      have entries : later.entries ref = heap.entries ref := by
        rw [Heap.entries, Heap.entries, same ref (reaches_self rfl)]
      simp only [format, entries]
      congr 2
      refine mapM_congr fun entry member => ?_
      rw [part rfl (Heap.part_of_entry member)]
    | inst ref =>
      have fields : later.fields ref = heap.fields ref := by
        rw [Heap.fields, Heap.fields, same ref (reaches_self rfl)]
      have className : later.className ref = heap.className ref := by
        rw [Heap.className, Heap.className, same ref (reaches_self rfl)]
      simp only [format, fields, className]
      congr 2
      refine mapM_congr fun entry member => ?_
      rw [part rfl (Heap.part_of_field member)]
    | _ => rfl

theorem display_congr (size : later.size = heap.size)
    (same : ∀ ref, heap.Reaches [v] ref → later.get? ref = heap.get? ref) :
    display later v = display heap v := by
  rw [display, display, size]
  exact format_congr _ _ _ same

/-- A value in which nothing contains itself, and in which all names can be written, as those that are
texts always can. -/
structure Showable (heap : Heap) (v : Value) : Prop where
  acyclic : ∀ ref, heap.Reaches [v] ref → ¬ heap.Reaches (heap.partsAt ref) ref
  named : ∀ ref cell, heap.Reaches [v] ref → heap.get? ref = some cell →
    ∀ name ∈ cell.names, name.isWritable = true

theorem Showable.part (ok : Showable heap v) (refers : v.ref? = some ref)
    (inside : w ∈ heap.partsAt ref) : Showable heap w where
  acyclic next reached := ok.acyclic next (reaches_of_part refers inside reached)
  named next cell reached := ok.named next cell (reaches_of_part refers inside reached)

theorem Showable.scalar (plain : v.ref? = none) : Showable heap v where
  acyclic ref reached := by
    obtain ⟨own, refers, -⟩ := reached.cases_head
    rw [plain] at refers
    cases refers
  named ref cell reached := by
    obtain ⟨own, refers, -⟩ := reached.cases_head
    rw [plain] at refers
    cases refers

/-- Showable values are built from the inside out. -/
theorem Showable.build {cell : Cell} (refers : v.ref? = some ref) (here : heap.get? ref = some cell)
    (parts : ∀ w ∈ cell.parts, Showable heap w) (named : ∀ name ∈ cell.names, name.isWritable = true) :
    Showable heap v := by
  have known : heap.partsAt ref = cell.parts := by rw [Heap.partsAt, here]; rfl
  refine ⟨fun other reached => ?_, fun other found reached => ?_⟩
  · obtain ⟨own, refers', inside⟩ := reached.cases_head
    cases refers.symm.trans refers'
    rcases inside with rfl | inside
    · -- A way back to the cell goes through a part, which would lead to itself.
      intro back
      obtain ⟨w, member, reached⟩ := back.exists_root
      exact (parts w (known ▸ member)).acyclic other reached back
    · obtain ⟨w, member, reached⟩ := inside.exists_root
      exact (parts w (known ▸ member)).acyclic other reached
  · obtain ⟨own, refers', inside⟩ := reached.cases_head
    cases refers.symm.trans refers'
    rcases inside with rfl | inside
    · intro there
      cases here.symm.trans there
      exact named
    · obtain ⟨w, member, reached⟩ := inside.exists_root
      exact (parts w (known ▸ member)).named other found reached

/-- Down a path of cells each of which leads to a value. -/
structure Beneath (heap : Heap) (fuel : Nat) (path : List Ref) (v : Value) : Prop where
  cells : Path heap.size fuel path
  above : ∀ ref ∈ path, ∀ next, v.ref? = some next → heap.Reaches (heap.partsAt ref) next

namespace Beneath

variable {fuel : Nat} {path : List Ref}

theorem start (heap : Heap) (v : Value) : Beneath heap (heap.size + 1) [] v :=
  ⟨path_nil (Nat.lt_succ_self _), fun _ member => nomatch member⟩

/-- No cell of the path comes back below it. -/
theorem new (beneath : Beneath heap fuel path v) (ok : Showable heap v) (refers : v.ref? = some ref) :
    ref ∉ path := fun member =>
  ok.acyclic ref (reaches_self refers) (beneath.above ref member ref refers)

theorem down (beneath : Beneath heap (fuel + 1) path v) (ok : Showable heap v)
    (refers : v.ref? = some ref) (inside : w ∈ heap.partsAt ref) :
    Beneath heap fuel (ref :: path) w := by
  refine ⟨beneath.cells.cons (Heap.lt_size_of_part inside) (beneath.new ok refers), ?_⟩
  intro other member next leads
  rcases List.mem_cons.mp member with rfl | earlier
  · exact .root inside leads
  · exact (beneath.above other earlier ref refers).ofPart inside leads

end Beneath

/-- A text, or the fault for a number that cannot be written. -/
def Shown (x : Except Failure String) : Prop := (∃ s, x = .ok s) ∨ x = tooLarge

theorem shown_numberText (n : Number) : Shown (numberText n) := by
  unfold numberText
  split
  next s _ => exact .inl ⟨s, rfl⟩
  next => exact .inr rfl

/-- Texts that are found one by one are all found, or the first that is not gives the fault. -/
theorem mapM_shown {α : Type} {f : α → Except Failure String} {xs : List α}
    (each : ∀ x ∈ xs, Shown (f x)) : (∃ texts, xs.mapM f = .ok texts) ∨ xs.mapM f = tooLarge := by
  induction xs with
  | nil => exact .inl ⟨[], rfl⟩
  | cons x xs ih =>
    rw [List.mapM_cons]
    rcases each x (.head _) with ⟨s, shown⟩ | failed
    · rcases ih fun y member => each y (.tail _ member) with ⟨texts, rest⟩ | failed
      · exact .inl ⟨s :: texts, by rw [shown, rest]; rfl⟩
      · exact .inr (by rw [shown, failed]; rfl)
    · exact .inr (by rw [failed]; rfl)

theorem Shown.map {α : Type} {x : Except Failure α} (f : α → String)
    (shown : (∃ a, x = .ok a) ∨ x = tooLarge) : Shown (do return f (← x)) := by
  rcases shown with ⟨a, rfl⟩ | rfl
  · exact .inl ⟨f a, rfl⟩
  · exact .inr rfl

/-- An entry is shown by its name and its value. -/
theorem shown_entry {name : Name} (writable : name.isWritable = true) {x : Except Failure String}
    (shown : Shown x) : Shown (do
      let name ← written name.plain?
      return s!"{name}: {← x}") := by
  have plain : written name.plain? = .ok name.plain := by rw [Scalar.plain?, if_pos writable]; rfl
  rw [plain]
  exact Shown.map (fun text => s!"{name.plain}: {text}") shown

theorem format_ends (style : ListStyle) {fuel : Nat} {path : List Ref} (ok : Showable heap v)
    (beneath : Beneath heap fuel path v) : Shown (format style heap fuel path v) := by
  induction fuel generalizing path v with
  | zero =>
    obtain ⟨_, absurd⟩ := beneath.cells.fuel_pos
    cases absurd
  | succ fuel ih =>
    have part : ∀ {ref w}, v.ref? = some ref → w ∈ heap.partsAt ref →
        Shown (format style heap fuel (ref :: path) w) :=
      fun refers inside => ih (ok.part refers inside) (beneath.down ok refers inside)
    have new : ∀ {ref}, v.ref? = some ref → path.contains ref = false := fun refers => by
      simpa using beneath.new ok refers
    have named : ∀ {ref cell}, v.ref? = some ref → heap.get? ref = some cell →
        ∀ name ∈ cell.names, name.isWritable = true :=
      fun refers here => ok.named _ _ (reaches_self refers) here
    cases v with
    | null | bool | text => exact .inl ⟨_, rfl⟩
    | number n => exact shown_numberText n
    | list ref =>
      simp only [format, new rfl]
      exact Shown.map _ (mapM_shown fun w member => part rfl (Heap.part_of_item member))
    | map ref =>
      simp only [format, new rfl]
      refine Shown.map (fun parts => "\x7b" ++ String.intercalate ", " parts ++ "\x7d")
        (mapM_shown fun entry member => ?_)
      refine shown_entry ?_ (part rfl (Heap.part_of_entry member))
      unfold Heap.entries at member
      split at member
      next here => exact named rfl here entry.1 (List.mem_map_of_mem member)
      next => cases member
    | inst ref =>
      simp only [format, new rfl]
      refine Shown.map (fun parts => s!"<{heap.className ref} \x7b" ++
        String.intercalate ", " parts ++ "\x7d>") (mapM_shown fun entry member => ?_)
      refine shown_entry ?_ (part rfl (Heap.part_of_field member))
      unfold Heap.fields at member
      split at member
      next here => exact named rfl here entry.1 (List.mem_map_of_mem member)
      next => cases member

/-- A value in which nothing contains itself has a text, or holds a number that cannot be written. -/
theorem display_ends (ok : Showable heap v) : Shown (display heap v) :=
  format_ends .bare ok (.start heap v)

end Value

end Stepwise
