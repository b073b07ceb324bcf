import Stepwise.Proofs.Machine.Steps
import Stepwise.Proofs.Values.Showing

/-!
Assignments to parts of values and what is read afterwards. A list has its new item at the position
that was assigned to, a map at the key and an instance at the name; everything else is as it was, in
its order and in all other cells. A key is a text made when it is used, so the law of maps compares the
text at the assignment with the text at the access: `accesses_lawful`.
-/
namespace Stepwise

/-- Two heaps that differ in one cell at most. -/
structure Heap.AgreesBut (ref : Ref) (heap later : Heap) : Prop where
  size : later.size = heap.size
  others : ∀ other, other ≠ ref → later.get? other = heap.get? other

namespace Heap

variable {heap : Heap} {ref : Ref} {cell old : Cell}

theorem agreesBut_set (here : heap.get? ref = some old) (cell : Cell) :
    AgreesBut ref heap (heap.set ref cell) where
  size := size_set heap ref cell
  others other apart := by rw [get?_set heap ref other cell (lt_size_of_get? here), if_neg apart]

theorem get?_set_self (here : heap.get? ref = some old) (cell : Cell) :
    (heap.set ref cell).get? ref = some cell := by
  rw [get?_set heap ref ref cell (lt_size_of_get? here), if_pos rfl]

theorem items_of_get? {items : Array Value} (here : heap.get? ref = some (.list items)) :
    heap.items ref = items := by rw [Heap.items, here]

theorem entries_of_get? {entries : Bindings Value} (here : heap.get? ref = some (.map entries)) :
    heap.entries ref = entries := by rw [Heap.entries, here]

theorem fields_of_get? {className : Name} {fields : Bindings Value}
    (here : heap.get? ref = some (.inst className fields)) : heap.fields ref = fields := by
  rw [Heap.fields, here]

theorem className_of_get? {className : Name} {fields : Bindings Value}
    (here : heap.get? ref = some (.inst className fields)) : heap.className ref = className := by
  rw [Heap.className, here]

end Heap

/-- The order of names when one of them is bound. -/
def Bindings.namesWith {α : Type} (bindings : Bindings α) (name : Name) : List Name :=
  if bindings.has name then bindings.names else bindings.names ++ [name]

theorem Bindings.names_put_eq {α : Type} (bindings : Bindings α) (name : Name) (value : α) :
    (bindings.put name value).names = bindings.namesWith name := by
  simp only [names_put, namesWith, has_iff_mem_keys]

theorem Bindings.get?_put_text {α : Type} (bindings : Bindings α) (s t : String) (value : α) :
    (bindings.put s value).get? t = if t = s then some value else bindings.get? t := by
  rw [get?_put]
  exact if_congr ⟨Scalar.Key.text.inj, congrArg Scalar.Key.text⟩ rfl rfl

namespace Value

variable {heap later : Heap} {ref : Ref} {n : Nat} {i j : Int} {v : Value}

/-! Lists -/

/-- The position among `n` items that an integer names; a negative one counts from the end. -/
def offset (n : Nat) (i : Int) : Int := if i < 0 then i + n else i

theorem offset_inside_iff : 0 ≤ offset n i ∧ offset n i < n ↔ -(n : Int) ≤ i ∧ i < n := by
  unfold offset
  split <;> omega

theorem resolve_inside (what : String) (inside : -(n : Int) ≤ i ∧ i < n) :
    resolve heap what n (.int i) = .ok (offset n i).toNat := by
  have inside := offset_inside_iff.mpr inside
  simp only [offset] at inside
  simp [resolve, Value.int, Number.whole?, offset, inside]

theorem resolve_outside (what : String) (outside : ¬ (-(n : Int) ≤ i ∧ i < n)) :
    ∃ fault, resolve heap what n (.int i) = .error (.fault fault) := by
  have outside := mt offset_inside_iff.mp outside
  simp only [offset] at outside
  simp only [resolve, Value.int, Number.whole?, Bool.and_eq_true, decide_eq_true_eq, outside, if_false]
  rcases shown_numberText (.int i) with ⟨s, shown⟩ | failed
  · exact ⟨_, by rw [shown]; rfl⟩
  · exact ⟨_, by rw [failed]; rfl⟩

section

variable {items : Array Value} (here : heap.get? ref = some (.list items))
include here

theorem getIndex_inside (inside : -(n : Int) ≤ i ∧ i < n) (size : items.size = n) :
    getIndex heap (.list ref) (.int i) = .ok (items.getD (offset n i).toNat .null) := by
  subst size
  unfold getIndex
  dsimp only
  rw [Heap.items_of_get? here, resolve_inside "List" inside]
  rfl

theorem getIndex_outside (outside : ¬ (-(items.size : Int) ≤ i ∧ i < items.size)) :
    getIndex heap (.list ref) (.int i) = (resolve heap "List" items.size (.int i)).map fun _ => .null := by
  obtain ⟨fault, refused⟩ : ∃ fault, resolve heap "List" items.size (.int i) = .error (.fault fault) :=
    resolve_outside "List" outside
  unfold getIndex
  dsimp only
  rw [Heap.items_of_get? here, refused]
  rfl

theorem setIndex_inside (inside : -(items.size : Int) ≤ i ∧ i < items.size) (v : Value) :
    setIndex heap (.list ref) (.int i) v =
      .ok (heap.set ref (.list (items.setIfInBounds (offset items.size i).toNat v))) := by
  unfold setIndex
  dsimp only
  rw [Heap.items_of_get? here, resolve_inside "List" inside]
  rfl

theorem setIndex_outside (outside : ¬ (-(items.size : Int) ≤ i ∧ i < items.size)) (v : Value) :
    ∃ fault, setIndex heap (.list ref) (.int i) v = .error (.fault fault) := by
  obtain ⟨fault, refused⟩ : ∃ fault, resolve heap "List" items.size (.int i) = .error (.fault fault) :=
    resolve_outside "List" outside
  refine ⟨fault, ?_⟩
  unfold setIndex
  dsimp only
  rw [Heap.items_of_get? here, refused]
  rfl

/-- Behind an assignment to a position of a list, that position holds the new value, and every other
integer finds what it found before. -/
theorem getIndex_assigned (inside : -(items.size : Int) ≤ i ∧ i < items.size) (v : Value) (j : Int) :
    getIndex (heap.set ref (.list (items.setIfInBounds (offset items.size i).toNat v))) (.list ref)
        (.int j) =
      if offset items.size j = offset items.size i then .ok v
      else getIndex heap (.list ref) (.int j) := by
  have now := Heap.get?_set_self here
    (.list (items.setIfInBounds (offset items.size i).toNat v))
  have size : (items.setIfInBounds (offset items.size i).toNat v).size = items.size :=
    Array.size_setIfInBounds
  have low := offset_inside_iff.mpr inside
  by_cases within : -(items.size : Int) ≤ j ∧ j < items.size
  · have low' := offset_inside_iff.mpr within
    rw [getIndex_inside now within size, getIndex_inside here within rfl, Array.getD_eq_getD_getElem?,
      Array.getElem?_setIfInBounds]
    by_cases same : offset items.size j = offset items.size i
    · rw [if_pos same, same, if_pos rfl, if_pos (by omega)]
      rfl
    · rw [if_neg same, if_neg (by omega), Array.getD_eq_getD_getElem?]
  · have apart : offset items.size j ≠ offset items.size i := fun same =>
      within (offset_inside_iff.mp (same ▸ low))
    rw [if_neg apart, getIndex_outside here within, getIndex_outside now (size.symm ▸ within), size]
    rfl

end

/-! Maps -/

section

variable {entries : Bindings Value}

theorem getIndex_key {k : Value} {s : String} (text : key heap k = .ok s) :
    getIndex heap (.map ref) k = getIndex heap (.map ref) (.text s) := by
  have own : key heap (.text s) = .ok s := rfl
  unfold getIndex
  dsimp only
  rw [text, own]

variable (here : heap.get? ref = some (.map entries))
include here

theorem setIndex_key {k : Value} {s : String} (text : key heap k = .ok s) (v : Value) :
    setIndex heap (.map ref) k v = .ok (heap.set ref (.map (entries.put s v))) := by
  unfold setIndex
  dsimp only
  rw [text, Heap.entries_of_get? here]
  rfl

theorem getIndex_text (s : String) : getIndex heap (.map ref) (.text s) =
    match entries.get? s with
    | some v => .ok v
    | none => complain s!"Object has no key \"{s}\"" := by
  have own : key heap (.text s) = .ok s := rfl
  unfold getIndex
  dsimp only
  rw [own, Heap.entries_of_get? here]
  rfl

/-- Behind an assignment to a key, the value is found under every key of the same text, and every other
text finds what it found before. -/
theorem getIndex_put (s t : String) (v : Value) :
    getIndex (heap.set ref (.map (entries.put s v))) (.map ref) (.text t) =
      if t = s then .ok v else getIndex heap (.map ref) (.text t) := by
  rw [getIndex_text (Heap.get?_set_self here _), getIndex_text here, Bindings.get?_put_text]
  by_cases same : t = s
  · rw [if_pos same, if_pos same]
  · rw [if_neg same, if_neg same]

/-- The text of a key changes only when the key leads to the map. -/
theorem key_set {k : Value} (apart : ¬ heap.Reaches [k] ref) (cell : Cell) :
    key (heap.set ref cell) k = key heap k := by
  have agrees := Heap.agreesBut_set here cell
  have shown : display (heap.set ref cell) k = display heap k :=
    display_congr agrees.size fun other reached =>
      agrees.others other fun same => apart (same ▸ reached)
  cases k <;> first | rfl | exact shown

/-- A member of a map is the entry of that name. -/
theorem getMember_map (s : String) :
    (∃ v, getMember heap (.map ref) s = .ok v ∧ getIndex heap (.map ref) (.text s) = .ok v) ∨
      ∃ fault fault', getMember heap (.map ref) s = .error (.fault fault) ∧
        getIndex heap (.map ref) (.text s) = .error (.fault fault') := by
  rw [getIndex_text here]
  unfold getMember
  dsimp only
  rw [Heap.entries_of_get? here]
  cases entries.get? s with
  | some v => exact .inl ⟨v, rfl, rfl⟩
  | none => exact .inr ⟨_, _, rfl, rfl⟩

theorem setMember_map (s : String) (v : Value) :
    setMember heap (.map ref) s v = setIndex heap (.map ref) (.text s) v := by
  rw [setIndex_key here rfl]
  unfold setMember
  dsimp only
  rw [Heap.entries_of_get? here]

end

/-! Instances -/

section

variable {className : Name} {fields : Bindings Value}
  (here : heap.get? ref = some (.inst className fields))
include here

theorem getMember_inst (s : String) : getMember heap (.inst ref) s =
    match fields.get? s with
    | some v => .ok v
    | none =>
      complain s!"{className} instance has no attribute \"{s}\""
        (some s!"Assign self.{s} in __init__ before reading it.") := by
  unfold getMember
  dsimp only
  rw [Heap.fields_of_get? here, Heap.className_of_get? here]
  rfl

theorem setMember_inst (s : String) (v : Value) : setMember heap (.inst ref) s v =
    .ok (heap.set ref (.inst className (fields.put s v))) := by
  unfold setMember
  dsimp only
  rw [Heap.fields_of_get? here, Heap.className_of_get? here]

theorem getMember_put (s t : String) (v : Value) :
    getMember (heap.set ref (.inst className (fields.put s v))) (.inst ref) t =
      if t = s then .ok v else getMember heap (.inst ref) t := by
  rw [getMember_inst (Heap.get?_set_self here _), getMember_inst here, Bindings.get?_put_text]
  by_cases same : t = s
  · rw [if_pos same, if_pos same]
  · rw [if_neg same, if_neg same]

end

/-- Assignments and accesses obey the laws of stores. A list can be assigned to at the positions it has,
and only there; a fault leaves everything but the operands as it was. A map takes every key that has a
text, and afterwards the value is found by what has that text then; the text of a key is what it was
unless the key leads to the map. Members of maps are their entries, and the fields of an instance obey
the laws of the entries of a map. No other cell is touched. -/
theorem accesses_lawful (heap : Heap) (ref : Ref) :
    (∀ items, heap.get? ref = some (.list items) → ∀ (i : Int) (v : Value),
      ((∃ later, setIndex heap (.list ref) (.int i) v = .ok later) ↔
        -(items.size : Int) ≤ i ∧ i < items.size) ∧
      (-(items.size : Int) ≤ i ∧ i < items.size →
        getIndex heap (.list ref) (.int i) = .ok (items.getD (offset items.size i).toNat .null)) ∧
      (¬ (-(items.size : Int) ≤ i ∧ i < items.size) →
        ∃ fault, setIndex heap (.list ref) (.int i) v = .error (.fault fault) ∧
          ∀ (m : Machine) (code : Instruction) (rest : List Value), code.op = .arraySet →
            m.heap = heap → m.stack = v :: .int i :: .list ref :: rest →
            m.execute code = (.error (.fault fault), { m with stack := rest })) ∧
      ∀ later, setIndex heap (.list ref) (.int i) v = .ok later →
        Heap.AgreesBut ref heap later ∧
        (∃ assigned, later.get? ref = some (.list assigned) ∧ assigned.size = items.size) ∧
        ∀ j : Int, getIndex later (.list ref) (.int j) =
          if offset items.size j = offset items.size i then .ok v
          else getIndex heap (.list ref) (.int j)) ∧
    (∀ entries, heap.get? ref = some (.map entries) →
      (∀ (k v : Value) (s : String), key heap k = .ok s →
        ∃ later, setIndex heap (.map ref) k v = .ok later ∧ Heap.AgreesBut ref heap later ∧
          (∃ assigned, later.get? ref = some (.map assigned) ∧
            assigned.names = entries.namesWith s) ∧
          (∀ k' t, key later k' = .ok t → getIndex later (.map ref) k' =
            if t = s then .ok v else getIndex heap (.map ref) (.text t)) ∧
          ∀ k', ¬ heap.Reaches [k'] ref → key later k' = key heap k' ∧
            ∀ t, key heap k' = .ok t → getIndex later (.map ref) k' =
              if t = s then .ok v else getIndex heap (.map ref) k') ∧
      ∀ (s : String) (v : Value),
        setMember heap (.map ref) s v = setIndex heap (.map ref) (.text s) v ∧
        ((∃ w, getMember heap (.map ref) s = .ok w ∧ getIndex heap (.map ref) (.text s) = .ok w) ∨
          ∃ fault fault', getMember heap (.map ref) s = .error (.fault fault) ∧
            getIndex heap (.map ref) (.text s) = .error (.fault fault'))) ∧
    ∀ className fields, heap.get? ref = some (.inst className fields) →
      ∀ (s : String) (v : Value), ∃ later, setMember heap (.inst ref) s v = .ok later ∧
        Heap.AgreesBut ref heap later ∧
        (∃ assigned, later.get? ref = some (.inst className assigned) ∧
          assigned.names = fields.namesWith s) ∧
        ∀ t : String, getMember later (.inst ref) t =
          if t = s then .ok v else getMember heap (.inst ref) t := by
  refine ⟨fun items here i v => ⟨⟨fun ⟨later, done⟩ => ?_, fun inside => ?_⟩,
      fun inside => getIndex_inside here inside rfl, fun outside => ?_, fun later done => ?_⟩,
    fun entries here => ⟨fun k v s text => ?_, fun s v => ?_⟩,
    fun className fields here s v => ?_⟩
  · by_contra outside
    obtain ⟨fault, failed⟩ := setIndex_outside here outside v
    rw [done] at failed
    cases failed
  · exact ⟨_, setIndex_inside here inside v⟩
  · obtain ⟨fault, failed⟩ := setIndex_outside here outside v
    refine ⟨fault, failed, ?_⟩
    rintro m code rest op rfl top
    exact Machine.execute_arraySet_error op top failed
  · have inside : -(items.size : Int) ≤ i ∧ i < items.size := by
      by_contra outside
      obtain ⟨fault, failed⟩ := setIndex_outside here outside v
      rw [done] at failed
      cases failed
    obtain rfl := Except.ok.inj (done.symm.trans (setIndex_inside here inside v))
    exact ⟨Heap.agreesBut_set here _, ⟨_, Heap.get?_set_self here _, Array.size_setIfInBounds⟩,
      getIndex_assigned here inside v⟩
  · refine ⟨_, setIndex_key here text v, Heap.agreesBut_set here _,
      ⟨_, Heap.get?_set_self here _, Bindings.names_put_eq entries s v⟩,
      fun k' t now => ?_, fun k' apart => ⟨key_set here apart _, fun t before => ?_⟩⟩
    · rw [getIndex_key now, getIndex_put here]
    · rw [getIndex_key ((key_set here apart _).trans before), getIndex_put here, getIndex_key before]
  · exact ⟨setMember_map here s v, getMember_map here s⟩
  · exact ⟨_, setMember_inst here s v, Heap.agreesBut_set here _,
      ⟨_, Heap.get?_set_self here _, Bindings.names_put_eq fields s v⟩, fun t => getMember_put here s t v⟩

/-- A list, a map and an instance are assigned to, the list from its end. -/
theorem accesses_lawful_store :
    let heap : Heap := ⟨#[.list #[.int 5, .int 6], .map [("true", .list 0)], .inst "Point" [("x", .int 0)]]⟩
    (∃ later, setIndex heap (.list 0) (.int (-1)) (.map 1) = .ok later ∧
      getIndex later (.list 0) (.int 1) = .ok (.map 1) ∧
      getIndex later (.list 0) (.int (-2)) = .ok (.int 5)) ∧
    (∃ later, setIndex heap (.map 1) (.bool true) (.text "yes") = .ok later ∧
      getIndex later (.map 1) (.text "true") = .ok (.text "yes") ∧
      ∃ assigned, later.get? 1 = some (.map assigned) ∧ assigned.names = ["true"]) ∧
    ∃ later, setMember heap (.inst 2) "y" .null = .ok later ∧
      getMember later (.inst 2) "x" = .ok (.int 0) ∧ later.get? 1 = heap.get? 1 := by
  intro heap
  refine ⟨?_, ?_, ?_⟩
  · obtain ⟨succeeds, -, -, laws⟩ := (accesses_lawful heap 0).1 #[.int 5, .int 6] rfl (-1) (.map 1)
    obtain ⟨later, done⟩ := succeeds.mpr ⟨by decide, by decide⟩
    obtain ⟨-, -, reads⟩ := laws later done
    exact ⟨later, done, reads 1, reads (-2)⟩
  · obtain ⟨later, done, -, ⟨assigned, here, names⟩, reads, -⟩ :=
      ((accesses_lawful heap 1).2.1 [("true", .list 0)] rfl).1 (.bool true) (.text "yes") "true" rfl
    exact ⟨later, done, reads (.text "true") "true" rfl, assigned, here, names⟩
  · obtain ⟨later, done, frame, -, reads⟩ :=
      (accesses_lawful heap 2).2.2 "Point" [("x", .int 0)] rfl "y" .null
    exact ⟨later, done, reads "x", frame.others 1 (by decide)⟩

/-- A map that is a key of its own has another text as soon as it holds something, so that what was
assigned under it is not found under it. -/
theorem own_key_lost : ¬ ∀ (heap : Heap) (ref : Ref) (entries : Bindings Value) (k k' v : Value)
    (s : String) (later : Heap), heap.get? ref = some (.map entries) → key heap k = .ok s →
      key heap k' = .ok s → setIndex heap (.map ref) k v = .ok later →
      getIndex later (.map ref) k' = .ok v := by
  intro law
  have found := law ⟨#[.map []]⟩ 0 [] (.map 0) (.map 0) (.bool true) "\x7b\x7d"
    ⟨#[.map [("\x7b\x7d", .bool true)]]⟩ rfl rfl rfl rfl
  have lost : getIndex ⟨#[.map [("\x7b\x7d", .bool true)]]⟩ (.map 0) (.map 0) =
      complain "Object has no key \"\x7b\x7b\x7d: true\x7d\"" := rfl
  rw [lost] at found
  cases found

end Value

end Stepwise
