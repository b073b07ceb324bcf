import Mathlib.Data.List.Nodup
import Stepwise.Bindings

/-!
Looking up bound names. Of several bindings put one after the other the last one counts.
-/
namespace Stepwise.Bindings

variable {α : Type}

theorem get?_congr {name other : Name} (same : name.key = other.key) (bindings : Bindings α) :
    bindings.get? name = bindings.get? other := by
  induction bindings with
  | nil => rfl
  | cons binding rest ih => simp [get?, same, ih]

theorem get?_put (name other : Name) (value : α) (bindings : Bindings α) :
    (put name value bindings).get? other =
      if other.key = name.key then some value else bindings.get? other := by
  split
  next same => rw [get?_congr same, get?_put_same]
  next differs => exact get?_put_other differs value bindings

theorem get?_append (first second : Bindings α) (name : Name) :
    get? (first ++ second) name = (first.get? name).or (second.get? name) := by
  induction first with
  | nil => rfl
  | cons binding rest ih =>
    obtain ⟨known, value⟩ := binding
    by_cases same : known.key = name.key <;> simp [get?, same, ih]

theorem get?_update (earlier later : Bindings α) (name : Name) :
    (earlier.update later).get? name = (get? later.reverse name).or (earlier.get? name) := by
  induction later generalizing earlier with
  | nil => rfl
  | cons binding rest ih =>
    have step : earlier.update (binding :: rest) = (put binding.1 binding.2 earlier).update rest :=
      rfl
    rw [step, ih, List.reverse_cons, get?_append, get?_put]
    by_cases same : name.key = binding.1.key
    · simp [get?, same]
    · simp [get?, same, Ne.symm same]

theorem get?_ofList (pairs : List (Name × α)) (name : Name) :
    (ofList pairs).get? name = get? pairs.reverse name := by
  rw [ofList, get?_update]
  simp [get?]

theorem mem_of_get? {bindings : Bindings α} {name : Name} {value : α}
    (found : bindings.get? name = some value) :
    ∃ known, (known, value) ∈ bindings ∧ known.key = name.key := by
  induction bindings with
  | nil => cases found
  | cons binding rest ih =>
    obtain ⟨known, bound⟩ := binding
    by_cases same : known.key = name.key
    · simp only [get?, same, if_true, Option.some.injEq] at found
      subst found
      exact ⟨known, List.mem_cons_self, same⟩
    · simp only [get?, same, if_false] at found
      obtain ⟨other, member, key⟩ := ih found
      exact ⟨other, List.mem_cons_of_mem _ member, key⟩

theorem get?_of_mem {bindings : Bindings α} (distinct : bindings.keys.Nodup) {name : Name}
    {value : α} (member : (name, value) ∈ bindings) : bindings.get? name = some value := by
  induction bindings with
  | nil => cases member
  | cons binding rest ih =>
    rw [keys_cons, List.nodup_cons] at distinct
    rcases List.mem_cons.mp member with rfl | later
    · simp [get?]
    · have differs : binding.1.key ≠ name.key := by
        intro same
        exact distinct.1 (same ▸ List.mem_map.mpr ⟨(name, value), later, rfl⟩)
      simpa [get?, differs] using ih distinct.2 later

theorem get?_eq_none_iff {bindings : Bindings α} {name : Name} :
    bindings.get? name = none ↔ name.key ∉ bindings.keys := by
  induction bindings with
  | nil => simp [get?, keys]
  | cons binding rest ih =>
    obtain ⟨known, value⟩ := binding
    by_cases same : known.key = name.key
    · simp [get?, same]
    · simp [get?, same, ih, Ne.symm same]

theorem has_iff_mem_keys {bindings : Bindings α} {name : Name} :
    bindings.has name = true ↔ name.key ∈ bindings.keys := by
  rw [has, Option.isSome_iff_ne_none, ne_eq, get?_eq_none_iff, not_not]

theorem nodup_keys_put (name : Name) (value : α) {bindings : Bindings α}
    (distinct : bindings.keys.Nodup) : (put name value bindings).keys.Nodup := by
  rw [keys_put]
  split
  next => exact distinct
  next absent =>
    rw [List.nodup_append]
    refine ⟨distinct, by simp, ?_⟩
    rintro key member _ last rfl
    exact absent (List.mem_singleton.mp last ▸ member)

theorem nodup_keys_update {earlier : Bindings α} (distinct : earlier.keys.Nodup)
    (later : Bindings α) : (earlier.update later).keys.Nodup := by
  induction later generalizing earlier with
  | nil => exact distinct
  | cons binding rest ih => exact ih (nodup_keys_put binding.1 binding.2 distinct)

theorem nodup_keys_ofList (pairs : List (Name × α)) : (ofList pairs).keys.Nodup :=
  nodup_keys_update (by simp [keys]) pairs

/-- Bindings with distinct names can be read from either end. -/
theorem get?_reverse {bindings : Bindings α} (distinct : bindings.keys.Nodup) (name : Name) :
    get? bindings.reverse name = bindings.get? name := by
  have backwards : (keys bindings.reverse).Nodup := by
    rw [keys, List.map_reverse, List.nodup_reverse]
    exact distinct
  cases found : bindings.get? name with
  | none =>
    rw [get?_eq_none_iff] at found ⊢
    rwa [keys, List.map_reverse, List.mem_reverse]
  | some value =>
    obtain ⟨known, member, same⟩ := mem_of_get? found
    rw [get?_congr same.symm]
    exact get?_of_mem backwards (List.mem_reverse.mpr member)

theorem mem_of_mem_put {name known : Name} {value bound : α} {bindings : Bindings α}
    (member : (known, bound) ∈ put name value bindings) :
    (known, bound) ∈ bindings ∨ (bound = value ∧ known.key = name.key) := by
  induction bindings with
  | nil =>
    simp only [put, List.mem_singleton, Prod.mk.injEq] at member
    exact .inr ⟨member.2, member.1 ▸ rfl⟩
  | cons binding rest ih =>
    obtain ⟨first, old⟩ := binding
    by_cases same : first.key = name.key
    · simp only [put, same, if_true, List.mem_cons, Prod.mk.injEq] at member
      rcases member with ⟨rfl, rfl⟩ | later
      · exact .inr ⟨rfl, same⟩
      · exact .inl (List.mem_cons_of_mem _ later)
    · simp only [put, same, if_false, List.mem_cons, Prod.mk.injEq] at member
      rcases member with ⟨rfl, rfl⟩ | later
      · exact .inl List.mem_cons_self
      · rcases ih later with there | here
        · exact .inl (List.mem_cons_of_mem _ there)
        · exact .inr here

theorem mem_of_mem_ofList {pairs : List (Name × α)} {known : Name} {bound : α}
    (member : (known, bound) ∈ ofList pairs) :
    ∃ name, (name, bound) ∈ pairs ∧ known.key = name.key := by
  suffices general : ∀ earlier : Bindings α, (known, bound) ∈ earlier.update pairs →
      (known, bound) ∈ earlier ∨ ∃ name, (name, bound) ∈ pairs ∧ known.key = name.key by
    simpa using general [] member
  clear member
  induction pairs with
  | nil => exact fun _ member => .inl member
  | cons pair rest ih =>
    intro earlier member
    rcases ih _ member with early | ⟨name, later, same⟩
    · rcases mem_of_mem_put early with before | ⟨rfl, same⟩
      · exact .inl before
      · exact .inr ⟨pair.1, List.mem_cons_self, same⟩
    · exact .inr ⟨name, List.mem_cons_of_mem _ later, same⟩

/-- What is found under a name stands in front of everything else with that name. -/
theorem split_of_get? {bindings : Bindings α} {name : Name} {value : α}
    (found : bindings.get? name = some value) :
    ∃ before known after, bindings = before ++ (known, value) :: after ∧ known.key = name.key ∧
      ∀ binding ∈ before, binding.1.key ≠ name.key := by
  induction bindings with
  | nil => cases found
  | cons binding rest ih =>
    obtain ⟨first, bound⟩ := binding
    by_cases same : first.key = name.key
    · simp only [get?, same, if_true, Option.some.injEq] at found
      subst found
      exact ⟨[], first, rest, rfl, same, by simp⟩
    · simp only [get?, same, if_false] at found
      obtain ⟨before, known, after, rfl, key, others⟩ := ih found
      exact ⟨(first, bound) :: before, known, after, rfl, key, List.forall_mem_cons.mpr ⟨same, others⟩⟩

/-- The bindings made from a list are those behind which their name does not appear again. -/
theorem exists_mem_ofList_iff {pairs : List (Name × α)} {value : α} :
    (∃ known, (known, value) ∈ ofList pairs) ↔
      ∃ before name after, pairs = before ++ (name, value) :: after ∧
        ∀ later ∈ after, later.1.key ≠ name.key := by
  constructor
  · rintro ⟨known, member⟩
    have found := get?_of_mem (nodup_keys_ofList pairs) member
    rw [get?_ofList] at found
    obtain ⟨before, name, after, split, same, others⟩ := split_of_get? found
    refine ⟨after.reverse, name, before.reverse, ?_, fun later among => ?_⟩
    · rw [← List.reverse_reverse pairs, split]
      simp
    · exact same ▸ others later (List.mem_reverse.mp among)
  · rintro ⟨before, name, after, rfl, others⟩
    have absent : get? after.reverse name = none := by
      rw [get?_eq_none_iff, keys, List.map_reverse, List.mem_reverse]
      rintro member
      obtain ⟨later, among, same⟩ := List.mem_map.mp member
      exact others later among same
    have found : (ofList (before ++ (name, value) :: after)).get? name = some value := by
      rw [get?_ofList, List.reverse_append, List.reverse_cons, get?_append, get?_append, absent]
      simp [get?]
    obtain ⟨known, member, -⟩ := mem_of_get? found
    exact ⟨known, member⟩

/-- The same for the bindings that the elements of a list give. -/
theorem exists_mem_filterMap_iff {β : Type} {g : β → Option (Name × α)} {xs : List β} {value : α} :
    (∃ known, (known, value) ∈ ofList (xs.filterMap g)) ↔
      ∃ before x after name, xs = before ++ x :: after ∧ g x = some (name, value) ∧
        ∀ y ∈ after, ∀ later, g y = some later → later.1.key ≠ name.key := by
  rw [exists_mem_ofList_iff]
  constructor
  · rintro ⟨before, name, after, split, others⟩
    obtain ⟨first, rest, rfl, -, split⟩ := List.filterMap_eq_append_iff.mp split
    obtain ⟨skipped, x, last, rfl, -, given, rfl⟩ := List.filterMap_eq_cons_iff.mp split
    refine ⟨first ++ skipped, x, last, name, by simp, given, fun y among later gives => ?_⟩
    exact others later (List.mem_filterMap.mpr ⟨y, among, gives⟩)
  · rintro ⟨before, x, after, name, rfl, given, others⟩
    refine ⟨before.filterMap g, name, after.filterMap g, by simp [given], fun later among => ?_⟩
    obtain ⟨y, among, gives⟩ := List.mem_filterMap.mp among
    exact others y among later gives

/-- Putting distinct bindings one by one gives the same bindings. -/
theorem get?_update_nil {bindings : Bindings α} (distinct : bindings.keys.Nodup) (name : Name) :
    (update [] bindings).get? name = bindings.get? name := by
  rw [get?_update, get?_reverse distinct]
  simp [get?]

theorem get?_map {β : Type} (f : α → β) (bindings : Bindings α) (name : Name) :
    get? (bindings.map fun binding => (binding.1, f binding.2)) name =
      (bindings.get? name).map f := by
  induction bindings with
  | nil => rfl
  | cons binding rest ih =>
    by_cases same : binding.1.key = name.key <;> simp [get?, same, ih]

/-- The same names bound to images. -/
theorem put_map {β : Type} (g : α → β) (name : Name) (value : α) (bindings : Bindings α) :
    put name (g value) (bindings.map fun binding => (binding.1, g binding.2)) =
      (put name value bindings).map fun binding => (binding.1, g binding.2) := by
  induction bindings with
  | nil => rfl
  | cons binding rest ih =>
    obtain ⟨known, old⟩ := binding
    by_cases same : known.key = name.key
    · simp [put, same]
    · simp [put, same, ih]

theorem ofList_map {β : Type} (g : α → β) (pairs : List (Name × α)) :
    ofList (pairs.map fun pair => (pair.1, g pair.2)) =
      (ofList pairs).map fun binding => (binding.1, g binding.2) := by
  suffices general : ∀ earlier : Bindings α,
      update (earlier.map fun binding => (binding.1, g binding.2))
        (pairs.map fun pair => (pair.1, g pair.2)) =
      (earlier.update pairs).map fun binding => (binding.1, g binding.2) from general []
  induction pairs with
  | nil => exact fun _ => rfl
  | cons pair pairs ih =>
    intro earlier
    have first := put_map g pair.1 pair.2 earlier
    have rest := ih (put pair.1 pair.2 earlier)
    rw [← first] at rest
    exact rest

end Stepwise.Bindings
