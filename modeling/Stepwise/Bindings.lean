import Stepwise.Scalar

/-!
Names bound to things, in the order in which the names first appeared. Binding a name again keeps
its place and its first spelling: `names_put` says so.
-/
namespace Stepwise

abbrev Bindings (α : Type) := List (Name × α)

namespace Bindings

variable {α : Type}

def get? : Bindings α → Name → Option α
  | [], _ => none
  | (known, value) :: rest, name => if known.key = name.key then some value else get? rest name

def has (bindings : Bindings α) (name : Name) : Bool := (bindings.get? name).isSome

def put (name : Name) (value : α) : Bindings α → Bindings α
  | [] => [(name, value)]
  | (known, old) :: rest =>
    if known.key = name.key then (known, value) :: rest else (known, old) :: put name value rest

def erase (bindings : Bindings α) (name : Name) : Bindings α :=
  bindings.filter fun binding => binding.1.key ≠ name.key

def names (bindings : Bindings α) : List Name := bindings.map Prod.fst

/-- What the names are found by. -/
def keys (bindings : Bindings α) : List Scalar.Key := bindings.map fun binding => binding.1.key

/-- The bindings of `later` put over those of `earlier`. -/
def update (earlier later : Bindings α) : Bindings α :=
  later.foldl (fun bindings binding => put binding.1 binding.2 bindings) earlier

/-- Bindings from a list in which a name may appear again. -/
def ofList (pairs : List (Name × α)) : Bindings α := update [] pairs

@[simp] theorem get?_put_same (name : Name) (value : α) (bindings : Bindings α) :
    (put name value bindings).get? name = some value := by
  induction bindings with
  | nil => simp [put, get?]
  | cons binding rest ih =>
    obtain ⟨known, old⟩ := binding
    by_cases same : known.key = name.key
    · simp [put, get?, same]
    · simpa [put, get?, same] using ih

@[simp] theorem get?_put_other {name other : Name} (differs : other.key ≠ name.key) (value : α)
    (bindings : Bindings α) : (put name value bindings).get? other = bindings.get? other := by
  induction bindings with
  | nil => simp [put, get?, Ne.symm differs]
  | cons binding rest ih =>
    obtain ⟨known, old⟩ := binding
    by_cases same : known.key = name.key
    · simp [put, get?, same, Ne.symm differs]
    · by_cases found : known.key = other.key
      · simp [put, get?, found, differs]
      · simpa [put, get?, same, found] using ih

@[simp] theorem keys_cons (binding : Name × α) (rest : Bindings α) :
    keys (binding :: rest) = binding.1.key :: keys rest := rfl

@[simp] theorem names_cons (binding : Name × α) (rest : Bindings α) :
    names (binding :: rest) = binding.1 :: names rest := rfl

theorem keys_put (name : Name) (value : α) (bindings : Bindings α) :
    keys (put name value bindings) =
      if name.key ∈ keys bindings then keys bindings else keys bindings ++ [name.key] := by
  induction bindings with
  | nil => rfl
  | cons binding rest ih =>
    by_cases same : binding.1.key = name.key
    · simp [put, same]
    · by_cases member : name.key ∈ keys rest
      · simp [put, same, ih, member]
      · simp [put, same, ih, member, Ne.symm same]

theorem names_put (name : Name) (value : α) (bindings : Bindings α) :
    names (put name value bindings) =
      if name.key ∈ keys bindings then names bindings else names bindings ++ [name] := by
  induction bindings with
  | nil => rfl
  | cons binding rest ih =>
    by_cases same : binding.1.key = name.key
    · simp [put, same]
    · by_cases member : name.key ∈ keys rest
      · simp [put, same, ih, member]
      · simp [put, same, ih, member, Ne.symm same]

end Bindings

end Stepwise
