import Stepwise.Proofs.Agreement.Instructions
import Stepwise.Proofs.Code.Entries
import Stepwise.Proofs.Stack.Effect

/-!
The instructions that make and look into lists, records and instances, and the calls that leave
the program.
-/
namespace Stepwise

open Machine (Keeps Reaches isHidden)

variable {S : Setting} {height number pc : Nat} {stack : List Value} {w : Walker} {m k : Machine}
  {α β : Type} {line : Option Int}

section Heaps

/-- An instruction that ends by making a value. -/
theorem carries_make {heap : Heap} {v : Value} (during : During S height w k pc stack) :
    Carries number (do Walker.setHeap heap; return v) w (do Machine.setHeap heap; Machine.push v) k
      (Pushes S height pc stack) :=
  carries_setHeap during fun during => carries_push during fun _ => id

theorem tracks_list {values : List Value} (here : At S height w m pc (values.reverse ++ stack))
    (has : S.code.Has pc ⟨.arrayCreate, .int values.length, line⟩) :
    Tracks number (do
      let (v, heap) := (← Walker.getHeap).newList values.toArray
      Walker.setHeap heap
      return v) w m (Pushes S height (pc + 1) stack) := by
  refine here.perform has fun during => ?_
  refine carries_take (n := 1 * values.length) (g := fun values => do
    let (v, heap) := (← Machine.getHeap).newList values.toArray
    Machine.setHeap heap
    Machine.push v) during (Int.one_mul _) fun during => ?_
  exact carries_heap during (carries_make during)

/-- What the entries of a record leave on the stack. -/
def alternating : List (Name × Value) → List Value
  | [] => []
  | (key, v) :: rest => key.toValue :: v :: alternating rest

theorem length_alternating (entries : List (Name × Value)) :
    (alternating entries).length = 2 * entries.length := by
  induction entries with
  | nil => rfl
  | cons entry rest ih =>
    simp only [alternating, List.length_cons, ih]
    omega

theorem pairUp_alternating {entries : List (Name × Value)}
    (named : ∀ entry ∈ entries, entry.1.isText = true) (heap : Heap) (k : Machine) :
    Machine.pairUp heap (alternating entries) k = (.ok entries, k) := by
  induction entries with
  | nil => rfl
  | cons entry rest ih =>
    obtain ⟨key, v⟩ := entry
    have isText := named (key, v) List.mem_cons_self
    have ih := ih fun entry member => named entry (List.mem_cons_of_mem _ member)
    cases key <;> cases isText
    rename_i s
    have key : (liftM (Value.plain heap (.text s)) : Machine.Action String) k = (.ok s, k) := rfl
    show (do return ((.text (← liftM (Value.plain heap (.text s))) : Name), v) ::
      (← Machine.pairUp heap (alternating rest)) : Machine.Action _) k = _
    rw [Act.bind_ok key, Act.bind_ok ih]
    rfl

theorem tracks_record {entries : List (Name × Value)}
    (named : ∀ entry ∈ entries, entry.1.isText = true)
    (here : At S height w m pc ((alternating entries).reverse ++ stack))
    (has : S.code.Has pc ⟨.objectCreate, .int entries.length, line⟩) :
    Tracks number (do
      let (v, heap) := (← Walker.getHeap).newMap (Bindings.ofList entries)
      Walker.setHeap heap
      return v) w m (Pushes S height (pc + 1) stack) := by
  refine here.perform has fun during => ?_
  refine carries_machineHeap (g := fun heap => do
    let entries ← Machine.pairUp heap
      (← Machine.takeCounted ⟨.objectCreate, .int entries.length, line⟩ 2)
    let (v, heap) := (← Machine.getHeap).newMap (Bindings.ofList entries)
    Machine.setHeap heap
    Machine.push v) during ?_
  refine carries_take (n := 2 * entries.length) (g := fun values => do
    let entries ← Machine.pairUp w.heap values
    let (v, heap) := (← Machine.getHeap).newMap (Bindings.ofList entries)
    Machine.setHeap heap
    Machine.push v) during ?_ fun during => ?_
  · rw [length_alternating]
    omega
  · refine carries_machine (pairUp_alternating named ..) (.refl _) ?_
    exact carries_heap during (carries_make during)

theorem tracks_index {object position : Value}
    (here : At S height w m pc (position :: object :: stack))
    (has : S.code.Has pc ⟨.arrayGet, .null, line⟩) :
    Tracks number (do Value.getIndex (← Walker.getHeap) object position) w m
      (Pushes S height (pc + 1) stack) := by
  refine here.perform has fun during => ?_
  refine carries_pop (g := fun position => do
    let object ← Machine.pop
    Machine.push (← Value.getIndex (← Machine.getHeap) object position)) during fun during => ?_
  refine carries_pop during fun during => carries_heap during ?_
  exact carries_value during.shares fun v _ => carries_push during fun _ => id

theorem tracks_setIndex {object position v : Value}
    (here : At S height w m pc (v :: position :: object :: stack))
    (has : S.code.Has pc ⟨.arraySet, .null, line⟩) :
    Tracks number (do Walker.setHeap (← Value.setIndex (← Walker.getHeap) object position v)) w m
      (Rests S height (pc + 1) stack) := by
  refine here.perform has fun during => ?_
  refine carries_pop (g := fun v => do
    let position ← Machine.pop
    let object ← Machine.pop
    Machine.setHeap (← Value.setIndex (← Machine.getHeap) object position v)) during
    fun during => ?_
  refine carries_pop during fun during => carries_pop during fun during => ?_
  refine carries_heap during (carries_lift during.shares fun heap _ => ?_)
  exact carries_ends rfl ⟨rfl, rfl, rfl, rfl⟩ rfl during.going (.of_eq rfl rfl)
    (during.withHeap heap).toAt

theorem tracks_slice {object start stop : Value}
    (here : At S height w m pc (stop :: start :: object :: stack))
    (has : S.code.Has pc ⟨.slice, .null, line⟩) :
    Tracks number (do
      let (v, heap) ← Value.slice (← Walker.getHeap) object start stop
      Walker.setHeap heap
      return v) w m (Pushes S height (pc + 1) stack) := by
  refine here.perform has fun during => ?_
  refine carries_pop (g := fun stop => do
    let start ← Machine.pop
    let object ← Machine.pop
    let (v, heap) ← Value.slice (← Machine.getHeap) object start stop
    Machine.setHeap heap
    Machine.push v) during fun during => ?_
  refine carries_pop during fun during => carries_pop during fun during => ?_
  refine carries_heap during (carries_lift during.shares fun made _ => ?_)
  exact carries_make during

theorem tracks_member {object : Value} {property : String}
    (here : At S height w m pc (.text property :: object :: stack))
    (has : S.code.Has pc ⟨.memberGet, .null, line⟩) :
    Tracks number (do Value.getMember (← Walker.getHeap) object (.text property)) w m
      (Pushes S height (pc + 1) stack) := by
  refine here.perform has fun during => ?_
  refine carries_pop (g := fun name => do
    let object ← Machine.pop
    let heap ← Machine.getHeap
    Machine.push (← Value.getMember heap object (← name.plain heap))) during fun during => ?_
  refine carries_pop during fun during => carries_heap during ?_
  refine carries_machine (b := property) rfl (.refl _) ?_
  exact carries_value during.shares fun v _ => carries_push during fun _ => id

theorem tracks_setMember {object v : Value} {property : String}
    (here : At S height w m pc (v :: .text property :: object :: stack))
    (has : S.code.Has pc ⟨.memberSet, .null, line⟩) :
    Tracks number
      (do Walker.setHeap (← Value.setMember (← Walker.getHeap) object (.text property) v))
      w m (Rests S height (pc + 1) stack) := by
  refine here.perform has fun during => ?_
  refine carries_pop (g := fun v => do
    let name ← Machine.pop
    let object ← Machine.pop
    let heap ← Machine.getHeap
    Machine.setHeap (← Value.setMember heap object (← name.plain heap) v)) during fun during => ?_
  refine carries_pop during fun during => carries_pop during fun during => carries_heap during ?_
  refine carries_machine (b := property) rfl (.refl _) ?_
  refine carries_lift during.shares fun heap _ => ?_
  exact carries_ends rfl ⟨rfl, rfl, rfl, rfl⟩ rfl during.going (.of_eq rfl rfl)
    (during.withHeap heap).toAt

end Heaps

end Stepwise
