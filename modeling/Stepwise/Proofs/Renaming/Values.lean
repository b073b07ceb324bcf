import Stepwise.Proofs.Renaming.Texts
import Stepwise.Value.Access
import Stepwise.Value.Operators

/-!
Operators and access to parts do not depend on how cells are numbered: on a core and on a heap around
it they give the same failures, and results that are images of each other.
-/
namespace Stepwise

/-- Two computations that fail alike or have results in a relation. -/
inductive Alike {α β : Type} (R : α → β → Prop) : Except Failure α → Except Failure β → Prop where
  | ok {a : α} {b : β} : R a b → Alike R (.ok a) (.ok b)
  | error {failure : Failure} : Alike R (.error failure) (.error failure)

namespace Alike

variable {α β γ δ : Type} {R : α → β → Prop} {S : γ → δ → Prop}

theorem bind {x : Except Failure α} {y : Except Failure β} {f : α → Except Failure γ}
    {g : β → Except Failure δ} (first : Alike R x y) (rest : ∀ a b, R a b → Alike S (f a) (g b)) :
    Alike S (x >>= f) (y >>= g) := by
  cases first with
  | ok related => exact rest _ _ related
  | error => exact .error

theorem pure {a : α} {b : β} (related : R a b) :
    Alike R (Pure.pure a) (Pure.pure b) := .ok related

theorem complain (message : String) (suggestion : Option String) :
    Alike R (Stepwise.complain message suggestion) (Stepwise.complain message suggestion) := .error

/-- One computation, followed alike by two. -/
theorem andThen {x y : Except Failure α} (same : y = x) {f : α → Except Failure γ}
    {g : α → Except Failure δ} (rest : ∀ a, Alike S (f a) (g a)) :
    Alike S (x >>= f) (y >>= g) := by
  rw [same]
  cases x with
  | error failure => exact .error
  | ok a => exact rest a

theorem of_eq {x y : Except Failure α} (same : y = x) {R : α → α → Prop} (refl : ∀ a, R a a) :
    Alike R x y := by
  rw [same]
  cases x with
  | error failure => exact .error
  | ok a => exact .ok (refl a)

end Alike

namespace Value

theorem Image.of_scalar (ρ : Ref → Ref) (size : Nat) {v : Value} (scalar : v.ref? = none) :
    Image ρ size v v :=
  ⟨below_of_scalar scalar size, (rename_of_scalar scalar ρ).symm⟩

end Value

namespace Heap.Embeds

open Value (Image)

variable {ρ : Ref → Ref} {core heap : Heap} {a b c : Value}

theorem resolve (embeds : Embeds ρ core heap) (what : String) (length : Nat)
    (below : a.Below core.size) :
    Value.resolve heap what length (a.rename ρ) = Value.resolve core what length a := by
  have named := embeds.typeName below
  cases a with
  | inst ref =>
    simp only [Value.rename_inst] at named
    simp only [Value.rename_inst, Value.resolve, Value.resolve.refuse, named]
  | _ => rfl

theorem getD_items (embeds : Embeds ρ core heap) {ref : Ref} (i : Nat) :
    Image ρ core.size ((core.items ref).getD i .null)
      (((core.items ref).map (Value.rename ρ)).getD i .null) := by
  rw [Array.getD_eq_getD_getElem?, Array.getD_eq_getD_getElem?, Array.getElem?_map]
  cases found : (core.items ref)[i]? with
  | none => exact .of_scalar ρ _ rfl
  | some v =>
    have member : v ∈ (core.items ref).toList :=
      Array.mem_def.mp (Array.mem_of_getElem? found)
    exact ⟨embeds.below_items ref v member, rfl⟩

theorem getIndex (embeds : Embeds ρ core heap) (belowA : a.Below core.size)
    (belowB : b.Below core.size) :
    Alike (Image ρ core.size) (Value.getIndex core a b)
      (Value.getIndex heap (a.rename ρ) (b.rename ρ)) := by
  have named := embeds.typeName belowA
  cases a with
  | list ref =>
    simp only [Value.rename_list, Value.getIndex, embeds.items (Value.below_list.mp belowA),
      Array.size_map]
    exact .andThen (embeds.resolve _ _ belowB) fun i => .pure (embeds.getD_items i)
  | text s =>
    exact .andThen (embeds.resolve _ _ belowB) fun i => .pure (.of_scalar ρ _ rfl)
  | map ref =>
    simp only [Value.rename_map, Value.getIndex, embeds.entries (Value.below_map.mp belowA)]
    refine .andThen (embeds.key belowB) fun k => ?_
    rw [Bindings.get?_rename]
    cases found : (core.entries ref).get? (.text k) with
    | none => exact .complain _ _
    | some v => exact .ok ⟨Bindings.below_of_get? (embeds.below_entries ref) found, rfl⟩
  | inst ref =>
    simp only [Value.rename_inst] at named
    simp only [Value.rename_inst, Value.getIndex, named]
    exact .complain _ _
  | _ => exact .complain _ _

/-- Two heaps after a change, with the core no smaller than before. -/
def Grown (ρ : Ref → Ref) (core : Heap) (core' heap' : Heap) : Prop :=
  core.size ≤ core'.size ∧ Embeds ρ core' heap'

theorem grown_set (embeds : Embeds ρ core heap) {ref : Ref} (inside : ref < core.size) {cell : Cell}
    (below : ∀ v ∈ cell.parts, v.Below core.size) :
    Grown ρ core (core.set ref cell) (heap.set (ρ ref) (cell.rename ρ)) :=
  ⟨Nat.le_of_eq (size_set ..).symm, embeds.set inside below⟩

theorem setIndex (embeds : Embeds ρ core heap) (belowA : a.Below core.size)
    (belowB : b.Below core.size) (belowC : c.Below core.size) :
    Alike (Grown ρ core) (Value.setIndex core a b c)
      (Value.setIndex heap (a.rename ρ) (b.rename ρ) (c.rename ρ)) := by
  have named := embeds.typeName belowA
  cases a with
  | list ref =>
    have inside := Value.below_list.mp belowA
    simp only [Value.rename_list, Value.setIndex, embeds.items inside, Array.size_map]
    refine .andThen (embeds.resolve _ _ belowB) fun i => .pure ?_
    have cell : Cell.list (((core.items ref).map (Value.rename ρ)).setIfInBounds i (c.rename ρ)) =
        (Cell.list ((core.items ref).setIfInBounds i c)).rename ρ := by
      rw [Cell.rename, Array.map_setIfInBounds]
    rw [cell]
    refine embeds.grown_set inside fun v part => ?_
    rcases Array.mem_or_eq_of_mem_setIfInBounds (Array.mem_def.mpr part) with old | rfl
    · exact embeds.below_items ref v (Array.mem_def.mp old)
    · exact belowC
  | map ref =>
    have inside := Value.below_map.mp belowA
    simp only [Value.rename_map, Value.setIndex, embeds.entries inside]
    refine .andThen (embeds.key belowB) fun k => .pure ?_
    rw [← Bindings.put_rename]
    refine @grown_set _ _ _ embeds _ inside (.map _) fun v part => ?_
    obtain ⟨entry, member, rfl⟩ := List.mem_map.mp part
    exact Bindings.below_put (embeds.below_entries ref) belowC entry member
  | inst ref =>
    simp only [Value.rename_inst] at named
    simp only [Value.rename_inst, Value.setIndex, named]
    exact .complain _ _
  | _ => exact .complain _ _

theorem clamp_rename (length default : Nat) (v : Value) :
    Value.clamp length default (v.rename ρ) = Value.clamp length default v := by
  cases v <;> rfl

/-- A value and a heap, and their images. -/
def Made (ρ : Ref → Ref) (core : Heap) (made made' : Value × Heap) : Prop :=
  core.size ≤ made.2.size ∧ Image ρ made.2.size made.1 made'.1 ∧ Embeds ρ made.2 made'.2

theorem made_newList (embeds : Embeds ρ core heap) {items : Array Value}
    (below : ∀ v ∈ items.toList, v.Below core.size) :
    Made ρ core (core.newList items) (heap.newList (items.map (Value.rename ρ))) := by
  refine ⟨?_, embeds.newList below⟩
  show core.size ≤ (core.alloc (.list items)).2.size
  rw [size_alloc]
  exact Nat.le_succ _

theorem slice (embeds : Embeds ρ core heap) (belowA : a.Below core.size) :
    Alike (Made ρ core) (Value.slice core a b c)
      (Value.slice heap (a.rename ρ) (b.rename ρ) (c.rename ρ)) := by
  have named := embeds.typeName belowA
  cases a with
  | list ref =>
    simp only [Value.rename_list, Value.slice, embeds.items (Value.below_list.mp belowA),
      Array.size_map]
    refine .andThen (clamp_rename ..) fun lo => .andThen (clamp_rename ..) fun hi => .pure ?_
    rw [← Array.map_extract]
    refine embeds.made_newList fun v member => embeds.below_items ref v ?_
    rw [Array.toList_extract] at member
    exact List.mem_of_mem_drop (List.mem_of_mem_take member)
  | text s =>
    refine .andThen (clamp_rename ..) fun lo => .andThen (clamp_rename ..) fun hi => .pure ?_
    exact ⟨Nat.le_refl _, .of_scalar ρ _ rfl, embeds⟩
  | inst ref =>
    simp only [Value.rename_inst] at named
    simp only [Value.rename_inst, Value.slice, named]
    exact .complain _ _
  | _ => exact .complain _ _

theorem getMember (embeds : Embeds ρ core heap) (name : Name) (belowA : a.Below core.size) :
    Alike (Image ρ core.size) (Value.getMember core a name)
      (Value.getMember heap (a.rename ρ) name) := by
  cases a with
  | inst ref =>
    have inside := Value.below_inst.mp belowA
    simp only [Value.rename_inst, Value.getMember, embeds.fields inside, embeds.className inside,
      Bindings.get?_rename]
    cases found : (core.fields ref).get? name with
    | none => exact .complain _ _
    | some v => exact .ok ⟨Bindings.below_of_get? (embeds.below_fields ref) found, rfl⟩
  | map ref =>
    simp only [Value.rename_map, Value.getMember, embeds.entries (Value.below_map.mp belowA),
      Bindings.get?_rename]
    cases found : (core.entries ref).get? name with
    | none => exact .complain _ _
    | some v => exact .ok ⟨Bindings.below_of_get? (embeds.below_entries ref) found, rfl⟩
  | _ => exact .complain _ _

theorem setMember (embeds : Embeds ρ core heap) (name : Name) (belowA : a.Below core.size)
    (belowB : b.Below core.size) :
    Alike (Grown ρ core) (Value.setMember core a name b)
      (Value.setMember heap (a.rename ρ) name (b.rename ρ)) := by
  cases a with
  | inst ref =>
    have inside := Value.below_inst.mp belowA
    simp only [Value.rename_inst, Value.setMember, embeds.fields inside, embeds.className inside]
    refine .ok ?_
    rw [← Bindings.put_rename]
    refine @grown_set _ _ _ embeds _ inside (.inst _ _) fun v part => ?_
    obtain ⟨entry, member, rfl⟩ := List.mem_map.mp part
    exact Bindings.below_put (embeds.below_fields ref) belowB entry member
  | map ref =>
    have inside := Value.below_map.mp belowA
    simp only [Value.rename_map, Value.setMember, embeds.entries inside]
    refine .ok ?_
    rw [← Bindings.put_rename]
    refine @grown_set _ _ _ embeds _ inside (.map _) fun v part => ?_
    obtain ⟨entry, member, rfl⟩ := List.mem_map.mp part
    exact Bindings.below_put (embeds.below_entries ref) belowB entry member
  | _ => exact .complain _ _

theorem numbers (embeds : Embeds ρ core heap) (sign : String) (belowA : a.Below core.size)
    (belowB : b.Below core.size) :
    Value.numbers heap sign (a.rename ρ) (b.rename ρ) = Value.numbers core sign a b := by
  have namedA := embeds.typeName belowA
  have namedB := embeds.typeName belowB
  cases a <;> cases b <;> first | rfl | simp_all [Value.numbers, Value.typeName]

theorem alike_orTooLarge (size : Nat) (n : Option Number) :
    Alike (Image ρ size) (Value.orTooLarge n) (Value.orTooLarge n) := by
  cases n with
  | none => exact .error
  | some n => exact .ok (.of_scalar ρ _ rfl)

theorem add (embeds : Embeds ρ core heap) (belowA : a.Below core.size) (belowB : b.Below core.size) :
    Alike (Image ρ core.size) (Value.add core a b) (Value.add heap (a.rename ρ) (b.rename ρ)) := by
  have joined : Alike (Image ρ core.size)
      (do return Value.text ((← a.display core) ++ (← b.display core)))
      (do return Value.text ((← (a.rename ρ).display heap) ++ (← (b.rename ρ).display heap))) :=
    .andThen (embeds.display belowA) fun _ => .andThen (embeds.display belowB) fun _ =>
      .pure (.of_scalar ρ _ rfl)
  have namedA := embeds.typeName belowA
  have namedB := embeds.typeName belowB
  cases a <;> cases b <;> first
    | exact joined
    | exact alike_orTooLarge _ _
    | exact .complain _ _
    | (simp_all only [Value.rename_null, Value.rename_bool, Value.rename_number, Value.rename_list,
        Value.rename_map, Value.rename_inst, Value.typeName, Value.add]
       exact .complain _ _)

theorem alike_repeatText (size : Nat) (s : String) (n : Number) :
    Alike (Image ρ size) (Value.repeatText s n) (Value.repeatText s n) := by
  unfold Value.repeatText
  split
  · split
    · exact .error
    · split
      · exact .error
      · exact .ok (.of_scalar ρ _ rfl)
  · exact .complain _ _

theorem mul (embeds : Embeds ρ core heap) (belowA : a.Below core.size) (belowB : b.Below core.size) :
    Alike (Image ρ core.size) (Value.mul core a b) (Value.mul heap (a.rename ρ) (b.rename ρ)) := by
  have namedA := embeds.typeName belowA
  have namedB := embeds.typeName belowB
  cases a <;> cases b <;> first
    | exact alike_orTooLarge _ _
    | exact alike_repeatText _ _ _
    | exact .complain _ _
    | (simp_all only [Value.rename_null, Value.rename_bool, Value.rename_number, Value.rename_text,
        Value.rename_list, Value.rename_map, Value.rename_inst, Value.typeName, Value.mul]
       exact .complain _ _)

theorem dividing (embeds : Embeds ρ core heap) (sign zeroFault : String)
    (divide : Number → Number → Option Number) (belowA : a.Below core.size)
    (belowB : b.Below core.size) :
    Alike (Image ρ core.size) (Value.dividing sign zeroFault divide core a b)
      (Value.dividing sign zeroFault divide heap (a.rename ρ) (b.rename ρ)) := by
  refine .andThen (embeds.numbers sign belowA belowB) fun operands => ?_
  dsimp only
  split
  · exact .complain _ _
  · exact alike_orTooLarge _ _

theorem compareBy (embeds : Embeds ρ core heap) (sign : String) (test : Number → Number → Bool)
    (belowA : a.Below core.size) (belowB : b.Below core.size) :
    Alike (Image ρ core.size) (Value.compareBy sign test core a b)
      (Value.compareBy sign test heap (a.rename ρ) (b.rename ρ)) :=
  .andThen (embeds.numbers sign belowA belowB) fun _ => .pure (.of_scalar ρ _ rfl)

theorem pow (embeds : Embeds ρ core heap) (belowA : a.Below core.size) (belowB : b.Below core.size) :
    Alike (Image ρ core.size) (Value.pow core a b) (Value.pow heap (a.rename ρ) (b.rename ρ)) := by
  refine .andThen (embeds.numbers _ belowA belowB) fun operands => ?_
  dsimp only
  split
  · exact .complain _ _
  · split
    · exact .pure (.of_scalar ρ _ rfl)
    · exact .error
    · exact .complain _ _

theorem anyEqual (embeds : Embeds ρ core heap) (belowA : a.Below core.size) {items : List Value}
    (below : ∀ v ∈ items, v.Below core.size) :
    Value.anyEqual heap (a.rename ρ) (items.map (Value.rename ρ)) =
      Value.anyEqual core a items := by
  induction items with
  | nil => rfl
  | cons item items ih =>
    rw [List.map_cons, Value.anyEqual, Value.anyEqual, embeds.equal belowA (below item (.head _)),
      ih fun v member => below v (.tail _ member)]

theorem contains (embeds : Embeds ρ core heap) (belowA : a.Below core.size)
    (belowB : b.Below core.size) :
    Value.contains heap (a.rename ρ) (b.rename ρ) = Value.contains core a b := by
  have named := embeds.typeName belowA
  cases a with
  | list ref =>
    simp only [Value.rename_list, Value.contains, embeds.items (Value.below_list.mp belowA),
      Array.toList_map]
    exact embeds.anyEqual belowB (embeds.below_items ref)
  | text whole => cases b <;> rfl
  | map ref =>
    have has : ∀ name, ((core.entries ref).rename ρ).has name = (core.entries ref).has name := by
      intro name
      rw [Bindings.has, Bindings.has, Bindings.get?_rename, Option.isSome_map]
    simp only [Value.rename_map, Value.contains, embeds.entries (Value.below_map.mp belowA), has,
      embeds.key belowB]
  | inst ref =>
    simp only [Value.rename_inst] at named
    simp only [Value.rename_inst, Value.contains, named]
  | _ => rfl

theorem binary (embeds : Embeds ρ core heap) (op : BinaryOp) (belowA : a.Below core.size)
    (belowB : b.Below core.size) :
    Alike (Image ρ core.size) (Value.binary op core a b)
      (Value.binary op heap (a.rename ρ) (b.rename ρ)) := by
  cases op with
  | add => exact embeds.add belowA belowB
  | sub => exact .andThen (embeds.numbers _ belowA belowB) fun _ => alike_orTooLarge _ _
  | mul => exact embeds.mul belowA belowB
  | div | mod | floorDiv => exact embeds.dividing _ _ _ belowA belowB
  | pow => exact embeds.pow belowA belowB
  | eq | ne => exact .andThen (embeds.equal belowA belowB) fun _ => .pure (.of_scalar ρ _ rfl)
  | lt => exact embeds.compareBy "<" Number.lt belowA belowB
  | gt => exact embeds.compareBy ">" (fun m n => n.lt m) belowA belowB
  | le => exact embeds.compareBy "<=" Number.le belowA belowB
  | ge => exact embeds.compareBy ">=" (fun m n => n.le m) belowA belowB
  | isIn => exact .andThen (embeds.contains belowB belowA) fun _ => .pure (.of_scalar ρ _ rfl)
  | and | or | unknown => exact .andThen rfl fun _ => .complain _ _

theorem negate (embeds : Embeds ρ core heap) (below : a.Below core.size) :
    Alike (Image ρ core.size) (Value.negate core a) (Value.negate heap (a.rename ρ)) := by
  have named := embeds.typeName below
  cases a with
  | number n => exact .ok (.of_scalar ρ _ rfl)
  | inst ref =>
    simp only [Value.rename_inst] at named
    simp only [Value.rename_inst, Value.negate, named]
    exact .complain _ _
  | _ => exact .complain _ _

theorem repeatCount (embeds : Embeds ρ core heap) (below : a.Below core.size) :
    Value.repeatCount heap (a.rename ρ) = Value.repeatCount core a := by
  have named := embeds.typeName below
  cases a with
  | inst ref =>
    simp only [Value.rename_inst] at named
    simp only [Value.rename_inst, Value.repeatCount, Value.repeatCount.refuse, named]
  | _ => rfl

theorem checkRange_rename (a b c : Value) :
    Value.checkRange (a.rename ρ) (b.rename ρ) (c.rename ρ) = Value.checkRange a b c := by
  cases a <;> first | rfl | (cases b <;> first | rfl | (cases c <;> rfl))

end Heap.Embeds

end Stepwise
