import Stepwise.Builtin

/-!
Why builtin functions fail. Whatever ends a call early was raised in one of seven ways (`Cause`), and the
values it was raised on are arguments or items of an argument (`Given`). What is to be known of the failures
of all builtins at once is proved by cases on these ways.
-/
namespace Stepwise

/-- A computation that fails only as `P` allows. -/
def FailsBy {α : Type} (P : Failure → Prop) (x : Except Failure α) : Prop :=
  ∀ failure, x = .error failure → P failure

namespace FailsBy

variable {α β : Type} {P Q : Failure → Prop}

theorem ok (a : α) : FailsBy P (.ok a) := nofun

theorem pure (a : α) : FailsBy P (Pure.pure a : Except Failure α) := ok a

theorem error {failure : Failure} (allowed : P failure) :
    FailsBy P (.error failure : Except Failure α) := by
  rintro _ ⟨⟩
  exact allowed

theorem mono {x : Except Failure α} (fails : FailsBy P x) (wider : ∀ failure, P failure → Q failure) :
    FailsBy Q x :=
  fun failure failed => wider failure (fails failure failed)

theorem bind {x : Except Failure α} {f : α → Except Failure β} (first : FailsBy P x)
    (rest : ∀ a, x = .ok a → FailsBy P (f a)) : FailsBy P (x >>= f) := by
  rcases x with failure | a
  · rintro _ ⟨⟩
    exact first _ rfl
  · exact rest a rfl

theorem last {x : Except Failure α} {f : α → β} (first : FailsBy P x) :
    FailsBy P (do return f (← x)) :=
  first.bind fun a _ => .pure (f a)

theorem ite {c : Prop} [Decidable c] {x y : Except Failure α} (yes : FailsBy P x) (no : FailsBy P y) :
    FailsBy P (if c then x else y) := by
  split
  · exact yes
  · exact no

theorem mapM {f : α → Except Failure β} {as : List α} (each : ∀ a ∈ as, FailsBy P (f a)) :
    FailsBy P (as.mapM f) := by
  induction as with
  | nil => exact pure []
  | cons a as ih =>
    obtain ⟨first, others⟩ := List.forall_mem_cons.mp each
    rw [List.mapM_cons]
    exact first.bind fun b _ => (ih others).bind fun bs _ => pure (b :: bs)

end FailsBy

namespace Prelude

/-- The values a call is about: its arguments, and the items of a list among them. -/
inductive Given (heap : Heap) (args : List Value) : Value → Prop where
  | arg (i : Nat) : Given heap args (arg args i)
  | item {i : Nat} {ref : Ref} {v : Value} :
      arg args i = .list ref → v ∈ (heap.items ref).toList → Given heap args v

/-- How a builtin function comes to fail. `far` are the positions that it rejects by their number. -/
inductive Cause (far : Int → Prop) (heap : Heap) (args : List Value) : Failure → Prop where
  /-- The function refuses its arguments. -/
  | refused (name message : String) (suggestion : Option String) :
      Cause far heap args (.fault (.running s!"{name}() {message}" suggestion))
  /-- A number is too large to be represented or shown. -/
  | tooLarge {failure : Failure} : (Value.tooLarge : Except Failure Unit) = .error failure →
      Cause far heap args failure
  /-- A value has no text. -/
  | shown {v : Value} {failure : Failure} : Given heap args v → Value.display heap v = .error failure →
      Cause far heap args failure
  | spelled {v : Value} {failure : Failure} : Given heap args v → Value.toText heap v = .error failure →
      Cause far heap args failure
  /-- An item has no text while the list it is in is being sorted. -/
  | emptied {i : Nat} {ref : Ref} {v : Value} {failure : Failure} : arg args i = .list ref →
      v ∈ (heap.items ref).toList → Value.display (heap.set ref (.list #[])) v = .error failure →
      Cause far heap args failure
  /-- A value cannot be compared. -/
  | compared {v w : Value} {failure : Failure} : Given heap args v →
      Value.equal heap v w = .error failure → Cause far heap args failure
  /-- A position that is rejected cannot be written. -/
  | unwritten {position : Int} {failure : Failure} : far position → digits position = .error failure →
      Cause far heap args failure

/-- Fails for one of the causes only. -/
abbrev Caused {α : Type} (far : Int → Prop) (heap : Heap) (args : List Value)
    (x : Except Failure α) : Prop :=
  FailsBy (Cause far heap args) x

section

variable {α : Type} {far : Int → Prop} {heap : Heap} {args : List Value} {name : String} {v : Value}
  {position : String}

theorem caused_refuse {message : String} {suggestion : Option String} :
    Caused far heap args (refuse name message suggestion : Except Failure α) :=
  .error (.refused name message suggestion)

theorem caused_tooLarge : Caused far heap args (Value.tooLarge : Except Failure α) :=
  .error (.tooLarge rfl)

theorem caused_numberText (n : Number) : Caused far heap args (Value.numberText n) := by
  unfold Value.numberText
  split
  · exact .ok _
  · exact caused_tooLarge

theorem caused_orTooLarge (n : Option Number) : Caused far heap args (Value.orTooLarge n) := by
  cases n with
  | none => exact caused_tooLarge
  | some n => exact .ok _

theorem caused_wantList : Caused far heap args (wantList name heap v position) := by
  unfold wantList
  split
  · exact .ok _
  · exact caused_refuse

theorem wantList_ok {ref : Ref} (done : wantList name heap v position = .ok ref) : v = .list ref := by
  unfold wantList at done
  split at done
  · cases done
    rfl
  · cases done

theorem caused_wantText : Caused far heap args (wantText name heap v position) := by
  unfold wantText
  split
  · exact .ok _
  · exact caused_refuse

theorem caused_wantNumber : Caused far heap args (wantNumber name heap v position) := by
  unfold wantNumber
  split
  · exact .ok _
  · exact caused_refuse

theorem caused_wholePart (n : Number) : Caused far heap args (wholePart name n) := by
  unfold wholePart
  split
  · exact .ok _
  · exact .ite (.ok _) ((caused_numberText _).bind fun _ _ => caused_refuse)

/-- A builtin function starts by checking the number of its arguments. -/
theorem caused_checked {low high : Nat} {usage : Option String} {rest : Except Failure α}
    (others : low ≤ args.length → args.length ≤ high → Caused far heap args rest) :
    Caused far heap args (do arity name args low high usage; rest) := by
  unfold arity
  split
  next within =>
    rw [Bool.and_eq_true, decide_eq_true_eq, decide_eq_true_eq] at within
    exact others within.1 within.2
  next => exact FailsBy.bind caused_refuse nofun

/-- One that works on a list takes it first. -/
theorem caused_listed {low high i : Nat} {usage : Option String} {rest : Ref → Except Failure α}
    (others : ∀ ref, arg args i = .list ref → Caused far heap args (rest ref)) :
    Caused far heap args (do
      arity name args low high usage
      let ref ← wantList name heap (arg args i) position
      rest ref) :=
  caused_checked fun _ _ => caused_wantList.bind fun ref taken => others ref (wantList_ok taken)

/-! Lists. -/

theorem caused_append : Caused far heap args (append heap args) := caused_listed fun _ _ => .pure _

theorem caused_reverse : Caused far heap args (reverse heap args) := caused_listed fun _ _ => .pure _

theorem caused_clear : Caused far heap args (clear heap args) := caused_listed fun _ _ => .pure _

/-- A position that `pop` rejects. -/
def PopsOutside (heap : Heap) (args : List Value) (position : Int) : Prop :=
  ∃ ref v, args = [.list ref, v] ∧ whole? v = some position ∧ 0 < (heap.items ref).size ∧
    (position < -(heap.items ref).size ∨ (heap.items ref).size ≤ position)

theorem caused_pop : Caused (PopsOutside heap args) heap args (pop heap args) := by
  refine caused_checked fun _ most => caused_wantList.bind fun ref taken => ?_
  have taken := wantList_ok taken
  dsimp only
  split
  · exact caused_refuse
  next nonempty =>
    have filled : 0 < (heap.items ref).size := by
      rw [Array.isEmpty_iff_size_eq_zero] at nonempty
      exact Nat.pos_of_ne_zero nonempty
    split
    · refine FailsBy.bind (.pure _) fun position last => ?_
      cases last
      have inside : ¬ (((heap.items ref).size - 1 : Int) < -((heap.items ref).size : Int) ||
          ((heap.items ref).size : Int) ≤ (heap.items ref).size - 1) = true := by
        simp only [Bool.or_eq_true, decide_eq_true_eq]
        omega
      rw [if_neg inside]
      exact .pure _
    next several =>
      -- the list comes first, so there is one argument more
      have both : args = [.list ref, arg args 1] := by
        match args, taken with
        | [a], _ => exact absurd rfl several
        | [a, b], taken => rw [show a = .list ref from taken]; rfl
      split
      next position whole =>
        refine FailsBy.bind (.pure _) fun _ same => ?_
        cases same
        split
        next outside =>
          simp only [Bool.or_eq_true, decide_eq_true_eq] at outside
          refine FailsBy.bind (fun failure unwritten => ?_) fun _ _ => caused_refuse
          exact .unwritten ⟨ref, _, both, whole, filled, outside⟩ unwritten
        next => exact .pure _
      next => exact FailsBy.bind caused_refuse nofun

/-- A position that `insert` rejects. -/
def InsertsOutside (heap : Heap) (args : List Value) (position : Int) : Prop :=
  ∃ ref v w, args = [.list ref, v, w] ∧ whole? v = some position ∧
    (position < 0 ∨ (heap.items ref).size < position)

theorem caused_insert : Caused (InsertsOutside heap args) heap args (insert heap args) := by
  refine caused_checked fun least most => caused_wantList.bind fun ref taken => ?_
  have taken := wantList_ok taken
  have all : args = [.list ref, arg args 1, arg args 2] := by
    match args, taken with
    | [a, b, c], taken => rw [show a = .list ref from taken]; rfl
  dsimp only
  split
  · exact caused_refuse
  next position whole =>
    split
    next outside =>
      simp only [Bool.or_eq_true, decide_eq_true_eq] at outside
      refine FailsBy.bind (fun failure unwritten => ?_) fun _ _ => caused_refuse
      exact .unwritten ⟨ref, _, _, all, whole, outside⟩ unwritten
    next => exact .pure _

theorem caused_sort : Caused far heap args (sort heap args) := by
  refine caused_listed fun ref listed => (FailsBy.mapM fun v inside => .last ?_).last
  unfold sortKey
  split
  · exact .ok _
  · exact FailsBy.last fun failure failed => .emptied listed inside failed

theorem caused_indexFrom {w : Value} {i : Nat} {items : List Value}
    (given : ∀ item ∈ items, Given heap args item) : Caused far heap args (indexFrom heap w i items) := by
  induction items generalizing i with
  | nil => exact .ok _
  | cons item items ih =>
    obtain ⟨first, others⟩ := List.forall_mem_cons.mp given
    exact FailsBy.bind (fun failure failed => .compared first failed) fun _ _ => .ite (.pure _) (ih others)

theorem caused_index : Caused far heap args (index heap args) :=
  caused_listed fun _ listed => (caused_indexFrom fun _ inside => .item listed inside).last

theorem caused_countEqual {w : Value} {items : List Value}
    (given : ∀ item ∈ items, Given heap args item) : Caused far heap args (countEqual heap w items) := by
  induction items with
  | nil => exact .ok _
  | cons item items ih =>
    obtain ⟨first, others⟩ := List.forall_mem_cons.mp given
    exact FailsBy.bind (fun failure failed => .compared first failed) fun _ _ => (ih others).last

theorem caused_count : Caused far heap args (count heap args) :=
  caused_listed fun _ listed => (caused_countEqual fun _ inside => .item listed inside).last

theorem caused_len : Caused far heap args (len heap args) := by
  refine caused_checked fun _ _ => ?_
  split
  · exact .pure _
  · exact .pure _
  · exact .pure _
  · exact caused_refuse

/-! Numbers. -/

theorem caused_abs : Caused far heap args (abs heap args) :=
  caused_checked fun _ _ => caused_wantNumber.last

theorem caused_extreme {beats : Number → Number → Bool} :
    Caused far heap args (extreme name beats heap args) := by
  have numbers (values : List Value) :
      Caused far heap args (values.mapM fun v => wantNumber name heap v "every value") :=
    .mapM fun _ _ => caused_wantNumber
  unfold extreme
  dsimp only
  split
  · exact FailsBy.bind caused_refuse nofun
  · split
    · exact FailsBy.bind caused_refuse nofun
    · refine FailsBy.bind (.pure _) fun values _ => (numbers values).bind fun found _ => ?_
      split
      · exact caused_refuse
      · exact .pure _
  · refine FailsBy.bind (.pure _) fun values _ => (numbers values).bind fun found _ => ?_
    split
    · exact caused_refuse
    · exact .pure _

theorem caused_sumFrom {total : Number} {vs : List Value} :
    Caused far heap args (sumFrom heap total vs) := by
  induction vs generalizing total with
  | nil => exact .ok _
  | cons v vs ih =>
    refine caused_wantNumber.bind fun n _ => ?_
    split
    · exact ih
    · exact caused_tooLarge

theorem caused_sum : Caused far heap args (sum heap args) := caused_listed fun _ _ => caused_sumFrom

theorem caused_round : Caused far heap args (round heap args) := by
  refine caused_checked fun _ _ => caused_wantNumber.bind fun n _ => .ite ?_ ?_
  · split
    · exact .pure _
    · exact .ite (.pure _) (caused_wholePart _).last
  · split
    · exact caused_orTooLarge _
    · exact .ite (caused_orTooLarge _) (.pure _)
    · exact caused_refuse

theorem caused_sqrt : Caused far heap args (sqrt heap args) := by
  refine caused_checked fun _ _ => caused_wantNumber.bind fun n _ => .ite caused_refuse ?_
  split
  · exact .pure _
  · exact caused_tooLarge

theorem caused_pow : Caused far heap args (pow heap args) := by
  refine caused_checked fun _ _ => caused_wantNumber.bind fun base _ =>
    caused_wantNumber.bind fun exponent _ => ?_
  split
  · exact .pure _
  · split
    · exact .pure _
    · exact (caused_numberText _).bind fun _ _ => (caused_numberText _).bind fun _ _ => caused_refuse

theorem caused_toInt : Caused far heap args (toInt heap args) := by
  refine caused_checked fun _ _ => ?_
  split
  · exact .pure _
  · exact (caused_wholePart _).last
  · split
    · exact .pure _
    · exact caused_refuse
  · exact caused_refuse

theorem caused_toFloat : Caused far heap args (toFloat heap args) := by
  refine caused_checked fun _ _ => ?_
  split
  · exact .pure _
  · split
    · exact .pure _
    · exact caused_tooLarge
  · split
    · exact .pure _
    · exact caused_refuse
  · exact caused_refuse

theorem caused_random {world : World} : Caused far heap args (random world args) :=
  caused_checked fun _ _ => .pure _

theorem caused_randint {world : World} : Caused far heap args (randint world args) := by
  refine caused_checked fun _ _ => ?_
  split
  · exact .ite caused_refuse (.pure _)
  · exact caused_refuse

/-! Texts. -/

theorem caused_toText : Caused far heap args (toText heap args) :=
  caused_checked fun _ _ => FailsBy.last fun _ failed => .spelled (.arg 0) failed

theorem caused_ofText {f : String → String} : Caused far heap args (do
    arity name args 1 1
    return .text (f (← wantText name heap (arg args 0))) : Except Failure Value) :=
  caused_checked fun _ _ => caused_wantText.last

theorem caused_split : Caused far heap args (split heap args) := by
  have found : Caused far heap args (pieces heap args) :=
    caused_checked fun _ _ => caused_wantText.bind fun _ _ => .ite (.pure _) caused_wantText.last
  exact found.last

theorem caused_join : Caused far heap args (join heap args) := by
  refine caused_listed fun ref listed => ?_
  have rest (sep : String) : Caused far heap args (do
      return .text (String.intercalate sep (← (heap.items ref).toList.mapM (Value.toText heap))) :
      Except Failure Value) :=
    (FailsBy.mapM fun v inside failure failed => .spelled (.item listed inside) failed).last
  refine .ite (FailsBy.bind (fun failure failed => ?_) fun sep _ => rest sep) ?_
  · exact .shown (.arg 1) failed
  · exact FailsBy.bind (.pure _) fun sep _ => rest sep

theorem caused_replace : Caused far heap args (replace heap args) :=
  caused_checked fun _ _ => caused_wantText.bind fun _ _ => caused_wantText.bind fun _ _ =>
    caused_wantText.last

theorem caused_onPart {usage : String} {ask : List Char → List Char → Value} :
    Caused far heap args (onPart name usage ask heap args) :=
  caused_checked fun _ _ => caused_wantText.bind fun _ _ => caused_wantText.last

theorem given_of_mem (member : v ∈ args) : Given heap args v := by
  obtain ⟨i, inside, rfl⟩ := List.mem_iff_getElem.mp member
  have found : arg args i = args[i] := by simp [arg, inside]
  exact found ▸ .arg i

theorem caused_line : Caused far heap args (Value.line heap args) :=
  (FailsBy.mapM fun _ member _ failed => .shown (given_of_mem member) failed).last

end

end Prelude

namespace Builtin

open Prelude (Cause Caused)

/-- The positions in a list that a builtin rejects by their number. -/
def Outside (heap : Heap) (args : List Value) : Builtin → Int → Prop
  | .pop => Prelude.PopsOutside heap args
  | .insert => Prelude.InsertsOutside heap args
  | _ => fun _ => False

/-- Every failure of a builtin has its cause in the arguments. -/
theorem caused_run (b : Builtin) (world : World) (args : List Value) :
    Caused (b.Outside world.heap args) world.heap args (b.run world args) := by
  cases b with
  | print => exact Prelude.caused_line.last
  | len => exact Prelude.caused_len.last
  | random => exact Prelude.caused_random
  | randint => exact Prelude.caused_randint
  | append => exact Prelude.caused_append.last
  | pop => exact Prelude.caused_pop.last
  | insert => exact Prelude.caused_insert.last
  | sort => exact Prelude.caused_sort.last
  | reverse => exact Prelude.caused_reverse.last
  | index => exact Prelude.caused_index.last
  | count => exact Prelude.caused_count.last
  | clear => exact Prelude.caused_clear.last
  | abs => exact Prelude.caused_abs.last
  | min | max => exact Prelude.caused_extreme.last
  | sum => exact Prelude.caused_sum.last
  | int => exact Prelude.caused_toInt.last
  | float => exact Prelude.caused_toFloat.last
  | str => exact Prelude.caused_toText.last
  | upper | lower | strip => exact Prelude.caused_ofText.last
  | split => exact Prelude.caused_split.last
  | join => exact Prelude.caused_join.last
  | replace => exact Prelude.caused_replace.last
  | find | startsWith | endsWith => exact Prelude.caused_onPart.last
  | round => exact Prelude.caused_round.last
  | sqrt => exact Prelude.caused_sqrt.last
  | pow => exact Prelude.caused_pow.last

end Builtin

end Stepwise
