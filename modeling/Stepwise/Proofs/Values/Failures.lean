import Stepwise.Proofs.Causes
import Stepwise.Proofs.Outcome
import Stepwise.Proofs.Values.Contents
import Stepwise.Proofs.Values.Numerals
import Stepwise.Proofs.Values.Sorting

/-!
How calls of builtin functions fail. On arguments that do not contain themselves a call ends with a value or
with a fault of the program, except that `pop` and `insert` cannot name a position with too many digits in
their faults. Whatever fails changes nothing: `callBuiltin_ends`.
-/
namespace Stepwise

/-- A fault of the running program, which a learner is told about. -/
def Complaint (failure : Failure) : Prop :=
  ∃ message suggestion, failure = .fault (.running message suggestion)

/-- A result, or a fault of the running program. -/
abbrev Answered {α : Type} (x : Except Failure α) : Prop := FailsBy Complaint x

namespace Value

variable {heap : Heap} {a b v w : Value}

theorem answered_tooLarge {α : Type} : Answered (tooLarge : Except Failure α) := .error ⟨_, _, rfl⟩

theorem Shown.answered {x : Except Failure String} (shown : Shown x) : Answered x := by
  rcases shown with ⟨s, rfl⟩ | rfl
  · exact .ok s
  · exact answered_tooLarge

theorem answered_display (ok : Showable heap v) : Answered (display heap v) := (display_ends ok).answered

theorem answered_toText (ok : Showable heap v) : Answered (toText heap v) :=
  (format_ends .bracketed ok (.start heap v)).answered

/-! Equality comes to an end when one of the values does not contain itself. -/

theorem mem_partsAt {ref : Ref} (inside : w ∈ v.parts heap) (refers : v.ref? = some ref) :
    w ∈ heap.partsAt ref := parts_of_mem refers inside ▸ inside

theorem exists_ref (inside : w ∈ v.parts heap) : ∃ ref, v.ref? = some ref := by
  cases v with
  | list ref | map ref => exact ⟨ref, rfl⟩
  | _ => cases inside

theorem reaches_of_holds {ref : Ref} {next : Ref} (holds : Holds heap v w) (refers : v.ref? = some ref)
    (leads : w.ref? = some next) : heap.Reaches (heap.partsAt ref) next := by
  induction holds generalizing next with
  | single inside => exact .root (mem_partsAt inside refers) leads
  | tail _ inside ih =>
    obtain ⟨between, there⟩ := exists_ref inside
    exact (ih there).ofPart (mem_partsAt inside there) leads

theorem Showable.not_holds (ok : Showable heap v) : ¬ Holds heap v v := by
  intro holds
  obtain ⟨w, inside, -⟩ := Relation.TransGen.head'_iff.mp holds
  obtain ⟨ref, refers⟩ := exists_ref inside
  exact ok.acyclic ref (reaches_self refers) (reaches_of_holds holds refers refers)

theorem answered_allEqual {equal : Value → Value → Except Failure Bool} {pairs : List (Value × Value)}
    (each : ∀ pair ∈ pairs, Answered (equal pair.1 pair.2)) : Answered (allEqual equal pairs) := by
  induction pairs with
  | nil => exact .ok _
  | cons pair pairs ih =>
    obtain ⟨first, others⟩ := List.forall_mem_cons.mp each
    exact first.bind fun same _ => .ite (ih others) (.pure _)

theorem answered_equalFrom {fuel : Nat} {path : List (Ref × Ref)} (ok : Showable heap a)
    (descent : Descent heap fuel path a) : Answered (equalFrom heap fuel path a b) := by
  induction fuel generalizing a b path with
  | zero =>
    obtain ⟨_, absurd⟩ := descent.pairs.fuel_pos
    cases absurd
  | succ fuel ih =>
    -- no pair of the path is met again, and what is inside `a` is one step further down
    have inner : ∀ r s x y, a.ref? = some r → a.parts heap = heap.partsAt r → x ∈ heap.partsAt r →
        s < heap.size → Answered (equalFrom heap fuel ((r, s) :: path) x y) :=
      fun r s x y refers parts inside other =>
        ih (ok.part refers inside) (descent.down ok.not_holds refers (parts ▸ inside) other)
    unfold equalFrom
    split
    case h_6 r s =>
      refine .ite (.ok _) ?_
      rw [if_neg (by simpa using descent.new (b := s) ok.not_holds rfl)]
      refine answered_allEqual fun pair member => ?_
      obtain ⟨first, second⟩ := List.of_mem_zip member
      exact inner r s _ _ rfl rfl (Heap.part_of_item first)
        (Heap.lt_size_of_part (Heap.part_of_item second))
    case h_7 r s =>
      dsimp only
      by_cases keys : sameKeys (heap.entries r) (heap.entries s) = true
      · rw [if_neg (by simp [keys]), if_neg (by simpa using descent.new (b := s) ok.not_holds rfl)]
        refine answered_allEqual fun pair member => ?_
        obtain ⟨entry, inside, rfl⟩ := List.mem_map.mp member
        rw [sameKeys, Bool.and_eq_true, List.all_eq_true] at keys
        obtain ⟨y, found⟩ := Option.isSome_iff_exists.mp (keys.2 entry inside)
        rw [found]
        exact inner r s _ _ rfl rfl (Heap.part_of_entry inside)
          (Heap.lt_size_of_part (part_of_get? found))
      · rw [if_pos (by simp [keys])]
        exact .ok _
    all_goals exact .ok _

theorem answered_equal (ok : Showable heap a) : Answered (equal heap a b) :=
  answered_equalFrom ok (.start heap a)

end Value

namespace Prelude

variable {far : Int → Prop} {heap : Heap} {args : List Value} {v : Value} {position : Int}

theorem digits_large (large : ¬ Decimal.Fits position) :
    digits position = .error (.host .digitLimit) := by
  rw [digits, Number.intText?, if_neg (mt (Decimal.fits_iff position).mpr large)]
  rfl

theorem digits_fails {failure : Failure} (failed : digits position = .error failure) :
    failure = .host .digitLimit ∧ ¬ Decimal.Fits position := by
  by_cases fits : Decimal.Fits position
  · rw [digits, Number.intText?, if_pos ((Decimal.fits_iff position).mp fits)] at failed
    cases failed
  · rw [digits_large fits] at failed
    cases failed
    exact ⟨rfl, fits⟩

section

variable (ok : ∀ v ∈ args, Value.Showable heap v)
include ok

theorem showable_arg (i : Nat) : Value.Showable heap (arg args i) := by
  by_cases inside : i < args.length
  · have found : arg args i = args[i] := by simp [arg, inside]
    exact found ▸ ok _ (List.getElem_mem inside)
  · have missing : arg args i = .null := by simp [arg, Nat.not_lt.mp inside]
    exact missing ▸ .scalar rfl

theorem Given.showable (given : Given heap args v) : Value.Showable heap v := by
  cases given with
  | arg i => exact showable_arg ok i
  | @item i ref _ listed inside =>
    have list : Value.Showable heap (.list ref) := listed ▸ showable_arg ok i
    exact list.part rfl (Heap.part_of_item inside)

/-- On arguments that do not contain themselves a builtin complains, or cannot write a position. -/
theorem Cause.complaint {failure : Failure} (cause : Cause far heap args failure) :
    Complaint failure ∨ failure = .host .digitLimit ∧ ∃ position, far position ∧ ¬ Decimal.Fits position := by
  cases cause with
  | refused name message suggestion => exact .inl ⟨_, _, rfl⟩
  | tooLarge raised => exact .inl (Value.answered_tooLarge _ raised)
  | shown given raised => exact .inl (Value.answered_display (given.showable ok) _ raised)
  | spelled given raised => exact .inl (Value.answered_toText (given.showable ok) _ raised)
  | @emptied i ref v _ listed inside raised =>
    have item := Heap.part_of_item inside
    have showable := Given.showable ok (.item listed inside)
    rw [Value.display_set item showable] at raised
    exact .inl (Value.answered_display showable _ raised)
  | compared given raised => exact .inl (Value.answered_equal (given.showable ok) _ raised)
  | unwritten rejected raised =>
    obtain ⟨rfl, large⟩ := digits_fails raised
    exact .inr ⟨rfl, _, rejected, large⟩

end

/-! A position that is rejected and has too many digits ends the call. -/

theorem pop_unwritten (outside : PopsOutside heap args position) (large : ¬ Decimal.Fits position) :
    pop heap args = .error (.host .digitLimit) := by
  obtain ⟨ref, v, rfl, whole, filled, outside⟩ := outside
  have nonempty : heap.items ref ≠ #[] := Array.size_pos_iff.mp filled
  simp [pop, arity, arg, wantList, whole, nonempty, outside, digits_large large, bind, Except.bind,
    pure, Except.pure]

/-- The first power of ten that has too many digits. -/
example : pop ⟨#[.list #[.int 1, .int 2]]⟩ [.list 0, .int (pow10 Decimal.digitLimit)] =
    .error (.host .digitLimit) := by
  have large : ¬ Decimal.Fits (pow10 Decimal.digitLimit) := by
    rw [Decimal.fits_iff, Int.natAbs_natCast]
    exact Nat.lt_irrefl _
  have beyond : 1 < pow10 Decimal.digitLimit := by
    rw [Decimal.pow10_eq]
    exact Nat.one_lt_pow (by decide) (by decide)
  exact pop_unwritten ⟨0, _, rfl, rfl, Nat.zero_lt_two, .inr (Int.ofNat_le.mpr beyond)⟩ large

theorem insert_unwritten (outside : InsertsOutside heap args position)
    (large : ¬ Decimal.Fits position) : insert heap args = .error (.host .digitLimit) := by
  obtain ⟨ref, v, w, rfl, whole, outside⟩ := outside
  simp [insert, arity, arg, wantList, whole, outside, digits_large large, bind, Except.bind]

end Prelude

namespace Engine

variable {engine : Engine} {name : Name} {args : List Value}

/-- A call that rejects a position, which has too many digits to stand in the fault. -/
def RejectsUnwritten (heap : Heap) (name : Name) (args : List Value) : Prop :=
  ∃ b position, Builtin.ofName? name = some b ∧ b.Outside heap args position ∧ ¬ Decimal.Fits position

/-- A call of `pop` or `insert` that rejects a position with too many digits leaves the program by a
failure of the host. Any other call on arguments that do not contain themselves gives a value or a fault of
the running program. A call that fails changes neither the heap nor the output nor anything else. -/
theorem callBuiltin_ends (showable : ∀ v ∈ args, Value.Showable engine.heap v) :
    (RejectsUnwritten engine.heap name args →
      engine.callBuiltin name args = (.error (.host .digitLimit), engine)) ∧
    (¬ RejectsUnwritten engine.heap name args →
      (∃ v world, engine.callBuiltin name args = (.ok v, { engine with world })) ∨
      ∃ message suggestion, engine.callBuiltin name args =
        (.error (.fault (.running message suggestion)), engine)) := by
  refine ⟨fun ⟨b, position, called, outside, large⟩ => ?_, fun written => ?_⟩
  · refine callBuiltin_of_error called ?_
    cases b with
    | pop => exact Builtin.changing_of_error (Prelude.pop_unwritten outside large)
    | insert => exact Builtin.changing_of_error (Prelude.insert_unwritten outside large)
    | _ => cases outside
  · cases called : Builtin.ofName? name with
    | none =>
      have unknown : ∃ message suggestion, Builtin.call name engine.world args =
          .error (.fault (.running message suggestion)) :=
        ⟨_, _, by simp only [Builtin.call, called]; rfl⟩
      obtain ⟨message, suggestion, unknown⟩ := unknown
      exact .inr ⟨message, suggestion, by rw [callBuiltin, unknown]⟩
    | some b =>
      cases ended : b.run engine.world args with
      | ok result => exact .inl ⟨result.1, result.2, callBuiltin_of_ok called ended⟩
      | error failure =>
        rcases (Builtin.caused_run b engine.world args failure ended).complaint showable with
          ⟨message, suggestion, rfl⟩ | ⟨-, position, outside, large⟩
        · exact .inr ⟨message, suggestion, callBuiltin_of_error called ended⟩
        · exact absurd ⟨b, position, called, outside, large⟩ written

end Engine

end Stepwise
