import Stepwise.Proofs.Causes
import Stepwise.Value.Access
import Stepwise.Value.Operators

/-!
Faults of operators and builtin functions are told apart from that of an empty operand stack by
their messages, and they do not say on which line they occurred.
-/
namespace Stepwise

/-- The message of a machine that needs more values than it has. -/
def underflow : String := "Operand stack is empty"

theorem underflow_toList : underflow.toList =
    ['O', 'p', 'e', 'r', 'a', 'n', 'd', ' ', 's', 't', 'a', 'c', 'k', ' ', 'i', 's', ' ', 'e', 'm', 'p',
      't', 'y'] :=
  String.toList_ofList

@[simp] theorem toString_text (s : String) : toString s = s := rfl

/-- A message that has a character which the message of an empty stack lacks. -/
theorem ne_underflow {message : String} (c : Char)
    (apart : c ∈ message.toList ∧ c ∉ underflow.toList) : message ≠ underflow := by
  rintro rfl
  exact apart.2 apart.1

/-- No fault has the message of an empty stack, and none has a line. -/
def Apart {α : Type} (x : Except Failure α) : Prop :=
  ∀ f, x = .error (.fault f) → f.message ≠ underflow ∧ f.line = none

namespace Apart

variable {α β : Type}

@[simp] theorem ok (a : α) : Apart (.ok a) := fun _ same => nomatch same

@[simp] theorem pure (a : α) : Apart (Pure.pure a) := ok a

@[simp] theorem host (failure : HostFailure) : Apart (.error (.host failure) : Except Failure α) :=
  fun _ same => nomatch same

theorem complain {message : String} {suggestion : Option String} (differs : message ≠ underflow) :
    Apart (Stepwise.complain message suggestion : Except Failure α) := by
  rintro f ⟨⟩
  exact ⟨differs, rfl⟩

theorem bind {x : Except Failure α} {f : α → Except Failure β} (first : Apart x)
    (rest : ∀ a, Apart (f a)) : Apart (x >>= f) := by
  intro fault failed
  rcases x with failure | a
  · cases failed
    exact first _ rfl
  · exact rest a fault failed

theorem ite {c : Prop} [Decidable c] {x y : Except Failure α} (yes : Apart x) (no : Apart y) :
    Apart (if c then x else y) := by
  split
  · exact yes
  · exact no

theorem mapM {f : α → Except Failure β} (each : ∀ a, Apart (f a)) (as : List α) :
    Apart (as.mapM f) := by
  induction as with
  | nil => exact pure []
  | cons a as ih =>
    rw [List.mapM_cons]
    exact (each a).bind fun b => ih.bind fun bs => pure (b :: bs)

theorem written (text : Option String) : Apart (Stepwise.written text) := by
  cases text with
  | none => exact host _
  | some s => exact ok s

end Apart

namespace Value

theorem apart_tooLarge {α : Type} : Apart (tooLarge : Except Failure α) :=
  .complain (ne_underflow 'N' (by simp [underflow_toList]))

theorem apart_numberText (n : Number) : Apart (numberText n) := by
  unfold numberText
  split
  · exact .ok _
  · exact apart_tooLarge

theorem apart_format (style : ListStyle) (heap : Heap) (fuel : Nat) (path : List Ref) (v : Value) :
    Apart (format style heap fuel path v) := by
  induction fuel generalizing path v with
  | zero =>
    cases v with
    | number n => exact apart_numberText n
    | null | bool _ | text _ => exact .ok _
    | list _ | map _ | inst _ => exact .host _
  | succ fuel ih =>
    have entries (ref : Ref) (bindings : Bindings Value) :
        Apart (bindings.mapM fun (entry : Name × Value) => do
          let key ← Stepwise.written entry.1.plain?
          return s!"{key}: {← format style heap fuel (ref :: path) entry.2}") :=
      Apart.mapM (fun entry => (Apart.written _).bind fun _ => (ih _ _).bind fun _ => .pure _) _
    cases v with
    | number n => exact apart_numberText n
    | null | bool _ | text _ => exact .ok _
    | list ref =>
      unfold format
      split
      · exact .host _
      · exact (Apart.mapM (ih _) _).bind fun _ => .pure _
    | map ref | inst ref =>
      unfold format
      split
      · exact .host _
      · exact (entries ref _).bind fun _ => .pure _

theorem apart_display (heap : Heap) (v : Value) : Apart (display heap v) := apart_format _ _ _ _ _

theorem apart_toText (heap : Heap) (v : Value) : Apart (toText heap v) := apart_format _ _ _ _ _

theorem apart_key (heap : Heap) (v : Value) : Apart (key heap v) := by
  unfold key
  split
  · exact .ok _
  · exact apart_display _ _

theorem apart_plain (heap : Heap) (v : Value) : Apart (plain heap v) := by
  unfold plain
  split
  · exact .ok _
  · exact .written _

theorem apart_resolve (heap : Heap) (what : String) (length : Nat) (position : Value) :
    Apart (resolve heap what length position) := by
  have refused : Apart (resolve.refuse heap what position) :=
    .complain (ne_underflow ',' (by simp [underflow_toList]))
  unfold resolve
  split
  · split
    · refine .ite (.ok _) ((apart_numberText _).bind fun _ => ?_)
      exact .complain (ne_underflow '(' (by simp [underflow_toList]))
    · exact refused
  · exact refused

theorem apart_getIndex (heap : Heap) (object position : Value) :
    Apart (getIndex heap object position) := by
  unfold getIndex
  split
  · exact (apart_resolve _ _ _ _).bind fun _ => .pure _
  · exact (apart_resolve _ _ _ _).bind fun _ => .pure _
  · refine (apart_key _ _).bind fun _ => ?_
    split
    · exact .pure _
    · exact .complain (ne_underflow '"' (by simp [underflow_toList]))
  · exact .complain (ne_underflow ',' (by simp [underflow_toList]))

theorem apart_setIndex (heap : Heap) (object position v : Value) :
    Apart (setIndex heap object position v) := by
  unfold setIndex
  split
  · exact (apart_resolve _ _ _ _).bind fun _ => .pure _
  · exact (apart_key _ _).bind fun _ => .pure _
  · exact .complain (ne_underflow ',' (by simp [underflow_toList]))

theorem apart_clamp (length default : Nat) (bound : Value) : Apart (clamp length default bound) := by
  have refused : Apart (complain "Slice bounds must be whole numbers" : Except Failure Nat) :=
    .complain (by decide)
  unfold clamp
  split
  · exact .ok _
  · split
    · exact .ok _
    · exact refused
  · exact refused

theorem apart_slice (heap : Heap) (object start stop : Value) :
    Apart (slice heap object start stop) := by
  unfold slice
  split
  · exact (apart_clamp _ _ _).bind fun _ => (apart_clamp _ _ _).bind fun _ => .pure _
  · exact (apart_clamp _ _ _).bind fun _ => (apart_clamp _ _ _).bind fun _ => .pure _
  · exact .complain (ne_underflow ',' (by simp [underflow_toList]))

theorem apart_getMember (heap : Heap) (object : Value) (name : Name) :
    Apart (getMember heap object name) := by
  unfold getMember
  split
  · split
    · exact .ok _
    · exact .complain (ne_underflow '"' (by simp [underflow_toList]))
  · split
    · exact .ok _
    · exact .complain (ne_underflow '"' (by simp [underflow_toList]))
  · exact .complain (ne_underflow '"' (by simp [underflow_toList]))

theorem apart_setMember (heap : Heap) (object : Value) (name : Name) (v : Value) :
    Apart (setMember heap object name v) := by
  unfold setMember
  split
  · exact .ok _
  · exact .ok _
  · exact .complain (ne_underflow '"' (by simp [underflow_toList]))

theorem apart_numbers (heap : Heap) (sign : String) (a b : Value) :
    Apart (numbers heap sign a b) := by
  unfold numbers
  split
  · exact .ok _
  · exact .complain (ne_underflow ',' (by simp [underflow_toList]))

theorem apart_orTooLarge (n : Option Number) : Apart (orTooLarge n) := by
  cases n with
  | none => exact apart_tooLarge
  | some n => exact .ok _

theorem apart_add (heap : Heap) (a b : Value) : Apart (add heap a b) := by
  have joined : Apart (do
      let left ← display heap a
      let right ← display heap b
      return Value.text (left ++ right)) :=
    (apart_display _ _).bind fun _ => (apart_display _ _).bind fun _ => .pure _
  unfold add
  split
  · exact apart_orTooLarge _
  · exact joined
  · exact joined
  · exact .complain (ne_underflow '+' (by simp [underflow_toList]))

theorem apart_repeatText (s : String) (times : Number) : Apart (repeatText s times) := by
  unfold repeatText
  split
  · split
    · exact apart_tooLarge
    · split
      · exact .host _
      · exact .ok _
  · exact .complain (by decide)

theorem apart_mul (heap : Heap) (a b : Value) : Apart (mul heap a b) := by
  unfold mul
  split
  · exact apart_orTooLarge _
  · exact apart_repeatText _ _
  · exact apart_repeatText _ _
  · exact .complain (ne_underflow '*' (by simp [underflow_toList]))

theorem apart_dividing {sign zeroFault : String} {divide : Number → Number → Option Number}
    (differs : zeroFault ≠ underflow) (heap : Heap) (a b : Value) :
    Apart (dividing sign zeroFault divide heap a b) := by
  refine (apart_numbers _ _ _ _).bind fun pair => ?_
  dsimp only
  split
  · exact .complain differs
  · exact apart_orTooLarge _

theorem apart_pow (heap : Heap) (a b : Value) : Apart (pow heap a b) := by
  refine (apart_numbers _ _ _ _).bind fun pair => ?_
  dsimp only
  split
  · exact .complain (by decide)
  · split
    · exact .pure _
    · exact apart_tooLarge
    · exact .complain (by decide)

theorem apart_negate (heap : Heap) (v : Value) : Apart (negate heap v) := by
  unfold negate
  split
  · exact .ok _
  · exact .complain (ne_underflow 'C' (by simp [underflow_toList]))

theorem apart_compareBy (sign : String) (test : Number → Number → Bool) (heap : Heap)
    (a b : Value) : Apart (compareBy sign test heap a b) :=
  (apart_numbers _ _ _ _).bind fun _ => .pure _

theorem apart_allEqual {equal : Value → Value → Except Failure Bool}
    (each : ∀ x y, Apart (equal x y)) (pairs : List (Value × Value)) :
    Apart (allEqual equal pairs) := by
  induction pairs with
  | nil => exact .ok _
  | cons pair pairs ih =>
    refine (each _ _).bind fun same => ?_
    split
    · exact ih
    · exact .pure _

theorem apart_equalFrom (heap : Heap) (fuel : Nat) (path : List (Ref × Ref)) (a b : Value) :
    Apart (equalFrom heap fuel path a b) := by
  induction fuel generalizing path a b with
  | zero =>
    unfold equalFrom
    split
    case h_6 | h_7 => exact .ite (.ok _) (.ite (.host _) (.host _))
    all_goals exact .ok _
  | succ fuel ih =>
    unfold equalFrom
    split
    case h_6 | h_7 => exact .ite (.ok _) (.ite (.host _) (apart_allEqual (ih _) _))
    all_goals exact .ok _

theorem apart_equal (heap : Heap) (a b : Value) : Apart (equal heap a b) :=
  apart_equalFrom _ _ _ _ _

theorem apart_anyEqual (heap : Heap) (v : Value) (items : List Value) :
    Apart (anyEqual heap v items) := by
  induction items with
  | nil => exact .ok _
  | cons item items ih =>
    refine (apart_equal _ _ _).bind fun same => ?_
    split
    · exact .pure _
    · exact ih

theorem apart_contains (heap : Heap) (container item : Value) :
    Apart (contains heap container item) := by
  unfold contains
  split
  · exact apart_anyEqual _ _ _
  · split
    · exact .ok _
    · exact .complain (by decide)
  · exact (apart_key _ _).bind fun _ => .pure _
  · exact .complain (ne_underflow ',' (by simp [underflow_toList]))

theorem apart_binary (op : BinaryOp) (heap : Heap) (a b : Value) : Apart (binary op heap a b) := by
  have unknown (op : BinaryOp) : Apart (do
      let sign ← op.sign.name
      complain s!"Unknown operator '{sign}'" : Except Failure Value) := by
    refine Apart.bind ?_ fun _ => .complain (ne_underflow 'U' (by simp [underflow_toList]))
    cases op.sign with
    | scalar _ => exact .ok _
    | compound _ _ => exact .host _
  cases op with
  | add => exact apart_add _ _ _
  | sub => exact (apart_numbers _ _ _ _).bind fun _ => apart_orTooLarge _
  | mul => exact apart_mul _ _ _
  | div | mod | floorDiv => exact apart_dividing (by decide) _ _ _
  | pow => exact apart_pow _ _ _
  | eq | ne => exact (apart_equal _ _ _).bind fun _ => .pure _
  | lt | le => exact apart_compareBy _ _ _ _ _
  | gt => exact apart_compareBy ">" (fun m n => n.lt m) _ _ _
  | ge => exact apart_compareBy ">=" (fun m n => n.le m) _ _ _
  | isIn => exact (apart_contains _ _ _).bind fun _ => .pure _
  | and | or | unknown _ => exact unknown _

theorem apart_repeatCount (heap : Heap) (v : Value) : Apart (repeatCount heap v) := by
  have refused : Apart (repeatCount.refuse heap v) := .complain (ne_underflow ',' (by simp [underflow_toList]))
  unfold repeatCount
  split
  · split
    · exact .ok _
    · exact refused
  · exact refused

theorem apart_checkRange (start stop step : Value) : Apart (checkRange start stop step) := by
  unfold checkRange
  split
  · split
    · exact .complain (by decide)
    · exact .ok _
  · exact .complain (by decide)

end Value

/-- What makes a builtin fail has another message, and no line. -/
theorem Prelude.Cause.apart {far : Int → Prop} {heap : Heap} {args : List Value} {f : Fault}
    (cause : Cause far heap args (.fault f)) : f.message ≠ underflow ∧ f.line = none := by
  cases cause with
  | refused name message suggestion =>
    exact ⟨ne_underflow '(' (by simp [Fault.running, underflow_toList]), rfl⟩
  | tooLarge raised => exact Value.apart_tooLarge f raised
  | shown _ raised => exact Value.apart_display _ _ f raised
  | spelled _ raised => exact Value.apart_toText _ _ f raised
  | emptied _ _ raised => exact Value.apart_display _ _ f raised
  | compared _ raised => exact Value.apart_equal _ _ _ f raised
  | unwritten _ raised => exact Apart.written _ f raised

namespace Builtin

theorem apart_run (b : Builtin) (world : World) (args : List Value) : Apart (b.run world args) :=
  fun _ failed => (caused_run b world args _ failed).apart

theorem apart_call (name : Name) (world : World) (args : List Value) :
    Apart (Builtin.call name world args) := by
  unfold call
  split
  · exact apart_run _ _ _
  · exact .complain (ne_underflow 'U' (by simp [underflow_toList]))

end Builtin

end Stepwise
