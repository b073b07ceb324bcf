import Stepwise.Proofs.Agreement.Calls

/-!
The machine follows the walker through expressions, given that calls of functions of the program
are followed.
-/
namespace Stepwise

open Machine (Keeps Reaches isHidden)

variable {S : Setting} {height number pc : Nat} {stack : List Value} {w : Walker} {m : Machine}
  {line : Option Int} {invoke : Walker.Invoke}

/-- Values were left on top of some operands, the last one on top. -/
def PushesAll (S : Setting) (height pc : Nat) (stack : List Value) (count : Nat)
    (values : List Value)
    (w : Walker) (m : Machine) : Prop :=
  At S height w m pc (values.reverse ++ stack) ∧ values.length = count

/-- The entries of a record were left on top of some operands, each as its key and its value. -/
def PushesEntries (S : Setting) (height pc : Nat) (stack : List Value) (count : Nat)
    (entries : List (Name × Value)) (w : Walker) (m : Machine) : Prop :=
  At S height w m pc ((alternating entries).reverse ++ stack) ∧ entries.length = count ∧
    ∀ entry ∈ entries, entry.1.isText = true

theorem walker_memberName (object : Value) (property : String) (w : Walker) :
    Walker.memberName object (.scalar (.text property)) w = (.ok (.text property), w) := by
  unfold Walker.memberName
  split <;> rfl

/-- The name of a member that is a text is found without looking at the object. -/
theorem bind_memberName {α : Type} (object : Value) (property : String)
    (f : Heap → Name → Walker.Walk α) (w : Walker) :
    (do f (← Walker.getHeap) (← Walker.memberName object (.scalar (.text property)))) w =
      (do f (← Walker.getHeap) (.text property)) w := by
  have heap : Walker.getHeap w = (.ok w.heap, w) := rfl
  rw [Act.bind_ok heap, Act.bind_ok heap, Act.bind_ok (walker_memberName ..)]

/-- The code of an expression, wherever it stands, follows the walker and leaves the value. -/
def Evaluates (S : Setting) (invoke : Walker.Invoke) (height : Nat) (e : Expr) : Prop :=
  ∀ ⦃number base next : Nat⦄ ⦃line : Option Int⦄ ⦃stack : List Value⦄ ⦃w : Walker⦄ ⦃m : Machine⦄,
    ExprAt S.code S.scope line base e next → At S height w m base stack →
    Tracks number (Walker.eval invoke e) w m (Pushes S height next stack)

/-- The code of several expressions leaves their values, the last one on top. -/
def EvaluatesAll (S : Setting) (invoke : Walker.Invoke) (height : Nat) (es : List Expr) : Prop :=
  ∀ ⦃number base next : Nat⦄ ⦃line : Option Int⦄ ⦃stack : List Value⦄ ⦃w : Walker⦄ ⦃m : Machine⦄,
    ExprsAt S.code S.scope line base es next → At S height w m base stack →
    Tracks number (Walker.evalAll invoke es) w m (PushesAll S height next stack es.length)

/-- The code of a bound leaves its value, null where it is absent. -/
def EvaluatesBound (S : Setting) (invoke : Walker.Invoke) (height : Nat) (bound : Option Expr) :
    Prop :=
  ∀ ⦃number base next : Nat⦄ ⦃line : Option Int⦄ ⦃stack : List Value⦄ ⦃w : Walker⦄ ⦃m : Machine⦄,
    BoundAt S.code S.scope line base bound next → At S height w m base stack →
    Tracks number (Walker.evalOption invoke bound) w m (Pushes S height next stack)

/-- The code of the entries of a record leaves keys and values. -/
def EvaluatesEntries (S : Setting) (invoke : Walker.Invoke) (height : Nat)
    (entries : List (Constant × Expr)) : Prop :=
  ∀ ⦃number base next : Nat⦄ ⦃line : Option Int⦄ ⦃stack : List Value⦄ ⦃w : Walker⦄ ⦃m : Machine⦄,
    EntriesAt S.code S.scope line base entries next → At S height w m base stack →
    Tracks number (Walker.evalEntries invoke entries) w m
      (PushesEntries S height next stack entries.length)

section Operators

variable {pos : Pos} {left right operand : Expr}

/-- The right operand of `and` is evaluated where the left one holds. -/
theorem evaluates_and (first : Evaluates S invoke height left)
    (second : Evaluates S invoke height right) {base mid next : Nat}
    (leftAt : ExprAt S.code S.scope line base left mid)
    (dup : S.code.Has mid ⟨.dup, .null, line⟩)
    (skip : S.code.Has (mid + 1) ⟨.jumpIfNot, .int (next : Nat), line⟩)
    (pop : S.code.Has (mid + 2) ⟨.pop, .null, line⟩)
    (rightAt : ExprAt S.code S.scope line (mid + 3) right next) (here : At S height w m base stack) :
    Tracks number (Walker.eval invoke (.binary pos .and left right)) w m
      (Pushes S height next stack) := by
  simp only [Walker.eval]
  refine (first leftAt here).bind fun v w m _ here => ?_
  refine tracks_walk rfl (.refl _) ?_
  refine (tracks_dup here dup).first fun m _ here => ?_
  refine (tracks_jumpIfNot here skip).first fun m _ here => ?_
  split at here
  next yes =>
    rw [if_pos yes]
    refine (tracks_pop here pop).first fun m _ here => ?_
    exact second rightAt here
  next no =>
    rw [if_neg no]
    exact tracks_pure here

/-- The right operand of `or` is evaluated where the left one does not hold. -/
theorem evaluates_or (first : Evaluates S invoke height left)
    (second : Evaluates S invoke height right) {base mid next : Nat}
    (leftAt : ExprAt S.code S.scope line base left mid)
    (dup : S.code.Has mid ⟨.dup, .null, line⟩)
    (skip : S.code.Has (mid + 1) ⟨.jumpIf, .int (next : Nat), line⟩)
    (pop : S.code.Has (mid + 2) ⟨.pop, .null, line⟩)
    (rightAt : ExprAt S.code S.scope line (mid + 3) right next) (here : At S height w m base stack) :
    Tracks number (Walker.eval invoke (.binary pos .or left right)) w m
      (Pushes S height next stack) := by
  simp only [Walker.eval]
  refine (first leftAt here).bind fun v w m _ here => ?_
  refine tracks_walk rfl (.refl _) ?_
  refine (tracks_dup here dup).first fun m _ here => ?_
  refine (tracks_jumpIf here skip).first fun m _ here => ?_
  split at here
  next yes =>
    rw [if_pos yes]
    exact tracks_pure here
  next no =>
    rw [if_neg no]
    refine (tracks_pop here pop).first fun m _ here => ?_
    exact second rightAt here

/-- The operators without a jump take both operands. -/
theorem eval_binary {op : BinaryOp} {opcode : Opcode} (known : Code.binaryOpcode? op = some opcode) :
    Walker.eval invoke (.binary pos op left right) = (do
      let a ← Walker.eval invoke left
      let b ← Walker.eval invoke right
      Value.binary op (← Walker.getHeap) a b) := by
  cases op <;> cases known <;> simp only [Walker.eval]

theorem evaluates_binary (op : BinaryOp) (first : Evaluates S invoke height left)
    (second : Evaluates S invoke height right) :
    Evaluates S invoke height (.binary pos op left right) := by
  intro number base next line stack w m placed here
  cases placed with
  | and leftAt dup skip pop rightAt => exact evaluates_and first second leftAt dup skip pop rightAt here
  | or leftAt dup skip pop rightAt => exact evaluates_or first second leftAt dup skip pop rightAt here
  | binary known leftAt rightAt has =>
    rw [eval_binary known]
    refine (first leftAt here).bind fun a w m _ here => ?_
    refine (second rightAt here).bind fun b w m _ here => ?_
    exact tracks_binary _ here known has

theorem evaluates_unary (op : UnaryOp) (inner : Evaluates S invoke height operand) :
    Evaluates S invoke height (.unary pos op operand) := by
  intro number base next line stack w m placed here
  cases placed with
  | neg operandAt has =>
    simp only [Walker.eval]
    refine (inner operandAt here).bind fun v w m _ here => ?_
    exact tracks_neg here has
  | not operandAt has =>
    simp only [Walker.eval]
    refine (inner operandAt here).bind fun v w m _ here => ?_
    exact tracks_not here has

end Operators

section Calls

variable {pos : Pos} {args : List Expr}

theorem evaluates_call (sound : S.Sound) (serves : Serves S invoke height) {callee : Constant}
    (common : Expr.Common (.call pos callee args)) (inner : EvaluatesAll S invoke height args) :
    Evaluates S invoke height (.call pos callee args) := by
  intro number base next line stack w m placed here
  cases placed with | call named argsAt has =>
  obtain ⟨_, rfl, s, rfl, pointless⟩ := common.1.pointless
  cases named
  simp only [Walker.eval]
  refine (inner argsAt here).bind fun values w m _ given => ?_
  obtain ⟨here, length⟩ := given
  refine tracks_walk (a := .text s) rfl (.refl _) ?_
  have countable : Countable args.length := common.2
  rw [← length] at countable has
  exact tracks_call sound serves pointless countable here has

theorem evaluates_invoke (sound : S.Sound) (serves : Serves S invoke height) {object : Expr}
    {method : Constant} (common : Expr.Common (.invoke pos object method args))
    (receiver : Evaluates S invoke height object) (inner : EvaluatesAll S invoke height args) :
    Evaluates S invoke height (.invoke pos object method args) := by
  intro number base next line stack w m placed here
  cases placed with | invoke objectAt argsAt has =>
  obtain ⟨_, rfl, s, rfl, pointless⟩ := common.1.pointless
  obtain ⟨other, countable⟩ := common.2
  simp only [Walker.eval]
  refine (receiver objectAt here).bind fun receiver w m _ here => ?_
  refine (inner argsAt here).bind fun values w m _ given => ?_
  obtain ⟨here, length⟩ := given
  refine tracks_walk (a := .text s) rfl (.refl _) ?_
  rw [← length] at countable has
  refine tracks_method sound serves pointless (fun same => other same) countable ?_ has
  rwa [List.reverse_cons, List.append_assoc]

end Calls

section Parts

variable {pos : Pos} {object position : Expr}

theorem evaluates_list {elements : List Expr} (inner : EvaluatesAll S invoke height elements) :
    Evaluates S invoke height (.list pos elements) := by
  intro number base next line stack w m placed here
  cases placed with | list elementsAt has =>
  simp only [Walker.eval]
  refine (inner elementsAt here).bind fun values w m _ given => ?_
  obtain ⟨here, length⟩ := given
  rw [← length] at has
  exact tracks_list here has

theorem evaluates_record {entries : List (Constant × Expr)}
    (inner : EvaluatesEntries S invoke height entries) :
    Evaluates S invoke height (.record pos entries) := by
  intro number base next line stack w m placed here
  cases placed with | record entriesAt has =>
  simp only [Walker.eval]
  refine (inner entriesAt here).bind fun values w m _ given => ?_
  obtain ⟨here, length, named⟩ := given
  rw [← length] at has
  exact tracks_record named here has

theorem evaluates_index (first : Evaluates S invoke height object)
    (second : Evaluates S invoke height position) :
    Evaluates S invoke height (.index pos object position) := by
  intro number base next line stack w m placed here
  cases placed with | index objectAt positionAt has =>
  simp only [Walker.eval]
  refine (first objectAt here).bind fun v w m _ here => ?_
  refine (second positionAt here).bind fun v w m _ here => ?_
  exact tracks_index here has

theorem evaluates_slice {start stop : Option Expr} (first : Evaluates S invoke height object)
    (second : EvaluatesBound S invoke height start) (third : EvaluatesBound S invoke height stop) :
    Evaluates S invoke height (.slice pos object start stop) := by
  intro number base next line stack w m placed here
  cases placed with | slice objectAt startAt stopAt has =>
  simp only [Walker.eval]
  refine (first objectAt here).bind fun v w m _ here => ?_
  refine (second startAt here).bind fun v w m _ here => ?_
  refine (third stopAt here).bind fun v w m _ here => ?_
  exact tracks_slice here has

theorem evaluates_member {property : Constant} (common : Expr.Common (.member pos object property))
    (inner : Evaluates S invoke height object) :
    Evaluates S invoke height (.member pos object property) := by
  intro number base next line stack w m placed here
  cases placed with | member objectAt push get =>
  obtain ⟨_, rfl, s, rfl, -⟩ := common.1.pointless
  simp only [Walker.eval]
  refine (inner objectAt here).bind fun v w m _ here => ?_
  refine (tracks_push here push).first fun m _ here => ?_
  exact tracks_congr (bind_memberName ..) (tracks_member here get)

end Parts

section Lists

variable {e : Expr}

theorem evaluates_nil : EvaluatesAll S invoke height [] := by
  intro number base next line stack w m placed here
  cases placed
  simp only [Walker.evalAll]
  exact tracks_pure ⟨here, rfl⟩

theorem evaluates_cons {es : List Expr} (first : Evaluates S invoke height e)
    (rest : EvaluatesAll S invoke height es) : EvaluatesAll S invoke height (e :: es) := by
  intro number base next line stack w m placed here
  cases placed with | cons firstAt restAt =>
  simp only [Walker.evalAll]
  refine (first firstAt here).bind fun v w m _ here => ?_
  refine (rest restAt here).bind fun values w m _ given => ?_
  obtain ⟨here, length⟩ := given
  refine tracks_pure ⟨?_, by rw [List.length_cons, List.length_cons, length]⟩
  rwa [List.reverse_cons, List.append_assoc]

theorem evaluates_absent : EvaluatesBound S invoke height none := by
  intro number base next line stack w m placed here
  cases placed with | absent has =>
  simp only [Walker.evalOption]
  exact tracks_push here has

theorem evaluates_present (inner : Evaluates S invoke height e) :
    EvaluatesBound S invoke height (some e) := by
  intro number base next line stack w m placed here
  cases placed with | present exprAt =>
  simp only [Walker.evalOption]
  exact inner exprAt here

theorem evaluates_noEntries : EvaluatesEntries S invoke height [] := by
  intro number base next line stack w m placed here
  cases placed
  simp only [Walker.evalEntries]
  exact tracks_pure ⟨here, rfl, fun _ member => nomatch member⟩

theorem evaluates_entry {key : Constant} {entries : List (Constant × Expr)} (named : key.IsText)
    (first : Evaluates S invoke height e) (rest : EvaluatesEntries S invoke height entries) :
    EvaluatesEntries S invoke height ((key, e) :: entries) := by
  intro number base next line stack w m placed here
  cases placed with | cons has firstAt restAt =>
  obtain ⟨s, rfl⟩ := named
  simp only [Walker.evalEntries]
  refine tracks_walk (a := s) rfl (.refl _) ?_
  refine (tracks_push here has).first fun m _ here => ?_
  refine (first firstAt here).bind fun v w m _ here => ?_
  refine (rest restAt here).bind fun values w m _ given => ?_
  obtain ⟨here, length, texts⟩ := given
  refine tracks_pure ⟨?_, by rw [List.length_cons, List.length_cons, length], ?_⟩
  · simpa [alternating, Constant.value] using here
  · rintro entry (_ | ⟨_, member⟩)
    · rfl
    · exact texts entry member

end Lists

mutual

theorem tracks_eval (sound : S.Sound) (serves : Serves S invoke height) :
    ∀ e : Expr, e.Every Expr.Common → Evaluates S invoke height e
  | .literal _ _ value, _ => by
    intro number base next line stack w m placed here
    cases placed with | literal has =>
    simp only [Walker.eval]
    exact tracks_push here has
  | .var _ name, common => by
    intro number base next line stack w m placed here
    cases placed with | var has =>
    obtain ⟨⟨s, rfl, -⟩, shown⟩ := common
    simp only [Walker.eval]
    refine tracks_walk (a := .text s) rfl (.refl _) ?_
    exact tracks_load here (shown _ rfl) has
  | .binary _ op left right, common =>
    evaluates_binary op (tracks_eval sound serves left common.2.1)
      (tracks_eval sound serves right common.2.2)
  | .unary _ op operand, common => evaluates_unary op (tracks_eval sound serves operand common.2)
  | .call _ _ args, common =>
    evaluates_call sound serves common.1 (tracks_evalAll sound serves args common.2)
  | .new _ _ _, common => common.1.1.elim
  | .invoke _ object _ args, common =>
    evaluates_invoke sound serves common.1 (tracks_eval sound serves object common.2.1)
      (tracks_evalAll sound serves args common.2.2)
  | .list _ elements, common => evaluates_list (tracks_evalAll sound serves elements common.2)
  | .record _ entries, common =>
    evaluates_record (tracks_evalEntries sound serves entries common.1.1 common.2)
  | .index _ object position, common =>
    evaluates_index (tracks_eval sound serves object common.2.1)
      (tracks_eval sound serves position common.2.2)
  | .slice _ object start stop, common =>
    evaluates_slice (tracks_eval sound serves object common.2.1)
      (tracks_evalOption sound serves start common.2.2.1)
      (tracks_evalOption sound serves stop common.2.2.2)
  | .member _ object _, common =>
    evaluates_member common.1 (tracks_eval sound serves object common.2)
  | .alien _, _ => fun _ _ _ _ _ _ _ placed => nomatch placed

theorem tracks_evalAll (sound : S.Sound) (serves : Serves S invoke height) :
    ∀ es : List Expr, Expr.EveryIn Expr.Common es → EvaluatesAll S invoke height es
  | [], _ => evaluates_nil
  | e :: es, common =>
    evaluates_cons (tracks_eval sound serves e common.1) (tracks_evalAll sound serves es common.2)

theorem tracks_evalOption (sound : S.Sound) (serves : Serves S invoke height) :
    ∀ bound : Option Expr, Expr.EveryBound Expr.Common bound → EvaluatesBound S invoke height bound
  | none, _ => evaluates_absent
  | some e, common => evaluates_present (tracks_eval sound serves e common)

theorem tracks_evalEntries (sound : S.Sound) (serves : Serves S invoke height) :
    ∀ entries : List (Constant × Expr), (∀ entry ∈ entries, entry.1.IsText) →
      Expr.EveryEntry Expr.Common entries → EvaluatesEntries S invoke height entries
  | [], _, _ => evaluates_noEntries
  | (_, e) :: entries, named, common =>
    evaluates_entry (named _ List.mem_cons_self) (tracks_eval sound serves e common.1)
      (tracks_evalEntries sound serves entries
        (fun entry member => named entry (List.mem_cons_of_mem _ member)) common.2)

end

end Stepwise
