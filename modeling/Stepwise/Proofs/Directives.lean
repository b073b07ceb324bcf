import Stepwise.Proofs.Bindings
import Stepwise.Settings.Directive

/-!
What the directives of a source do to the settings. They amount to one list of pairs, of which the last with
a name counts (`Flags.get?_ofSource`). A limit becomes the whole part of a positive number that stands under
its name, and stays as it was otherwise (`Settings.ofSource_limits`). A number between zero and one is
positive and has no whole part: such a number is the only way to a limit that stops every program
(`Settings.ofSource_enabled_iff`).
-/
namespace Stepwise

/-- Only a text is found like that text. -/
theorem Scalar.eq_text {name : Scalar} {s : String} (same : name.key = .text s) : name = .text s := by
  unfold key at same
  split at same
  · cases same
  · cases same
  · cases same
  · split at same <;> cases same
  · cases same
    rfl

theorem Bindings.update_append {α : Type} (earlier first second : Bindings α) :
    earlier.update (first ++ second) = (earlier.update first).update second :=
  List.foldl_append ..

namespace Flags

/-- The pair that a part of a directive stands for. -/
def pair? (part : List Char) : Option (Name × Datum) :=
  match part.dropWhile (· ≠ '=') with
  | [] => none
  | _ :: value =>
    some (.text (String.ofList (Text.trim (part.takeWhile (· ≠ '=')))), valueOf (Text.trim value))

/-- The pairs of one directive, in their order. -/
def pairs (body : List Char) : List (Name × Datum) :=
  if body.head? = some '\x7b' then
    match Datum.ofJson? body with
    | some (.map entries) => entries
    | _ => []
  else ((Text.splitAtChar ';' [] body).flatMap (Text.splitAtChar ',' [])).filterMap pair?

/-- The pairs of all directives of a source. -/
def given (source : String) : List (Name × Datum) :=
  (((Text.wideLines source).take searchedLines).filterMap directive?).flatMap pairs

theorem addPairs_eq (flags : Flags) (body : List Char) : flags.addPairs body =
    flags.update (((Text.splitAtChar ';' [] body).flatMap (Text.splitAtChar ',' [])).filterMap pair?) := by
  dsimp only [addPairs]
  generalize (Text.splitAtChar ';' [] body).flatMap (Text.splitAtChar ',' []) = parts
  induction parts generalizing flags with
  | nil => rfl
  | cons part parts ih =>
    rw [List.foldl_cons, ih]
    cases found : part.dropWhile (· ≠ '=') with
    | nil =>
      have none : pair? part = none := by simp only [pair?, found]
      rw [List.filterMap_cons_none none]
    | cons sign value =>
      have some : pair? part = some (.text (String.ofList (Text.trim (part.takeWhile (· ≠ '=')))),
          valueOf (Text.trim value)) := by simp only [pair?, found]
      rw [List.filterMap_cons_some some]
      rfl

theorem addDirective_eq (flags : Flags) (body : List Char) :
    flags.addDirective body = flags.update (pairs body) := by
  unfold addDirective pairs
  split
  · cases Datum.ofJson? body with
    | none => rfl
    | some datum => cases datum <;> rfl
  · exact addPairs_eq flags body

theorem ofSource_eq (source : String) : ofSource source = .ofList (given source) := by
  dsimp only [ofSource, given, Bindings.ofList]
  generalize ((Text.wideLines source).take searchedLines).filterMap directive? = bodies
  generalize ([] : Bindings Datum) = flags
  induction bodies generalizing flags with
  | nil => rfl
  | cons body bodies ih =>
    rw [List.foldl_cons, ih, addDirective_eq, List.flatMap_cons, Bindings.update_append]

/-- The last pair with a name counts, whichever directive it stands in. -/
theorem get?_ofSource (source : String) (name : Name) :
    (ofSource source).get? name = Bindings.get? (given source).reverse name := by
  rw [ofSource_eq, Bindings.get?_ofList]

example : (ofSource "# @minipy: max_steps=5, max_steps=9\n").get? "max_steps" =
    some (.number (.int 9)) := by rfl

theorem nodup_keys_ofSource (source : String) : (ofSource source).keys.Nodup := by
  rw [ofSource_eq]
  exact Bindings.nodup_keys_ofList _

end Flags

/-- The limits that a directive can set. -/
inductive Limit where
  | steps
  | history
  | evaluation
  | depth
  deriving DecidableEq

namespace Limit

/-- The name of a limit in a directive. -/
def name : Limit → String
  | steps => "max_steps"
  | history => "max_history_size"
  | evaluation => "eval_max_steps"
  | depth => "max_call_depth"

/-- What a limit is; there need not be one on the steps. -/
def of (settings : Settings) : Limit → Option Int
  | steps => settings.maxSteps
  | history => some settings.historySize
  | evaluation => some settings.evaluationSteps
  | depth => some settings.callDepth

def set (limit : Limit) (settings : Settings) (n : Int) : Settings :=
  match limit with
  | steps => { settings with maxSteps := some n }
  | history => { settings with historySize := n }
  | evaluation => { settings with evaluationSteps := n }
  | depth => { settings with callDepth := n }

@[simp] theorem of_set_self (limit : Limit) (settings : Settings) (n : Int) :
    limit.of (limit.set settings n) = some n := by
  cases limit <;> rfl

theorem of_set_other {limit other : Limit} (differs : other ≠ limit) (settings : Settings) (n : Int) :
    other.of (limit.set settings n) = other.of settings := by
  cases limit <;> cases other <;> first | rfl | exact absurd rfl differs

theorem name_injective : Function.Injective name := by
  intro a b same
  cases a <;> cases b <;> first | rfl | exact absurd same (by decide)

end Limit

namespace Settings

variable {base settings later : Settings} {name : Name} {datum : Datum} {flags : Flags}

/-- The whole part of a positive number. -/
def positive? : Datum → Option Int
  | .number (.int n) => if 0 < n then some n else none
  | .number (.float x) => if 0.0 < x then some (Binary64.truncate x) else none
  | _ => none

/-- A positive integer, or the whole part of a positive number, which need not be positive. -/
theorem positive?_some {n : Int} (found : positive? datum = some n) :
    (datum = .number (.int n) ∧ 1 ≤ n) ∨
      ∃ x, datum = .number (.float x) ∧ 0.0 < x ∧ n = Binary64.truncate x := by
  unfold positive? at found
  split at found
  · obtain ⟨above, same⟩ := Option.ite_none_right_eq_some.mp found
    cases same
    exact .inl ⟨rfl, above⟩
  next x =>
    obtain ⟨above, same⟩ := Option.ite_none_right_eq_some.mp found
    exact .inr ⟨x, rfl, above, (Option.some.inj same).symm⟩
  · cases found

theorem limit?_ok {found : Option Int} (done : limit? datum = .ok found) : found = positive? datum := by
  cases datum with
  | number n =>
    cases n with
    | int n =>
      cases done
      rfl
    | float x =>
      have limit : limit? (.number (.float x)) = if 0.0 < x then
          if Binary64.isFinite x then .ok (some (Binary64.truncate x)) else .error .overflow
        else .ok none := rfl
      have positive : positive? (.number (.float x)) =
        if 0.0 < x then some (Binary64.truncate x) else none := rfl
      rw [limit] at done
      rw [positive]
      by_cases above : 0.0 < x
      · rw [if_pos above] at done ⊢
        split at done
        · cases done
          rfl
        · cases done
      · rw [if_neg above] at done ⊢
        cases done
        rfl
  | _ =>
    cases done
    rfl

theorem withLimit_ok {change : Int → Settings}
    (done : (do return ((← limit? datum).map change).getD settings) = .ok later) :
    later = ((positive? datum).map change).getD settings := by
  cases found : limit? datum with
  | error failure =>
    rw [found] at done
    cases done
  | ok n =>
    rw [found] at done
    cases done
    rw [limit?_ok found]

/-- What one flag can do: set the limit it names, or leave all limits as they are. -/
theorem applyFlag_ok (done : applyFlag settings name datum = .ok later) :
    (∃ limit : Limit, name = .text limit.name ∧
      later = ((positive? datum).map (limit.set settings)).getD settings) ∨
    (∀ limit : Limit, name ≠ .text limit.name) ∧ ∃ debug, later = { settings with debug } := by
  unfold applyFlag at done
  split at done
  · exact .inl ⟨.steps, rfl, withLimit_ok done⟩
  · exact .inl ⟨.history, rfl, withLimit_ok done⟩
  · exact .inl ⟨.evaluation, rfl, withLimit_ok done⟩
  · exact .inl ⟨.depth, rfl, withLimit_ok done⟩
  · cases done
    refine .inr ⟨fun limit same => ?_, _, rfl⟩
    injection same with names
    cases limit <;> exact absurd names (by decide)
  next steps history evaluation depth _ =>
    cases done
    refine .inr ⟨fun limit same => ?_, settings.debug, rfl⟩
    cases limit
    · exact steps same
    · exact history same
    · exact evaluation same
    · exact depth same

/-- What becomes of one limit. -/
theorem applyFlag_limit (done : applyFlag settings name datum = .ok later) (limit : Limit) :
    limit.of later = if name.key = (Scalar.text limit.name).key then
      (positive? datum).or (limit.of settings) else limit.of settings := by
  rcases applyFlag_ok done with ⟨named, rfl, rfl⟩ | ⟨other, debug, rfl⟩
  · by_cases same : limit = named
    · subst same
      rw [if_pos rfl]
      cases positive? datum with
      | none => rfl
      | some n => exact Limit.of_set_self limit settings n
    · have differs : (Scalar.text named.name).key ≠ (Scalar.text limit.name).key := by
        intro keys
        injection keys with names
        exact same (Limit.name_injective names).symm
      rw [if_neg differs]
      cases positive? datum with
      | none => rfl
      | some n => exact Limit.of_set_other same settings n
  · have differs : name.key ≠ (Scalar.text limit.name).key := fun same => other limit (Scalar.eq_text same)
    rw [if_neg differs]
    cases limit <;> rfl

theorem ofFlags_limit (distinct : flags.keys.Nodup) (done : ofFlags flags base = .ok settings)
    (limit : Limit) :
    limit.of settings = ((flags.get? limit.name).bind positive?).or (limit.of base) := by
  induction flags generalizing base with
  | nil =>
    cases done
    rfl
  | cons flag flags ih =>
    obtain ⟨name, datum⟩ := flag
    rw [Bindings.keys_cons, List.nodup_cons] at distinct
    cases first : applyFlag base name datum with
    | error failure =>
      rw [ofFlags, List.foldlM_cons, first] at done
      cases done
    | ok next =>
      rw [ofFlags, List.foldlM_cons, first] at done
      rw [ih distinct.2 done, applyFlag_limit first]
      by_cases same : name.key = (Scalar.text limit.name).key
      · have absent : Bindings.get? flags limit.name = none := by
          rw [Bindings.get?_eq_none_iff]
          exact fun inside => distinct.1 (same ▸ inside)
        simp [Bindings.get?, same, absent]
      · simp [Bindings.get?, same]

/-- Each limit after the directives of a source: the whole part of the positive number that stands under
its name, and what it was before if there is none. -/
theorem ofSource_limits {source : String} (done : ofSource source base = .ok settings) (limit : Limit) :
    limit.of settings =
      (((Flags.ofSource source).get? limit.name).bind positive?).or (limit.of base) :=
  ofFlags_limit (Flags.nodup_keys_ofSource source) done limit

/-- Settings under which an engine can take a step, keep a snapshot and make a call. -/
def Enabled (settings : Settings) : Prop := ∀ limit : Limit, ∀ n, limit.of settings = some n → 1 ≤ n

/-- The directives of a source leave an engine that can work, unless one of them sets a limit to a positive
number whose whole part is less than one. -/
theorem ofSource_enabled_iff {source : String} (usable : base.Enabled)
    (done : ofSource source base = .ok settings) :
    settings.Enabled ↔ ∀ (limit : Limit) (x : Float),
      (Flags.ofSource source).get? limit.name = some (.number (.float x)) → 0.0 < x →
        1 ≤ Binary64.truncate x := by
  constructor
  · intro enabled limit x given above
    refine enabled limit _ ?_
    rw [ofSource_limits done, given]
    simp [positive?, above]
  · intro whole limit n is
    rw [ofSource_limits done] at is
    cases given : (Flags.ofSource source).get? limit.name with
    | none =>
      rw [given] at is
      exact usable limit n is
    | some datum =>
      rw [given] at is
      cases found : positive? datum with
      | none =>
        rw [Option.bind_some, found] at is
        exact usable limit n is
      | some m =>
        rw [Option.bind_some, found] at is
        cases is
        rcases positive?_some found with ⟨rfl, above⟩ | ⟨x, rfl, above, rfl⟩
        · exact above
        · exact whole limit x given above

end Settings

end Stepwise
