import Stepwise.Proofs.Evaluation.Statements
import Stepwise.Proofs.Host.Replies
import Stepwise.Proofs.Walker.Moves

/-!
What calls leave alone on the walker. A body binds its own variables only, and those of the caller
come back behind it. So a call that returns leaves the variables of its callers as they were, unless a
handler asks to bind a global one: `Calls.keeps`.
-/
namespace Stepwise.Walker

variable {α : Type} {globals : Bindings Value} {frames : List Frame}
  {within : Option (Bindings Value) → Prop}

/-- What a program calls. -/
inductive Callee where
  | plain (name : Name)
  | constructor (className : Name)
  | method (receiver : Value) (name : Name)
  deriving Inhabited

/-- Makes a call, with arguments that are evaluated. -/
def dispatch (invoke : Invoke) (callee : Callee) (args : List Value) : Walk Value :=
  match callee with
  | .plain name => call invoke name args
  | .constructor className => instantiate invoke className args
  | .method receiver name => callMethod invoke receiver name args

/-- The ways in which a walker calls functions: from the main program, or from within a call. -/
inductive Calls : Invoke → Prop where
  | main : Calls invokeTop
  | nested (depth : Nat) : Calls (invokeAt depth)

/-- A walker whose handlers fail where they ask to bind a global variable. -/
def barring (w : Walker) : Walker := { w with toEngine := w.toEngine.barring }

/-- No handler asks to bind a global variable while a computation runs on a walker: if such a handler
fails instead, the computation does not fail so. -/
def NoneBinds (x : Walk α) (w : Walker) : Prop := (x w.barring).1 ≠ .error barred

/-- A walker with these global variables and frames, and with local variables of this kind, beside the
same one with barred handlers. -/
structure Kept (globals : Bindings Value) (frames : List Frame)
    (within : Option (Bindings Value) → Prop) (w k : Walker) : Prop where
  barring : k = w.barring
  globals : w.globals = globals
  frames : w.frames = frames
  within : within w.locals

/-- A computation that keeps these, as long as no handler asks to bind a global variable. -/
abbrev Keeping (globals : Bindings Value) (frames : List Frame)
    (within : Option (Bindings Value) → Prop) (x : Walk α) : Prop :=
  Paired (· = barred) (Kept globals frames within) x

theorem keeping_begin (line : Option Int) : Keeping globals frames within (begin line) := by
  rintro w _ ⟨rfl, held, kept, inside⟩
  rw [begin_apply, begin_apply]
  by_cases exceeds : w.maxSteps < (w.begun + 1 : Nat)
  · rw [if_pos exceeds, if_pos (show w.barring.maxSteps < (w.barring.begun + 1 : Nat) from exceeds)]
    exact .same ⟨rfl, held, kept, inside⟩
  · rw [if_neg exceeds, if_neg (show ¬ w.barring.maxSteps < (w.barring.begun + 1 : Nat) from exceeds)]
    exact .same ⟨rfl, held, kept, inside⟩

theorem keeping_lookup (name : Name) : Keeping globals frames within (lookup name) := by
  rintro w _ ⟨rfl, held, kept, inside⟩
  simp only [lookup, Act.bind_apply, Act.get_apply]
  rw [show w.barring.locals = w.locals from rfl, show w.barring.globals = w.globals from rfl]
  cases (w.locals.bind fun locals => locals.get? name).or (w.globals.get? name) <;>
    exact .same ⟨rfl, held, kept, inside⟩

/-- Within a call, a program binds variables of the call. -/
theorem keeping_store (name : Name) (v : Value) :
    Keeping globals frames (fun locals => locals.isSome = true) (store name v) := by
  rintro w _ ⟨rfl, held, kept, inside⟩
  obtain ⟨locals, called⟩ := Option.isSome_iff_exists.mp inside
  have stored (k : Walker) (called : k.locals = some locals) :
      store name v k = (.ok (), { k with locals := some (locals.put name v) }) := by
    simp only [store, Act.modify_apply, called]
  rw [stored w called, stored w.barring called]
  exact .same ⟨rfl, held, kept, rfl⟩

theorem keeping_call (name : Name) (args : List Value) :
    Keeping globals frames within (outside fun engine => engine.call name args) := by
  rintro w _ ⟨rfl, held, kept, inside⟩
  cases binding : w.toEngine.binds name args with
  | true =>
    have refused := Engine.call_refused binding
    show Act.Matched _ _ _ ((w.toEngine.barring.call name args).1, _)
    rw [refused]
    exact .right rfl
  | false =>
    have same := Engine.call_barring binding
    have unbound := Engine.globals_call w.toEngine name args binding
    show Act.Matched _ _ _ ((w.toEngine.barring.call name args).1, { w.barring with
      toEngine := (w.toEngine.barring.call name args).2 })
    rw [same]
    exact .same ⟨rfl, unbound.trans held, kept, inside⟩

theorem keeping_callBuiltin (name : Name) (args : List Value) :
    Keeping globals frames within (outside fun engine => engine.callBuiltin name args) := by
  rintro w _ ⟨rfl, held, kept, inside⟩
  have same := Engine.callBuiltin_barring w.toEngine name args
  have unbound := Engine.globals_callBuiltin w.toEngine name args
  show Act.Matched _ _ _ ((w.toEngine.barring.callBuiltin name args).1, { w.barring with
    toEngine := (w.toEngine.barring.callBuiltin name args).2 })
  rw [same]
  exact .same ⟨rfl, unbound.trans held, kept, inside⟩

/-- The variables of the caller come back behind a call. -/
theorem keeping_withLocals {locals : Bindings Value} {x : Walk α}
    (keeping : Keeping globals frames (fun locals => locals.isSome = true) x) :
    Keeping globals frames within (withLocals locals x) := by
  rintro w _ ⟨rfl, held, kept, inside⟩
  have ends := keeping { w with locals := some locals } _ ⟨rfl, held, kept, rfl⟩
  show Act.Matched _ _ (withLocals locals x w) (withLocals locals x w.barring)
  unfold withLocals
  have same : { w.barring with locals := some locals } = barring { w with locals := some locals } :=
    rfl
  rw [same]
  generalize x { w with locals := some locals } = p at ends
  generalize x (barring { w with locals := some locals }) = q at ends
  cases ends with
  | same related =>
    obtain ⟨rfl, held, kept, -⟩ := related
    exact .same ⟨rfl, held, kept, inside⟩
  | left isExcused => exact .left isExcused
  | right isExcused => exact .right isExcused

section Calls

variable {invoke : Invoke}

theorem matching_facilities
    (calls : ∀ f args bound, Keeping globals frames within (invoke f args bound)) :
    (facilities invoke).Matching (Act.Likewise (· = barred) (Kept globals frames within)) id
      (facilities invoke) where
  toComposes := Act.composes_likewise
  getHeap := by
    rintro w _ ⟨rfl, held, kept, inside⟩
    exact .same ⟨rfl, held, kept, inside⟩
  setHeap heap := by
    rintro w _ ⟨rfl, held, kept, inside⟩
    exact .same ⟨rfl, held, kept, inside⟩
  lookup := keeping_lookup
  setLine line := by
    rintro w _ ⟨rfl, held, kept, inside⟩
    exact .same ⟨rfl, held, kept, inside⟩
  getFunctions := by
    rintro w _ ⟨rfl, held, kept, inside⟩
    exact .same ⟨rfl, held, kept, inside⟩
  getClasses := by
    rintro w _ ⟨rfl, held, kept, inside⟩
    exact .same ⟨rfl, held, kept, inside⟩
  callOutside := keeping_call
  callBuiltin := keeping_callBuiltin
  invoke _ := calls

theorem running_within (calls : ∀ f args bound,
    Keeping globals frames (fun locals => locals.isSome = true) (invoke f args bound)) :
    Running (Act.Likewise (· = barred) (Kept globals frames fun locals => locals.isSome = true)) id
      invoke := by
  refine running_likewise ⟨matching_facilities calls, keeping_store⟩ keeping_begin ?_
  rintro w _ ⟨rfl, -, -, -⟩
  rfl

end Calls

/-- Calls of functions keep the variables of their callers at every depth. -/
theorem keeping_invokeAt (depth : Nat) (f : Func) (args : List Value) (bound : Bool) :
    Keeping globals frames within (invokeAt depth f args bound) := by
  induction depth generalizing f args bound within with
  | zero =>
    unfold invokeAt
    exact .ite (Act.likewise_throw _) (Act.likewise_throw _)
  | succ depth ih =>
    unfold invokeAt
    refine .ite (Act.likewise_throw _) ((Act.likewise_lift _).bind fun params => ?_)
    refine keeping_withLocals ?_
    refine ((running_within fun f args bound => ih f args bound).same_block f.body false).bind
      fun flow => ?_
    cases flow <;> exact Act.likewise_pure _

theorem Calls.keeping {invoke : Invoke} (calls : Calls invoke) (f : Func) (args : List Value)
    (bound : Bool) : Keeping globals frames within (invoke f args bound) := by
  cases calls with
  | nested depth => exact keeping_invokeAt depth f args bound
  | main =>
    rintro w _ ⟨rfl, held, kept, inside⟩
    exact keeping_invokeAt w.maxCallDepth.toNat f args bound w w.barring ⟨rfl, held, kept, inside⟩

theorem Calls.keeping_dispatch {invoke : Invoke} (calls : Calls invoke) (callee : Callee)
    (args : List Value) : Keeping globals frames within (dispatch invoke callee args) := by
  have matching : (facilities invoke).Matching (Act.Likewise (· = barred) (Kept globals frames within)) id
      (facilities invoke) := matching_facilities calls.keeping
  cases callee with
  | plain name =>
    have called := matching.call name args
    rwa [call_facilities] at called
  | constructor className => exact matching.instantiate className args
  | method receiver name =>
    have called := matching.callMethod receiver name args
    rwa [callMethod_facilities] at called

/-- A call that returns leaves the variables of its callers as they were, unless a handler asks to bind
a global one. -/
theorem Calls.keeps {invoke : Invoke} (calls : Calls invoke) {callee : Callee} {args : List Value}
    {w w' : Walker} {v : Value} (returned : dispatch invoke callee args w = (.ok v, w'))
    (unbinding : NoneBinds (dispatch invoke callee args) w) :
    w'.globals = w.globals ∧ w'.locals = w.locals ∧ w'.frames = w.frames := by
  have ends := calls.keeping_dispatch callee args w w.barring
    (⟨rfl, rfl, rfl, rfl⟩ : Kept w.globals w.frames (· = w.locals) w w.barring)
  unfold NoneBinds at unbinding
  rw [returned] at ends
  generalize dispatch invoke callee args w.barring = q at ends unbinding
  cases ends with
  | same related => exact ⟨related.globals, related.within, related.frames⟩
  | right isExcused => exact absurd (congrArg Except.error isExcused) unbinding

end Stepwise.Walker
