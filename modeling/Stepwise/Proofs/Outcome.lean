import Stepwise.Engine

/-!
How a computation inside a step ends. `Act.Ends` states what holds of its result and of the state it
reaches, and what holds of its faults; failures of the host are left open. A call of a builtin ends as
the builtin does, and one that fails leaves the engine as it was.
-/
namespace Stepwise

namespace Act

variable {σ α β : Type}

@[simp] theorem pure_apply (a : α) (s : σ) : (pure a : Act σ α) s = (.ok a, s) := rfl

theorem bind_apply (x : Act σ α) (f : α → Act σ β) (s : σ) :
    (x >>= f) s = match x s with
      | (.ok a, s') => f a s'
      | (.error failure, s') => (.error failure, s') := by
  have run : (x >>= f) s = (match x s with
      | (r, s') => (ExceptT.bindCont f r : StateM σ _) s') := rfl
  rw [run]
  rcases x s with ⟨_ | _, s'⟩ <;> rfl

@[simp] theorem bind_ok {x : Act σ α} {f : α → Act σ β} {s s' : σ} {a : α}
    (done : x s = (.ok a, s')) : (x >>= f) s = f a s' := by
  rw [bind_apply, done]

@[simp] theorem bind_error {x : Act σ α} {f : α → Act σ β} {s s' : σ} {failure : Failure}
    (failed : x s = (.error failure, s')) : (x >>= f) s = (.error failure, s') := by
  rw [bind_apply, failed]

theorem ok_of_bind {x : Act σ α} {f : α → Act σ β} {s s' : σ} {b : β}
    (done : (x >>= f) s = (.ok b, s')) : ∃ a k, x s = (.ok a, k) ∧ f a k = (.ok b, s') := by
  rw [bind_apply] at done
  rcases ran : x s with ⟨failure | a, k⟩
  · rw [ran] at done
    cases done
  · rw [ran] at done
    exact ⟨a, k, rfl, done⟩

@[simp] theorem get_apply (s : σ) : (get : Act σ σ) s = (.ok s, s) := rfl

@[simp] theorem set_apply (s s' : σ) : (set s' : Act σ PUnit) s = (.ok ⟨⟩, s') := rfl

@[simp] theorem modify_apply (f : σ → σ) (s : σ) : (modify f : Act σ PUnit) s = (.ok ⟨⟩, f s) := rfl

@[simp] theorem throw_apply (failure : Failure) (s : σ) :
    (throw failure : Act σ α) s = (.error failure, s) := rfl

@[simp] theorem lift_apply (x : Except Failure α) (s : σ) : (liftM x : Act σ α) s = (x, s) := rfl

/-- What holds of the result of a computation and of its faults. -/
def Ends (x : Act σ α) (s : σ) (good : α → σ → Prop) (bad : Fault → σ → Prop) : Prop :=
  match x s with
  | (.ok a, s') => good a s'
  | (.error (.fault f), s') => bad f s'
  | (.error (.host _), _) => True

variable {s : σ} {good : α → σ → Prop} {bad : Fault → σ → Prop}

theorem Ends.mono {x : Act σ α} {good' : α → σ → Prop} {bad' : Fault → σ → Prop}
    (ends : x.Ends s good bad) (better : ∀ a s', good a s' → good' a s')
    (worse : ∀ f s', bad f s' → bad' f s') : x.Ends s good' bad' := by
  unfold Ends at ends ⊢
  split
  next a s' done =>
    rw [done] at ends
    exact better a s' ends
  next f s' failed =>
    rw [failed] at ends
    exact worse f s' ends
  next => trivial

theorem Ends.bind {x : Act σ α} {f : α → Act σ β} {good : β → σ → Prop}
    (first : x.Ends s (fun a s' => (f a).Ends s' good bad) bad) : (x >>= f).Ends s good bad := by
  unfold Ends at first ⊢
  rw [bind_apply]
  generalize x s = result at first ⊢
  rcases result with ⟨(_ | _) | a, s'⟩
  · exact first
  · trivial
  · exact first

theorem Ends.ite {c : Prop} [Decidable c] {x y : Act σ α} (yes : c → x.Ends s good bad)
    (no : ¬ c → y.Ends s good bad) : (if c then x else y).Ends s good bad := by
  split
  next holds => exact yes holds
  next fails => exact no fails

theorem Ends.pure {a : α} (holds : good a s) : (Pure.pure a : Act σ α).Ends s good bad := holds

theorem Ends.fault {f : Fault} (holds : bad f s) : (throw (.fault f) : Act σ α).Ends s good bad :=
  holds

theorem Ends.host {failure : HostFailure} : (throw (.host failure) : Act σ α).Ends s good bad :=
  trivial

theorem Ends.lift {x : Except Failure α} (ok : ∀ a, x = .ok a → good a s)
    (error : ∀ f, x = .error (.fault f) → bad f s) : (liftM x : Act σ α).Ends s good bad := by
  rcases x with (f | _) | a
  · exact error f rfl
  · trivial
  · exact ok a rfl

end Act

theorem Builtin.changing_of_ok {f : Prelude.Changing} {world : World} {args : List Value} {v : Value}
    {heap : Heap} (done : f world.heap args = .ok (v, heap)) :
    changing f world args = .ok (v, world.withHeap heap) := by
  rw [changing, done]
  rfl

theorem Builtin.changing_of_error {f : Prelude.Changing} {world : World} {args : List Value}
    {failure : Failure} (failed : f world.heap args = .error failure) :
    changing f world args = .error failure := by
  rw [changing, failed]
  rfl

theorem Builtin.reading_of_ok {f : Heap → List Value → Except Failure Value} {world : World}
    {args : List Value} {v : Value} (done : f world.heap args = .ok v) :
    reading f world args = .ok (v, world) := by
  rw [reading, done]
  rfl

theorem Builtin.reading_of_error {f : Heap → List Value → Except Failure Value} {world : World}
    {args : List Value} {failure : Failure} (failed : f world.heap args = .error failure) :
    reading f world args = .error failure := by
  rw [reading, failed]
  rfl

namespace Engine

variable {engine : Engine} {name : Name} {b : Builtin} {args : List Value}

theorem callBuiltin_of_ok (called : Builtin.ofName? name = some b) {v : Value} {world : World}
    (done : b.run engine.world args = .ok (v, world)) :
    engine.callBuiltin name args = (.ok v, { engine with world }) := by
  simp only [callBuiltin, Builtin.call, called, done]

theorem callBuiltin_of_error (called : Builtin.ofName? name = some b) {failure : Failure}
    (failed : b.run engine.world args = .error failure) :
    engine.callBuiltin name args = (.error failure, engine) := by
  simp only [callBuiltin, Builtin.call, called, failed]

/-- A line that can be written is printed. -/
theorem call_print_line (called : Builtin.ofName? name = some .print) {line : String}
    (shown : Value.line engine.heap args = .ok line) :
    engine.callBuiltin name args = (.ok .null, { engine with world := engine.world.print line }) := by
  refine callBuiltin_of_ok called ?_
  change (do return (Value.null, engine.world.print (← Value.line engine.heap args))) = _
  rw [shown]
  rfl

theorem call_print_error (called : Builtin.ofName? name = some .print) {failure : Failure}
    (failed : Value.line engine.heap args = .error failure) :
    engine.callBuiltin name args = (.error failure, engine) := by
  refine callBuiltin_of_error called ?_
  change (do return (Value.null, engine.world.print (← Value.line engine.heap args))) = _
  rw [failed]
  rfl

end Engine

end Stepwise
