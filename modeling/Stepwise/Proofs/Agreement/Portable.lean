import Stepwise.Machine
import Stepwise.Proofs.Shape

/-!
The programs that both engines run alike: what sets the engines apart is excluded, at each node of
a tree. The machine knows hidden variables, takes the items of a list one by one as the loop goes
on, and gives its receiver for a constructor that is called as a method.
-/
namespace Stepwise

/-- A number that can be read back from the operand of a call. -/
def Countable (n : Nat) : Prop := (Nat.toDigits 10 n).length ≤ Decimal.digitLimit

instance : DecidablePred Countable := fun _ => inferInstanceAs (Decidable (_ ≤ _))

/-- A name that is not hidden. -/
def Constant.IsShown (c : Constant) : Prop :=
  ∀ name, c.scalar? = some name → Machine.isHidden name = false

instance : DecidablePred Constant.IsShown
  | .scalar name => decidable_of_iff (Machine.isHidden name = false)
    ⟨fun shown _ same => Option.some.inj same ▸ shown, fun shown => shown name rfl⟩
  | .compound _ _ => .isTrue fun _ same => nomatch same

/-- Which expressions both engines evaluate alike, apart from those inside them. -/
def Expr.Portable : Expr → Prop
  | .var _ name => name.IsShown
  | .call _ _ args => Countable args.length
  | .invoke _ _ method args => method.plain ≠ constructorName ∧ Countable (args.length + 1)
  | _ => True

instance : DecidablePred Expr.Portable
  | .var _ name => inferInstanceAs (Decidable name.IsShown)
  | .call _ _ args => inferInstanceAs (Decidable (Countable args.length))
  | .invoke _ _ method args =>
    inferInstanceAs (Decidable (method.plain ≠ constructorName ∧ Countable (args.length + 1)))
  | .literal _ _ _ | .binary _ _ _ _ | .unary _ _ _ | .new _ _ _ | .list _ _ | .record _ _
  | .index _ _ _ | .slice _ _ _ _ | .member _ _ _ | .alien _ => .isTrue trivial

def Func.Portable (f : Func) : Prop := ∀ param ∈ f.params, param.IsShown

instance : DecidablePred Func.Portable := fun f =>
  inferInstanceAs (Decidable (∀ param ∈ f.params, param.IsShown))

/-- Which statements both engines run alike, apart from what is inside them. -/
def Stmt.Portable : Stmt → Prop
  | .assign _ target _ => target.IsShown
  | .update _ target _ _ => target.IsShown
  | .loopRange _ var _ _ _ _ => var.IsShown
  | .loopEach _ _ _ _ => False
  | .define f => f.Portable
  | .defineClass _ _ methods => ∀ f ∈ methods, f.Portable
  | _ => True

instance : DecidablePred Stmt.Portable
  | .assign _ target _ => inferInstanceAs (Decidable target.IsShown)
  | .update _ target _ _ => inferInstanceAs (Decidable target.IsShown)
  | .loopRange _ var _ _ _ _ => inferInstanceAs (Decidable var.IsShown)
  | .loopEach _ _ _ _ => .isFalse not_false
  | .define f => inferInstanceAs (Decidable f.Portable)
  | .defineClass _ _ methods => inferInstanceAs (Decidable (∀ f ∈ methods, f.Portable))
  | .expr _ _ | .setIndex _ _ _ _ | .setMember _ _ _ _ | .branch _ _ _ _ _ | .loopTimes _ _ _
  | .loopWhile _ _ _ | .leave _ | .again _ | .pass _ | .give _ _ | .alien _ => .isTrue trivial

/-- What holds of the expressions of a program that was read and that both engines run. -/
def Expr.Common (e : Expr) : Prop := e.Shaped ∧ e.Portable

def Stmt.Common (s : Stmt) : Prop := s.Shaped ∧ s.Portable

/-- What reading and the conditions on programs that both engines run guarantee of a function. -/
structure Func.Common (f : Func) : Prop where
  shaped : f.Shaped
  portable : f.Portable
  body : Stmt.EveryIn Expr.Common Stmt.Common f.body

namespace Program

/-- The programs that both engines run alike: apart from for-each loops and calls of constructors
as methods, without names of hidden variables. -/
def Portable (program : Program) : Prop := program.Every Expr.Portable Stmt.Portable

instance : DecidablePred Portable := fun program =>
  inferInstanceAs (Decidable (program.Every Expr.Portable Stmt.Portable))

def Common (program : Program) : Prop := program.Every Expr.Common Stmt.Common

end Program

end Stepwise
