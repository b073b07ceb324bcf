import Stepwise.Value.Text

/-!
Constants: what is written down in a program, whether as a name, as a key or as a literal. Programs
that were read from text have scalars there. A host may put a list, a map or an instance in their
place: as a literal it is one value that every evaluation gives, and as a name it names nothing.
-/
namespace Stepwise

inductive Constant where
  | scalar (s : Scalar)
  /-- A value with parts, and the literal form it was written in. -/
  | compound (value : Value) (spelled : Spelled)
  deriving Inhabited

instance : Coe Scalar Constant := ⟨.scalar⟩

namespace Constant

def ofValue (heap : Heap) (v : Value) : Constant :=
  match v.scalar? with
  | some s => .scalar s
  | none => .compound v (v.spelled heap)

def scalar? : Constant → Option Scalar
  | .scalar s => some s
  | .compound _ _ => none

/-- The name that a constant is, where one has to be looked up or bound. -/
def name : Constant → Except Failure Name
  | .scalar s => .ok s
  | .compound _ _ => .error (.host .mistyped)

def value : Constant → Value
  | .scalar s => s.toValue
  | .compound v _ => v

def spelled : Constant → Spelled
  | .scalar s => s.spelled
  | .compound _ spelled => spelled

/-- The form used in listings and outlines, with texts quoted. -/
def literal (c : Constant) : String := c.spelled.text

/-- Like the literal form, but texts stand for themselves. -/
def plain : Constant → String
  | .scalar s => s.plain
  | .compound _ spelled => spelled.text

/-- The plain form; none beyond the digit limit. -/
def plain? (c : Constant) : Option String := if c.spelled.fits then some c.plain else none

/-- Whether two constants are the same name. -/
def same : Constant → Constant → Bool
  | .scalar a, .scalar b => a.same b
  | .compound _ a, .compound _ b => a.text = b.text
  | _, _ => false

instance : ToString Constant := ⟨plain⟩

end Constant

end Stepwise
