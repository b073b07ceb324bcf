import Stepwise.Number
import Stepwise.Text.Quoted

/-!
Values without parts: what a literal can stand for and what a token can carry.
-/
namespace Stepwise

/-- Something in its literal form, and whether it keeps within the digit limit. -/
structure Spelled where
  text : String
  fits : Bool := true
  deriving Inhabited

inductive Scalar where
  | null
  | bool (b : Bool)
  | number (n : Number)
  | text (s : String)
  deriving Inhabited

namespace Scalar

/-- The form used in listings and outlines, with texts quoted. -/
def literal : Scalar → String
  | .null => "None"
  | .bool true => "True"
  | .bool false => "False"
  | .number n => n.literal
  | .text s => Text.quoted s

/-- Like the literal form, but texts stand for themselves. -/
def plain : Scalar → String
  | .text s => s
  | s => s.literal

def isNull : Scalar → Bool
  | .null => true
  | _ => false

def isText : Scalar → Bool
  | .text _ => true
  | _ => false

def isWritable : Scalar → Bool
  | .number n => n.isWritable
  | _ => true

def spelled (s : Scalar) : Spelled := ⟨s.literal, s.isWritable⟩

/-- The plain form; none beyond the digit limit. -/
def plain? (s : Scalar) : Option String := if s.isWritable then some s.plain else none

/-- The number a scalar counts as when it is compared: truth values are one and zero. -/
def weight? : Scalar → Option Number
  | .bool b => some (.int (if b then 1 else 0))
  | .number n => some n
  | _ => none

/-- Whether two scalars are the same name. A NaN is the same as nothing. -/
def same : Scalar → Scalar → Bool
  | .text s, .text t => s == t
  | .null, .null => true
  | a, b =>
    match a.weight?, b.weight? with
    | some m, some n => m.eq n
    | _, _ => false

/-- What a scalar is found by when it names something. Numbers are found by their value, whatever
their representation. -/
inductive Key where
  | null
  | text (s : String)
  | whole (n : Int)
  | fraction (bits : UInt64)
  deriving DecidableEq

/-- Truth values are found like one and zero. -/
def key : Scalar → Key
  | .null => .null
  | .bool b => .whole (if b then 1 else 0)
  | .number (.int n) => .whole n
  | .number (.float x) =>
    if Binary64.isWhole x then .whole (Binary64.truncate x) else .fraction x.toBits
  | .text s => .text s

instance : ToString Scalar := ⟨plain⟩

end Scalar

/-- A name. Tokens and trees made by a host may have something else than a text in its place. -/
abbrev Name := Scalar

instance : Coe String Name := ⟨Scalar.text⟩

end Stepwise
