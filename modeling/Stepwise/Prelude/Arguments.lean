import Stepwise.Value.Text

/-!
Checks on the arguments of builtin functions and the wording of their faults.
-/
namespace Stepwise.Prelude

/-- A fault of the builtin called `name`. -/
def refuse {α : Type} (name message : String) (suggestion : Option String := none) :
    Except Failure α :=
  complain s!"{name}() {message}" suggestion

/-- The number of arguments lies between `low` and `high`. -/
def arity (name : String) (args : List Value) (low high : Nat) (usage : Option String := none) :
    Except Failure Unit :=
  if low ≤ args.length && args.length ≤ high then .ok ()
  else
    let expected :=
      if low = high then s!"exactly {low} argument" ++ (if low = 1 then "" else "s")
      else s!"{low} to {high} arguments"
    refuse name s!"takes {expected}, got {args.length}"
      (usage.map fun usage => s!"Call it as {usage}.")

def wantList (name : String) (heap : Heap) (v : Value) (position : String := "argument") :
    Except Failure Ref :=
  match v with
  | .list ref => .ok ref
  | v => refuse name s!"{position} must be a list, got {v.typeName heap}"

def wantText (name : String) (heap : Heap) (v : Value) (position : String := "argument") :
    Except Failure String :=
  match v with
  | .text s => .ok s
  | v => refuse name s!"{position} must be a string, got {v.typeName heap}"

def wantNumber (name : String) (heap : Heap) (v : Value) (position : String := "argument") :
    Except Failure Number :=
  match v with
  | .number n => .ok n
  | v => refuse name s!"{position} must be a number, got {v.typeName heap}"

/-- The integer a value stands for, if it is a whole number. -/
def whole? : Value → Option Int
  | .number n => n.whole?
  | _ => none

/-- A number without its fraction; infinities and NaN have no whole part. -/
def wholePart (name : String) (n : Number) : Except Failure Int :=
  match n with
  | .int i => .ok i
  | .float x =>
    if Binary64.isFinite x then .ok (Binary64.truncate x)
    else do
      let shown ← Value.numberText n
      refuse name s!"cannot turn {shown} into a whole number"

/-- An integer inside a message. It is converted without the checks that apply to shown values. -/
def digits (n : Int) : Except Failure String := written (Number.intText? n)

/-- An argument by its position; the arity has been checked. -/
def arg (args : List Value) (i : Nat) : Value := args.getD i .null

end Stepwise.Prelude
