import Stepwise.Code

/-!
Building code by hand: emitting instructions one after the other, and pointing jumps at addresses
that were not known when they were emitted.
-/
namespace Stepwise.Code

/-- Why a jump cannot be pointed somewhere. -/
inductive PatchFailure where
  | missing
  | notAJump (address : Int) (op : Opcode)

def PatchFailure.message : PatchFailure → Option String
  | .missing => none
  | .notAJump address op => some s!"instruction {address} is {op.name}, not a jump"

/-- Adds an instruction and gives its address. -/
def emit (code : Code) (op : Opcode) (operand : Value) (line : Option Int) : Nat × Code :=
  (code.size, { code with instructions := code.instructions.push { op, operand, line } })

/-- The target of a jump that has not been pointed anywhere. -/
def openTarget : Int := -1

def emitJump (code : Code) (op : Opcode) (line : Option Int) : Nat × Code :=
  code.emit op (.int openTarget) line

/-- Points the jump at an address to a target, by default to the next address. -/
def patch (code : Code) (address : Int) (target : Option Int) : Except PatchFailure Code :=
  match code.at? address with
  | none => .error .missing
  | some i =>
    if i.op.isJump then
      let position := (if address < 0 then address + code.size else address).toNat
      let operand := Value.int (target.getD code.size)
      .ok { code with
        instructions := code.instructions.setIfInBounds position { i with operand } }
    else .error (.notAJump address i.op)

end Stepwise.Code
