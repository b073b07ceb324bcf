import Stepwise.Decimal.Read
import Stepwise.Value.Text

/-!
Code of the stack machine: a flat list of instructions addressed by position. Jumps carry absolute
addresses, calls carry the callee and the number of arguments as one text.
-/
namespace Stepwise

inductive Opcode where
  | push | pop | dup
  | load | store
  | add | sub | mul | div | mod | floorDiv | pow | neg
  | eq | neq | lt | gt | lte | gte | isIn
  | not
  | jump | jumpIf | jumpIfNot
  | call | callUser | ret
  | arrayCreate | arrayGet | arraySet | slice | objectCreate
  | classDef | new | memberGet | memberSet | methodCall
  | repeatCount | rangeCheck
  | halt | nop
  deriving DecidableEq, Inhabited

namespace Opcode

def names : List (Opcode × String) :=
  [(push, "PUSH"), (pop, "POP"), (dup, "DUP"), (load, "LOAD"), (store, "STORE"), (add, "ADD"),
   (sub, "SUB"), (mul, "MUL"), (div, "DIV"), (mod, "MOD"), (floorDiv, "FLOOR_DIV"), (pow, "POW"),
   (neg, "NEG"), (eq, "EQ"), (neq, "NEQ"), (lt, "LT"), (gt, "GT"), (lte, "LTE"), (gte, "GTE"),
   (isIn, "IN"), (not, "NOT"), (jump, "JUMP"), (jumpIf, "JUMP_IF"), (jumpIfNot, "JUMP_IF_NOT"),
   (call, "CALL"), (callUser, "CALL_USER"), (ret, "RETURN"), (arrayCreate, "ARRAY_CREATE"),
   (arrayGet, "ARRAY_GET"), (arraySet, "ARRAY_SET"), (slice, "SLICE"),
   (objectCreate, "OBJECT_CREATE"), (classDef, "CLASS_DEF"), (new, "NEW"),
   (memberGet, "MEMBER_GET"), (memberSet, "MEMBER_SET"), (methodCall, "METHOD_CALL"),
   (repeatCount, "REPEAT_COUNT"), (rangeCheck, "RANGE_CHECK"), (halt, "HALT"), (nop, "NOP")]

def name (op : Opcode) : String := (names.lookup op).getD ""

def ofName? (name : String) : Option Opcode :=
  (names.find? fun entry => entry.2 = name).map Prod.fst

def isJump : Opcode → Bool
  | .jump | .jumpIf | .jumpIfNot => true
  | _ => false

end Opcode

/-- The operand of a call: the name, a colon and the number of arguments. -/
def callOperand (name : String) (argc : Nat) : String := s!"{name}:{argc}"

/-- Splits a text at its last colon; without one, everything stands behind it. -/
def splitLastColon (operand : List Char) : List Char × List Char :=
  let count := (operand.reverse.takeWhile (· ≠ ':')).reverse
  (operand.take (operand.length - count.length - 1), count)

/-- The name and the number of arguments in the operand of a call. Code that was not compiled may
hold a negative number. -/
def readCallOperand? (operand : String) : Option (String × Int) :=
  let (name, count) := splitLastColon operand.toList
  (Decimal.readInt? count).map fun argc => (String.ofList name, argc)

structure Instruction where
  op : Opcode
  operand : Value := .null
  line : Option Int := none
  deriving Inhabited

/-- The operation and its operand; a constant is written as a literal. -/
def Instruction.operandText (heap : Heap) (i : Instruction) : Except Failure String :=
  match i.op, i.operand with
  | _, .null => .ok ""
  | .push, v => v.literal heap
  | _, v => v.plain heap

def Instruction.describe (heap : Heap) (i : Instruction) : Except Failure String :=
  match i.operand with
  | .null => .ok i.op.name
  | _ => do return s!"{i.op.name} {← i.operandText heap}"

/-- A compiled program: the instructions, the entry addresses and parameter counts of functions and
methods, and the methods of each class. -/
structure Code where
  instructions : Array Instruction := #[]
  functions : Bindings Int := []
  arities : Bindings Int := []
  classes : Bindings (Bindings Int) := []
  deriving Inhabited

namespace Code

def size (code : Code) : Nat := code.instructions.size

/-- The instruction at an address; negative addresses count from the end. -/
def at? (code : Code) (address : Int) : Option Instruction :=
  let i := if address < 0 then address + code.size else address
  if i < 0 then none else code.instructions[i.toNat]?

/-- The line an address belongs to, if it has one. Here addresses do not count from the end. -/
def lineAt (code : Code) (address : Int) : Option Int :=
  if address < 0 then none else (code.instructions[address.toNat]?).bind Instruction.line

/-- The addresses that belong to a line. -/
def sourceMap (code : Code) : List (Nat × Int) :=
  (code.instructions.toList.zipIdx).filterMap fun (i, address) =>
    i.line.map fun line => (address, line)

def summary (code : Code) : String :=
  s!"CompiledProgram({code.size} instructions, {code.functions.length} functions)"

def trimRight (s : String) : String :=
  String.ofList (Text.trimLeft s.toList.reverse).reverse

def instructionLine (heap : Heap) (address : Nat) (i : Instruction) : Except Failure String := do
  let source := match i.line with
    | some line => s!"; line {line}"
    | none => ""
  let place := Text.padLeft 4 address.repr
  let operand := Text.padRight 20 (← i.operandText heap)
  return trimRight s!"  {place}  {Text.padRight 14 i.op.name} {operand} {source}"

/-- The listing of a program: its functions by address, then its instructions. -/
def listing (heap : Heap) (code : Code) : Except Failure String := do
  let head :=
    [s!"Compiled program ({code.size} instructions, {code.functions.length} functions, " ++
        s!"{code.classes.length} classes)",
     String.ofList (List.replicate 60 '=')]
  let byAddress := code.functions.mergeSort fun a b => a.2 ≤ b.2
  let functions :=
    if code.functions.isEmpty then []
    else "\nFunctions:" :: byAddress.map fun (name, address) =>
      s!"  {Text.padLeft 4 address.repr}: {name}"
  let body ← (code.instructions.toList.zipIdx).mapM fun (i, address) =>
    instructionLine heap address i
  return Text.joinLines (head ++ functions ++ "\nInstructions:" :: body)

end Code

end Stepwise
