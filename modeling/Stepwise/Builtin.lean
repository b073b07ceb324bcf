import Stepwise.Prelude.Lists
import Stepwise.Prelude.Numbers
import Stepwise.Prelude.Texts

/-!
The functions every program can call, each under an English and a Chinese name. The table is fixed:
programs cannot change it.
-/
namespace Stepwise

inductive Builtin where
  | print
  | len | random | randint
  | append | pop | insert | sort | reverse | index | count | clear
  | abs | min | max | sum | int | float | str
  | upper | lower | split | join | strip | replace | find | startsWith | endsWith
  | round | sqrt | pow
  deriving DecidableEq, Inhabited

namespace Builtin

def names : List (String × Builtin) :=
  [("print", .print), ("打印", .print), ("len", .len), ("长度", .len), ("random", .random),
   ("随机", .random), ("randint", .randint), ("随机整数", .randint), ("append", .append),
   ("添加", .append), ("pop", .pop), ("弹出", .pop), ("insert", .insert), ("插入", .insert),
   ("sort", .sort), ("排序", .sort), ("reverse", .reverse), ("反转", .reverse),
   ("index", .index), ("索引", .index), ("count", .count), ("计数", .count), ("clear", .clear),
   ("清空", .clear), ("abs", .abs), ("绝对值", .abs), ("min", .min), ("最小值", .min),
   ("max", .max), ("最大值", .max), ("sum", .sum), ("求和", .sum), ("int", .int), ("整数", .int),
   ("float", .float), ("浮点数", .float), ("str", .str), ("字符串", .str), ("upper", .upper),
   ("大写", .upper), ("lower", .lower), ("小写", .lower), ("split", .split), ("分割", .split),
   ("join", .join), ("连接", .join), ("strip", .strip), ("去空格", .strip),
   ("replace", .replace), ("替换", .replace), ("find", .find), ("查找", .find),
   ("startswith", .startsWith), ("以开头", .startsWith), ("endswith", .endsWith),
   ("以结尾", .endsWith), ("round", .round), ("四舍五入", .round), ("sqrt", .sqrt),
   ("平方根", .sqrt), ("pow", .pow), ("幂", .pow)]

/-- Builtins are found by texts only. -/
def ofName? : Name → Option Builtin
  | .text name => names.lookup name
  | _ => none

/-- A function that only reads the heap. -/
def reading (f : Heap → List Value → Except Failure Value) (world : World) (args : List Value) :
    Except Failure (Value × World) := do
  return (← f world.heap args, world)

/-- A function that changes the heap. -/
def changing (f : Prelude.Changing) (world : World) (args : List Value) :
    Except Failure (Value × World) := do
  let (v, heap) ← f world.heap args
  return (v, world.withHeap heap)

def run (b : Builtin) (world : World) (args : List Value) : Except Failure (Value × World) :=
  match b with
  | .print => do return (.null, world.print (← Value.line world.heap args))
  | .len => reading Prelude.len world args
  | .random => Prelude.random world args
  | .randint => Prelude.randint world args
  | .append => changing Prelude.append world args
  | .pop => changing Prelude.pop world args
  | .insert => changing Prelude.insert world args
  | .sort => changing Prelude.sort world args
  | .reverse => changing Prelude.reverse world args
  | .index => reading Prelude.index world args
  | .count => reading Prelude.count world args
  | .clear => changing Prelude.clear world args
  | .abs => reading Prelude.abs world args
  | .min => reading Prelude.min world args
  | .max => reading Prelude.max world args
  | .sum => reading Prelude.sum world args
  | .int => reading Prelude.toInt world args
  | .float => reading Prelude.toFloat world args
  | .str => reading Prelude.toText world args
  | .upper => reading Prelude.upper world args
  | .lower => reading Prelude.lower world args
  | .split => changing Prelude.split world args
  | .join => reading Prelude.join world args
  | .strip => reading Prelude.strip world args
  | .replace => reading Prelude.replace world args
  | .find => reading Prelude.find world args
  | .startsWith => reading Prelude.startsWith world args
  | .endsWith => reading Prelude.endsWith world args
  | .round => reading Prelude.round world args
  | .sqrt => reading Prelude.sqrt world args
  | .pow => reading Prelude.pow world args

/-- Calls a builtin by its name. Nothing changes unless the call succeeds. -/
def call (name : Name) (world : World) (args : List Value) : Except Failure (Value × World) :=
  match ofName? name with
  | some b => b.run world args
  | none =>
    complain s!"Undefined function '{name}'"
      (some "Check the spelling, or define it with def before calling it.")

end Builtin

end Stepwise
