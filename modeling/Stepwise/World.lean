import Stepwise.Value

/-!
What a running program changes besides its variables: the heap, the printed lines and what it takes
from the source of random numbers. That source is any sequence of numbers; two runs that are
compared start from one world, so they see the same one.
-/
namespace Stepwise

/-- Numbers for a host that brings no source of its own: multiples of the golden section. -/
def goldenMultiple (n : Nat) : Nat := (n + 1) * 11400714819323198485 % pow2 64 / pow2 11

structure World where
  heap : Heap := {}
  output : Array String := #[]
  /-- The random numbers in the order in which they are drawn. -/
  numbers : Nat → Nat := goldenMultiple
  /-- How many of them are drawn. -/
  drawn : Nat := 0
  deriving Inhabited

namespace World

def withHeap (world : World) (heap : Heap) : World := { world with heap }

def print (world : World) (line : String) : World :=
  { world with output := world.output.push line }

/-- Draws a number below `bound`, which is positive. -/
def draw (world : World) (bound : Nat) : Nat × World :=
  (world.numbers world.drawn % bound, { world with drawn := world.drawn + 1 })

end World

end Stepwise
