import TensorDag.Error

/-!
Room for bytes: how many can be had at once, and for the items of an array. How much memory there is, a program takes as
it finds it.
-/
namespace TensorDag

/-- The memory that a program runs with: how many bytes can be had at once. There is room for a number, and sizes are
kept in signed words of 64 bits. -/
class Memory where
  capacity : Nat
  enough : 8 ≤ capacity
  countable : capacity < Shape.limit

/-- A program that is told nothing else runs with this many bytes. -/
instance (priority := low) Memory.standard : Memory := ⟨2 ^ 40, by decide, by decide⟩

variable [Memory]

namespace Bytes

/-- There is room for bytes that can be counted and that are not too many. -/
def room (size : Nat) : Result Unit :=
  if Shape.limit ≤ size then .fault .notAddressable
  else if Memory.capacity < size then .fault .noMemory
  else .ok ()

def cleared (size : Nat) : Result Bytes := do
  room size
  return zeros size

end Bytes

/-- There is room for items of a size in this shape, which has to be one that arrays of them can have. -/
def Shape.room (s : Shape) (itemSize : Nat := 4) : Result Unit :=
  if s.holdable itemSize then Bytes.room (itemSize * s.volume) else .fault .notAddressable

end TensorDag
