import TensorDag.Binary.Double
import TensorDag.TensorType

/-!
Casts: numbers as words of an element type. Whole numbers wrap, numbers with a fraction are rounded
or cut off, and what fits nowhere becomes the least whole element.
-/
namespace TensorDag

/-- The least word of a signed type of 32 bits, which stands for every number out of range. -/
def outOfRange : UInt32 := 0x80000000

def wordOfInt (i : Int) : UInt32 := UInt32.ofNat (i % (2 ^ 32)).toNat

/-- A double cut off toward zero and kept if it fits. -/
def wordOfDouble (x : Double) : UInt32 :=
  match x.truncated? with
  | some i => if -2 ^ 31 ≤ i ∧ i < 2 ^ 31 then wordOfInt i else outOfRange
  | none => outOfRange

namespace ElementType

def castInt (e : ElementType) (i : Int) : UInt32 :=
  match e with
  | .int32 => wordOfInt i
  | .float32 => UInt32.ofNat (Binary.Format.single.round (i < 0) i.natAbs 1)

def castDouble (e : ElementType) (x : Double) : UInt32 :=
  match e with
  | .int32 => wordOfDouble x
  | .float32 => x.toSingle

end ElementType
end TensorDag
