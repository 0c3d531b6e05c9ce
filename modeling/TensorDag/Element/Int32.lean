import TensorDag.Element
import TensorDag.Element.Cast

/-!
Whole elements: words of 32 bits in two's complement. Sums and products wrap around; operations
whose exact result lies outside the range give the least element.
-/
namespace TensorDag

namespace Int32

/-- The element for a whole number, the least one for a number out of range. -/
def clip (i : Int) : Int32 :=
  if -2 ^ 31 ≤ i ∧ i < 2 ^ 31 then Int32.ofInt i else Int32.ofInt (-2 ^ 31)

/-- The quotient toward zero. -/
def quotient (a b : Int32) : Int32 :=
  if b = 0 then Int32.ofInt (-2 ^ 31) else clip (a.toInt.tdiv b.toInt)

/-- The power toward zero; bases beyond one leave the range from the thirty-second power on. -/
def power (a b : Int32) : Int32 :=
  let base := a.toInt
  let exponent := b.toInt
  if base = 1 ∨ exponent = 0 then 1
  else if base = -1 then (if exponent % 2 = 0 then 1 else -1)
  else if base = 0 then (if exponent < 0 then Int32.ofInt (-2 ^ 31) else 0)
  else if exponent < 0 then 0
  else if 31 < exponent then Int32.ofInt (-2 ^ 31)
  else clip (base ^ exponent.toNat)

/-- A real function toward zero. -/
def throughDouble (f : Float → Float) (a : Int32) : Int32 :=
  match (Double.mk (f (Float.ofInt a.toInt)).toBits).truncated? with
  | some i => clip i
  | none => Int32.ofInt (-2 ^ 31)

end Int32

instance : Element Int32 where
  ofWord
    | .int32, w => w.toInt32
    | .float32, w => (wordOfDouble (.ofSingle w)).toInt32
  toWord
    | .int32, a => a.toUInt32
    | .float32, a => ElementType.float32.castInt a.toInt
  div := Int32.quotient
  pow := Int32.power
  maximum a b := if b ≤ a then a else b
  minimum a b := if a ≤ b then a else b
  less a b := a < b
  lessEq a b := a ≤ b
  equal a b := a = b
  isUndefined _ := false
  abs a := if a < 0 then -a else a
  sign a := if a < 0 then -1 else if a = 0 then 0 else 1
  exp := Int32.throughDouble Float.exp
  log := Int32.throughDouble Float.log
  sqrt := Int32.throughDouble Float.sqrt

end TensorDag
