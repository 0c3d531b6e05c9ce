import TensorDag.Element
import TensorDag.Element.Cast

/-!
Double-precision elements, in which whole elements and single-precision ones meet: both are doubles
without loss.
-/
namespace TensorDag

namespace Double

def float (x : Double) : Float := Float.ofBits x.bits

/-- What an operation on some operands makes of its result: where that is undefined, the first
undefined operand stands for it, or the invalid word if there is none. -/
def settled (operands : List Double) (result : Float) : Double :=
  if (Double.mk result.toBits).isUndefined then
    match operands.find? isUndefined with
    | some x => ⟨x.bits ||| 0x0008000000000000⟩
    | none => invalid
  else ⟨result.toBits⟩

def lift (f : Float → Float) (x : Double) : Double := settled [x] (f x.float)

def lift₂ (f : Float → Float → Float) (x y : Double) : Double := settled [x, y] (f x.float y.float)

def ofNat (n : Nat) : Double := ofDecimal false n 0

/-- The double that is a whole element. -/
def ofInt32 (i : Int32) : Double := ⟨(Float.ofInt i.toInt).toBits⟩

def negate (x : Double) : Double := ⟨x.bits ^^^ 0x8000000000000000⟩

def magnitude (x : Double) : Double := ⟨x.bits &&& 0x7fffffffffffffff⟩

def one : Double := ⟨0x3ff0000000000000⟩

def sign (x : Double) : Double :=
  if x.isUndefined then x else if zero.less x then one else if x.less zero then one.negate else zero

end Double

instance : Element Double where
  zero := .zero
  one := .one
  add := Double.lift₂ (· + ·)
  sub := Double.lift₂ (· - ·)
  mul := Double.lift₂ (· * ·)
  neg := Double.negate
  ofWord
    | .int32, w => .ofInt32 w.toInt32
    | .float32, w => .ofSingle w
  toWord e x := e.castDouble x
  div := Double.lift₂ (· / ·)
  pow := Double.lift₂ Float.pow
  maximum x y := if y.float ≤ x.float || x.isUndefined then x else y
  minimum x y := if x.float ≤ y.float || x.isUndefined then x else y
  less x y := x.float < y.float
  lessEq x y := x.float ≤ y.float
  equal x y := x.float == y.float
  isUndefined := Double.isUndefined
  abs := Double.magnitude
  sign := Double.sign
  exp := Double.lift Float.exp
  log := Double.lift Float.log
  sqrt := Double.lift Float.sqrt

end TensorDag
