import TensorDag.Element
import TensorDag.Element.Cast

/-!
Single-precision elements. An element is its word, so moving it keeps every bit; each arithmetic
operation rounds once.
-/
namespace TensorDag

structure Single where
  bits : UInt32
  deriving DecidableEq

namespace Single

def float (x : Single) : Float32 := Float32.ofBits x.bits

def reading (x : Single) : Binary.Reading := Binary.Format.single.read x.bits.toNat

/-- All bits of the exponent and some of the fraction are set. -/
def isUndefined (x : Single) : Bool := 0x7f800000 < x.bits &&& 0x7fffffff

/-- What an operation on some operands makes of its result: where that is undefined, the first
undefined operand stands for it, or the invalid word if there is none. -/
def settled (operands : List Single) (result : Float32) : Single :=
  if (Single.mk result.toBits).isUndefined then
    match operands.find? isUndefined with
    | some x => ⟨x.bits ||| 0x00400000⟩
    | none => ⟨0xffc00000⟩
  else ⟨result.toBits⟩

def lift (f : Float32 → Float32) (x : Single) : Single := settled [x] (f x.float)

def lift₂ (f : Float32 → Float32 → Float32) (x y : Single) : Single :=
  settled [x, y] (f x.float y.float)

def negate (x : Single) : Single := ⟨x.bits ^^^ 0x80000000⟩

def magnitude (x : Single) : Single := ⟨x.bits &&& 0x7fffffff⟩

def sign (x : Single) : Single :=
  match x.reading with
  | .undefined => x
  | .infinite negative => ⟨if negative then 0xbf800000 else 0x3f800000⟩
  | .finite negative significand _ =>
    ⟨if significand = 0 then 0 else if negative then 0xbf800000 else 0x3f800000⟩

end Single

instance : Element Single where
  zero := ⟨0⟩
  one := ⟨0x3f800000⟩
  add := Single.lift₂ (· + ·)
  sub := Single.lift₂ (· - ·)
  mul := Single.lift₂ (· * ·)
  neg := Single.negate
  ofWord
    | .float32, w => ⟨w⟩
    | .int32, w => ⟨ElementType.float32.castInt w.toInt32.toInt⟩
  toWord
    | .float32, x => x.bits
    | .int32, x => wordOfDouble (.ofSingle x.bits)
  div := Single.lift₂ (· / ·)
  pow := Single.lift₂ Float32.pow
  maximum x y := if y.float ≤ x.float || x.isUndefined then x else y
  minimum x y := if x.float ≤ y.float || x.isUndefined then x else y
  less x y := x.float < y.float
  lessEq x y := x.float ≤ y.float
  equal x y := x.float == y.float
  isUndefined := Single.isUndefined
  abs := Single.magnitude
  sign := Single.sign
  exp := Single.lift Float32.exp
  log := Single.lift Float32.log
  sqrt := Single.lift Float32.sqrt

end TensorDag
