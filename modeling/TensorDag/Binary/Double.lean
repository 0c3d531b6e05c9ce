import TensorDag.Decimal.Notation

/-!
Double-precision numbers as words. Equality of doubles is equality of words; `Double.same` is the
equality of numbers, under which the two zeros agree and an undefined result differs from itself.
-/
namespace TensorDag

structure Double where
  bits : UInt64
  deriving DecidableEq

namespace Double
open Binary

def reading (x : Double) : Reading := Format.double.read x.bits.toNat

def ofWord (word : Nat) : Double := ⟨UInt64.ofNat word⟩

def zero : Double := ofWord 0

def undefined : Double := ofWord Format.double.undefined

/-- The undefined number with the sign bit set. -/
def invalid : Double := ofWord Format.double.invalid

def infinite (negative : Bool) : Double :=
  ofWord ((if negative then Format.double.signBit else 0) + Format.double.infinity)

/-- All bits of the exponent and some of the fraction are set. -/
def isUndefined (x : Double) : Bool := 0x7ff0000000000000 < x.bits &&& 0x7fffffffffffffff

def isZero (x : Double) : Bool :=
  match x.reading with
  | .finite _ significand _ => significand = 0
  | _ => false

/-- The double nearest to a whole number, or `none` where that is past the greatest one. -/
def ofInt? (i : Int) : Option Double :=
  let word := Format.double.round (i < 0) i.natAbs 1
  match Format.double.read word with
  | .finite _ _ _ => some (ofWord word)
  | _ => none

def ofDecimal (negative : Bool) (digits : Nat) (exponent : Int) : Double :=
  ofWord (Format.double.ofDecimal negative digits exponent)

/-- The positive zero and the negative one become one. -/
def withoutSignedZero (x : Double) : Double := if x.isZero then zero else x

def same (x y : Double) : Bool :=
  !x.isUndefined && !y.isUndefined && x.withoutSignedZero = y.withoutSignedZero

/-- The whole number next to `x` on the side of zero, where `x` is finite. -/
def truncated? (x : Double) : Option Int :=
  match x.reading with
  | .finite negative significand exponent =>
    let (num, den) := ratio significand exponent
    some (if negative then -(num / den : Nat) else (num / den : Nat))
  | _ => none

/-- Order of numbers; nothing is below or above an undefined result. -/
def less (x y : Double) : Bool :=
  let signed (negative : Bool) (n : Nat) : Int := if negative then -n else n
  match x.reading, y.reading with
  | .undefined, _ | _, .undefined => false
  | .infinite n, .infinite m => n && !m
  | .infinite n, .finite _ _ _ => n
  | .finite _ _ _, .infinite m => !m
  | .finite n s e, .finite m t d =>
    let (xn, xd) := ratio s e
    let (yn, yd) := ratio t d
    signed n xn * yd < signed m yn * xd

/-- A whole number set against a double, both taken exactly. -/
def compareInt (i : Int) (x : Double) : Option Ordering :=
  match x.reading with
  | .undefined => none
  | .infinite negative => some (if negative then .gt else .lt)
  | .finite negative significand exponent =>
    let (num, den) := ratio significand exponent
    some (compare (i * den) (if negative then -(num : Int) else num))

def add (x y : Double) : Double := ⟨(Float.ofBits x.bits + Float.ofBits y.bits).toBits⟩

/-- The fewest digits that read back, in the general notation. -/
def text (x : Double) : String := Decimal.general .double x.reading

def wordIn (f : Format) (x : Double) : Nat :=
  if f = .double then x.bits.toNat else Format.double.convert f x.bits.toNat

def roundTo (f : Format) (x : Double) : Double :=
  if f = .double then x else ofWord (f.convert .double (x.wordIn f))

def toSingle (x : Double) : UInt32 := UInt32.ofNat (x.wordIn .single)

def ofSingle (word : UInt32) : Double :=
  ofWord (Format.single.convert .double word.toNat)

end Double
end TensorDag
