import TensorDag.Binary.Format

/-!
Decimal forms of positive ratios: the place of the first digit, the shortest digits that read back,
and a fixed number of digits.
-/
namespace TensorDag.Decimal

/-- `digits * 10 ^ exponent`. -/
structure Numeral where
  digits : Nat
  exponent : Int
  deriving DecidableEq

/-- The greatest `k` with `10 ^ k ≤ num / den`, for a positive ratio. -/
def floorLog (num den : Nat) : Int :=
  let guess : Int := ((Nat.toDigits 10 num).length : Int) - (Nat.toDigits 10 den).length
  if den * 10 ^ guess.toNat ≤ num * 10 ^ (-guess).toNat then guess else guess - 1

/-- The digits of `num / den` down to the place `10 ^ place`, as a ratio. -/
def scaled (num den : Nat) (place : Int) : Nat × Nat :=
  (num * 10 ^ (-place).toNat, den * 10 ^ place.toNat)

/-- A ratio to `count` significant digits, a tie going to the even digit. -/
def Numeral.rounded (num den count : Nat) : Numeral :=
  let place := floorLog num den - (count - 1 : Nat)
  let (n, d) := scaled num den place
  let digits := Binary.roundRatio n d
  if digits = 10 ^ count then ⟨10 ^ (count - 1), place + 1⟩ else ⟨digits, place⟩

/-- The interval of the ratios that round to `significand * 2 ^ exponent`, in units of
`2 ^ (exponent - 2)`: lower end, the number itself, upper end. Below a power of two that has a
binade under it the gap is half as wide. -/
def neighbourhood (f : Binary.Format) (significand : Nat) (exponent : Int) : Nat × Nat × Nat :=
  let narrow := significand = f.step ∧ f.least < exponent
  (4 * significand - (if narrow then 1 else 2), 4 * significand, 4 * significand + 2)

/-- The number of the grid of `count` digits that reads back as the given one, the nearer of two. -/
def onGrid? (f : Binary.Format) (significand : Nat) (exponent : Int) (count : Nat) :
    Option Numeral :=
  let (low, mid, high) := neighbourhood f significand exponent
  let unit := exponent - 2
  let num := mid * 2 ^ unit.toNat
  let den := 2 ^ (-unit).toNat
  let place := floorLog num den - (count - 1 : Nat)
  let (n, d) := scaled num den place
  let below := n / d
  -- `digits` lies in the interval, ends included iff the significand is even
  let inside (digits : Nat) : Bool :=
    let x := digits * mid * d
    let lower := low * n
    let upper := high * n
    if significand % 2 = 0 then lower ≤ x && x ≤ upper else lower < x && x < upper
  let nearer := Binary.roundRatio n d
  if inside nearer then some ⟨nearer, place⟩
  else if inside below then some ⟨below, place⟩
  else if inside (below + 1) then some ⟨below + 1, place⟩
  else none

/-- The fewest digits that read back as `significand * 2 ^ exponent`; seventeen always do in the
wider layout. -/
def Numeral.shortest (f : Binary.Format) (significand : Nat) (exponent : Int) : Numeral :=
  ((List.range 17).findSome? fun n => onGrid? f significand exponent (n + 1)).getD ⟨0, 0⟩

end TensorDag.Decimal
