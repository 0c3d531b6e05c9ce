import TensorDag.Basic

/-!
Binary floating-point words: what a word denotes, and the word nearest to a ratio.
`Format.read` and `Format.round` are two ways through the same layout, sign, exponent, fraction.
-/
namespace TensorDag.Binary

/-- A word layout: significant bits, the hidden one included, and bits of the exponent. -/
structure Format where
  precision : Nat
  exponentBits : Nat
  deriving DecidableEq

def Format.half : Format := ⟨11, 5⟩
def Format.single : Format := ⟨24, 8⟩
def Format.double : Format := ⟨53, 11⟩

/-- What a word denotes; a finite one stands for `significand * 2 ^ exponent`. -/
inductive Reading
  | undefined
  | infinite (negative : Bool)
  | finite (negative : Bool) (significand : Nat) (exponent : Int)
  deriving DecidableEq

namespace Format
variable (f : Format)

/-- Bytes of a word. -/
def size : Nat := (f.precision + f.exponentBits) / 8

/-- The step between neighbours of a binade, so also the weight of the exponent field. -/
def step : Nat := 2 ^ (f.precision - 1)

def infinity : Nat := (2 ^ f.exponentBits - 1) * f.step

def signBit : Nat := 2 ^ f.exponentBits * f.step

/-- The undefined result with the first fraction bit set. -/
def undefined : Nat := f.infinity + 2 ^ (f.precision - 2)

/-- The exponent of the last place of the smallest numbers. -/
def least : Int := 3 - (2 ^ (f.exponentBits - 1) : Nat) - f.precision

def read (word : Nat) : Reading :=
  let negative := f.signBit ≤ word
  let magnitude := word % f.signBit
  let field := magnitude / f.step
  let fraction := magnitude % f.step
  if f.infinity < magnitude then .undefined
  else if magnitude = f.infinity then .infinite negative
  else if field = 0 then .finite negative fraction f.least
  else .finite negative (f.step + fraction) (f.least + (field - 1 : Nat))

end Format

/-- The whole number nearest to `num / den`, a tie going to the even one. -/
def roundRatio (num den : Nat) : Nat :=
  let low := num / den
  let rest := 2 * (num % den)
  if rest < den then low
  else if den < rest then low + 1
  else low + low % 2

/-- The greatest `e` with `2 ^ e ≤ num / den`, for a positive ratio. -/
def floorLog (num den : Nat) : Int :=
  let guess : Int := (num.log2 : Int) - den.log2
  if den * 2 ^ guess.toNat ≤ num * 2 ^ (-guess).toNat then guess else guess - 1

/-- The word nearest to `num / den`, ties to even, with the given sign; past the greatest number
stands infinity. -/
def Format.round (f : Format) (negative : Bool) (num den : Nat) : Nat :=
  let sign := if negative then f.signBit else 0
  if num = 0 then sign
  else
    let exponent := max (floorLog num den - (f.precision - 1 : Nat)) f.least
    let coefficient := roundRatio (num * 2 ^ (-exponent).toNat) (den * 2 ^ exponent.toNat)
    sign + min ((exponent - f.least).toNat * f.step + coefficient) f.infinity

/-- A reading as a ratio of the sign's magnitude: numerator and denominator. -/
def ratio (significand : Nat) (exponent : Int) : Nat × Nat :=
  (significand * 2 ^ exponent.toNat, 2 ^ (-exponent).toNat)

/-- An undefined word with the first fraction bit set. -/
def Format.quieted (f : Format) (word : Nat) : Nat := word ||| 2 ^ (f.precision - 2)

/-- The word that stands for a result that no number is. -/
def Format.invalid (f : Format) : Nat := f.signBit + f.undefined

/-- The same number in another layout; undefined ones keep their sign and the leading bits of their
fraction. -/
def Format.convert (source target : Format) (word : Nat) : Nat :=
  match source.read word with
  | .undefined =>
    let sign := if source.signBit ≤ word then target.signBit else 0
    target.quieted (sign + target.infinity + word % source.step * target.step / source.step)
  | .infinite negative => (if negative then target.signBit else 0) + target.infinity
  | .finite negative significand exponent =>
    let (num, den) := ratio significand exponent
    target.round negative num den

/-- The word nearest to `digits * 10 ^ exponent`. Exponents far outside the layout's range are
cut short first, since their value is decided. -/
def Format.ofDecimal (f : Format) (negative : Bool) (digits : Nat) (exponent : Int) : Nat :=
  let sign := if negative then f.signBit else 0
  let magnitude := exponent + (Nat.toDigits 10 digits).length
  if digits = 0 then sign
  else if magnitude < -400 then sign
  else if 400 < magnitude then sign + f.infinity
  else f.round negative (digits * 10 ^ exponent.toNat) (10 ^ (-exponent).toNat)

end TensorDag.Binary
