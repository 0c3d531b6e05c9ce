import TensorDag.Decimal.Scale

/-!
Written forms of decimal numerals: the general notation, positional in a middle range and with an
exponent outside it, and the scientific notation with a fixed number of digits.
-/
namespace TensorDag.Decimal

/-- Up to how many digits before the point the general notation is positional. -/
def positionalDigits (f : Binary.Format) : Nat :=
  if f = .half then 3 else if f = .single then 6 else 16

/-- Whether a ratio is at least a ten-thousandth. -/
def fromTenThousandth (num den : Nat) : Bool := den ≤ num * 10 ^ 4

/-- An exponent with its sign and at least two digits. -/
def exponentText (exponent : Int) : String :=
  let digits := Nat.toDigits 10 exponent.natAbs
  (if exponent < 0 then "e-" else "e+") ++
    String.ofList (List.replicate (2 - digits.length) '0' ++ digits)

/-- The first digit, a point and the others; no point after a single digit. -/
def mantissaText : List Char → String
  | [] => "0"
  | [digit] => String.singleton digit
  | digit :: rest => String.ofList (digit :: '.' :: rest)

/-- Drop the zeros at the end of a list of digits. -/
def significant (digits : List Char) : List Char :=
  (digits.reverse.dropWhile (· = '0')).reverse

/-- Digits with the point after the first `point` of them; a whole number keeps `.0`. -/
def positionalText (digits : List Char) (point : Int) : String :=
  if point ≤ 0 then
    "0." ++ String.ofList (List.replicate (-point).toNat '0' ++ digits)
  else
    let whole := digits.take point.toNat
    let fraction := digits.drop point.toNat
    String.ofList (whole ++ List.replicate (point.toNat - whole.length) '0') ++ "." ++
      (if fraction.isEmpty then "0" else String.ofList fraction)

/-- The digits of a numeral without zeros at the end, and how many of them stand before the point. -/
def Numeral.pointed (n : Numeral) : List Char × Int :=
  let all := Nat.toDigits 10 n.digits
  (significant all, all.length + n.exponent)

/-- The general notation of a positive number of a layout: the fewest digits that read back. -/
def generalText (f : Binary.Format) (significand : Nat) (exponent : Int) : String :=
  let (digits, point) := (Numeral.shortest f significand exponent).pointed
  let (num, den) := Binary.ratio significand exponent
  if fromTenThousandth num den && point ≤ positionalDigits f then positionalText digits point
  else mantissaText digits ++ exponentText (point - 1)

/-- The general notation of a reading. -/
def general (f : Binary.Format) : Binary.Reading → String
  | .undefined => "nan"
  | .infinite negative => if negative then "-inf" else "inf"
  | .finite negative significand exponent =>
    (if negative then "-" else "") ++
      if significand = 0 then "0.0" else generalText f significand exponent

/-- The scientific notation of a positive ratio with `count` digits. -/
def scientificText (num den count : Nat) : String :=
  let n := Numeral.rounded num den count
  mantissaText (Nat.toDigits 10 n.digits) ++ exponentText (n.exponent + (count - 1 : Nat))

/-- The scientific notation of a reading: a sign where the sign bit is set, words for what is not a
number. -/
def scientific (count : Nat) : Binary.Reading → String
  | .undefined => "nan"
  | .infinite negative => if negative then "-inf" else "inf"
  | .finite negative significand exponent =>
    (if negative then "-" else "") ++
      if significand = 0 then mantissaText (List.replicate count '0') ++ exponentText 0
      else
        let (num, den) := Binary.ratio significand exponent
        scientificText num den count

end TensorDag.Decimal
