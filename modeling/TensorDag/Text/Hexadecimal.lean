/-!
Hexadecimal numerals, and bytes written as pairs of digits.
-/
namespace TensorDag.Text

/-- A numeral of at least `width` digits, zeros in front. -/
def hexNumeral (width n : Nat) : String :=
  let digits := Nat.toDigits 16 n
  String.ofList (List.replicate (width - digits.length) '0' ++ digits)

def hexDigit? (c : Char) : Option Nat :=
  "0123456789abcdef".toList.findIdx? (· = c.toLower)

/-- The number that some digits write. -/
def hexNumber? (digits : List Char) : Option Nat :=
  (digits.mapM hexDigit?).map fun values => values.foldl (16 * · + ·) 0

def isSpace (c : Char) : Bool := c = ' ' || (0x9 ≤ c.toNat && c.toNat ≤ 0xd)

/-- Bytes in pairs of digits, spaces between them left out. -/
def hexBytes? : List Char → Option (List UInt8)
  | [] => some []
  | [c] => if isSpace c then some [] else none
  | a :: b :: rest =>
    if isSpace a then hexBytes? (b :: rest)
    else do
      let n ← hexNumber? [a, b]
      return UInt8.ofNat n :: (← hexBytes? rest)

end TensorDag.Text
