import TensorDag.Binary.Double
import TensorDag.Text.Blank

/-!
Numbers written as text: whole numbers and doubles. Blanks around the number are allowed, and a
single underscore between two digits, which may be those of every script.
-/
namespace TensorDag.Text

/-- Code points of the zeros; the other nine digits of a script follow its zero. -/
def zeros : List Nat := [
  0x30, 0x660, 0x6f0, 0x7c0, 0x966, 0x9e6, 0xa66, 0xae6, 0xb66, 0xbe6,
  0xc66, 0xce6, 0xd66, 0xde6, 0xe50, 0xed0, 0xf20, 0x1040, 0x1090, 0x17e0,
  0x1810, 0x1946, 0x19d0, 0x1a80, 0x1a90, 0x1b50, 0x1bb0, 0x1c40, 0x1c50, 0xa620,
  0xa8d0, 0xa900, 0xa9d0, 0xa9f0, 0xaa50, 0xabf0, 0xff10, 0x104a0, 0x10d30, 0x11066,
  0x110f0, 0x11136, 0x111d0, 0x112f0, 0x11450, 0x114d0, 0x11650, 0x116c0, 0x11730, 0x118e0,
  0x11950, 0x11c50, 0x11d50, 0x11da0, 0x16a60, 0x16ac0, 0x16b50, 0x1d7ce, 0x1d7d8, 0x1d7e2,
  0x1d7ec, 0x1d7f6, 0x1e140, 0x1e2f0, 0x1e950, 0x1fbf0]

def digit? (c : Char) : Option Nat :=
  (zeros.find? fun base => base ≤ c.toNat && c.toNat < base + 10).map (c.toNat - ·)

end TensorDag.Text

namespace TensorDag.Decimal

/-- Digit values, underscores dropped; `none` unless each underscore stands between two digits. -/
def digits? : List Char → Option (List Nat)
  | [] => some []
  | [c] => (Text.digit? c).map ([·])
  | c :: '_' :: d :: rest =>
    match Text.digit? c, digits? (d :: rest) with
    | some value, some (next :: values) => some (value :: next :: values)
    | _, _ => none
  | c :: rest =>
    match Text.digit? c, digits? rest with
    | some value, some values => some (value :: values)
    | _, _ => none

def value (digits : List Nat) : Nat := digits.foldl (10 * · + ·) 0

def signed : List Char → Bool × List Char
  | '-' :: rest => (true, rest)
  | '+' :: rest => (false, rest)
  | cs => (false, cs)

def int? (s : String) : Option Int :=
  let (negative, cs) := signed (Text.trimBy Text.isMargin s.toList)
  match cs, digits? cs with
  | _ :: _, some digits => some (if negative then -(value digits : Int) else value digits)
  | _, _ => none

/-- The exponent after its mark, absent meaning zero. -/
def exponent? : List Char → Option Int
  | [] => some 0
  | _ :: cs =>
    let (negative, rest) := signed cs
    match rest, digits? rest with
    | _ :: _, some digits => some (if negative then -(value digits : Int) else value digits)
    | _, _ => none

/-- Digits with an optional point and an optional exponent. -/
def unsigned? (cs : List Char) : Option (Nat × Int) := do
  let (mantissa, tail) := cs.span fun c => c ≠ 'e' && c ≠ 'E'
  let (whole, fraction) := mantissa.span (· ≠ '.')
  let wholeDigits ← digits? whole
  let fractionDigits ← digits? (fraction.drop 1)
  guard (wholeDigits ≠ [] || fractionDigits ≠ [])
  let exponent ← exponent? tail
  return (value (wholeDigits ++ fractionDigits), exponent - fractionDigits.length)

def double? (s : String) : Option Double :=
  let (negative, cs) := signed (Text.trimBy Text.isMargin s.toList)
  let word := Text.lower (String.ofList cs)
  if word = "inf" || word = "infinity" then some (.infinite negative)
  else if word = "nan" then some (if negative then .invalid else .undefined)
  else (unsigned? cs).map fun (digits, exponent) => .ofDecimal negative digits exponent

end TensorDag.Decimal
