import TensorDag.Error
import TensorDag.Decimal.Reading
import TensorDag.Random.Seed

/-!
Seeds read from parameters: a whole number, or numbers nested in any way, whose words are joined.
-/
namespace TensorDag.Param

/-- The words of a whole number, which may not be negative. -/
def numberWords (i : Int) : Result (List UInt32) :=
  if i < 0 then .fault .negativeSeed else .ok (Random.seedWords i.toNat)

/-- A number written with digits, or with hexadecimal ones behind their mark. -/
def seedNumeral? (s : String) : Option Int :=
  match s.toList with
  | '0' :: 'x' :: digits =>
    if digits.isEmpty then none else (Text.hexNumber? digits).map Int.ofNat
  | c :: _ => if '0' ≤ c ∧ c ≤ '9' then Decimal.int? s else none
  | [] => none

mutual

/-- The words of a number within a seed, which may be a text. -/
def words : Param → Result (List UInt32)
  | .int i => numberWords i
  | .bool b => numberWords (if b then 1 else 0)
  | .text s =>
    match seedNumeral? s with
    | some i => numberWords i
    | none => .fault .notNumeral
  | .atom (.bytes bs) => .ok (bs.toList.map UInt8.toUInt32)
  | .tuple items => wordsAll items
  | _ => .fault .notNumber

def wordsAll : List Param → Result (List UInt32)
  | [] => .ok []
  | p :: rest => do return (← words p) ++ (← wordsAll rest)

end

def seed : Param → Result (List UInt32)
  | .text _ | .atom (.bytes _) => .fault .notNumber
  | p => words p

end TensorDag.Param
