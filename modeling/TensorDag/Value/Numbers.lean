import TensorDag.Error
import TensorDag.Decimal.Reading

/-!
Whole numbers, pairs and shapes read from values.
-/
namespace TensorDag

namespace Value

/-- A plain number as a whole number, cut off toward zero. -/
def wholeNumber : Value → Result Int
  | .int i => .ok i
  | .bool b => .ok (if b then 1 else 0)
  | .float x =>
    match x.truncated? with
    | some i => .ok i
    | none => .fault (if x.isUndefined then .undefinedNumber else .tooLarge)
  | .undefined _ => .fault .undefinedNumber
  | .text s => ((Decimal.int? s).map .ok).getD (.fault .notNumeral)
  | .bytes bs => ((Decimal.int? (Text.ofAscii bs.toList)).map .ok).getD (.fault .notNumeral)
  | _ => .fault .notNumber

/-- A value as a whole number, cut off toward zero; of arrays only those without axes. -/
def truncated : Value → Result Int
  | .scalar _ v | .array _ v => wholeNumber v
  | v => wholeNumber v

/-- A value as a place or a size. -/
def count (v : Value) : Result Int := ((v.index?).map .ok).getD (.fault .notNumber)

/-- A number, or the text of one, as a double; null is undefined. -/
def double : Value → Result Double
  | .null | .undefined _ => .ok .undefined
  | .int i => ((Double.ofInt? i).map .ok).getD (.fault .tooLarge)
  | .bool b => .ok (.ofDecimal false (if b then 1 else 0) 0)
  | .float x => .ok x
  | .text s => ((Decimal.double? s).map .ok).getD (.fault .notNumeral)
  | .bytes bs => ((Decimal.double? (Text.ofAscii bs.toList)).map .ok).getD (.fault .notNumeral)
  | .scalar _ v => double v
  | _ => .fault .notNumber

/-- A single whole number stands for the sequence that holds only it. -/
def asSequence (v : Value) : Value := if v.isWhole then .tuple [v] else v

def sequenceInts (kind name : String) (whole : Value) : List Value → Result (List Int)
  | [] => .ok []
  | v :: rest =>
    match v.int? with
    | some i => do return i :: (← sequenceInts kind name whole rest)
    | none => .shape (.notIntegers kind name whole)

/-- A sequence of whole numbers, given as the parameter `name` of `kind`. -/
def integers (kind name : String) (v : Value) : Result (List Int) :=
  let whole := v.asSequence
  match whole.items? with
  | some items => sequenceInts kind name whole items
  | none => .shape (.notIntegers kind name whole)

def shapeDims (whole : Value) (all : List Value) : List Value → Result Shape
  | [] => .ok []
  | v :: rest =>
    match v.int? with
    | none => .shape (.dimensionNotInteger v whole)
    | some i =>
      if i < 0 then .shape (.dimensionNegative all)
      else do return i.toNat :: (← shapeDims whole all rest)

/-- A sequence of dimensions, none of them negative. -/
def shape (v : Value) : Result Shape :=
  let whole := v.asSequence
  match whole.items? with
  | some items => shapeDims whole items items
  | none => .fault .notIterable

/-- Each item as a whole number; what is no number makes the whole no pair. -/
def pairInts (fault : ShapeFault) : List Value → Result (List Int)
  | [] => .ok []
  | v :: rest =>
    match v.truncated with
    | .ok i => do return i :: (← pairInts fault rest)
    | .error e => if e.category = .overflow then .error e else .shape fault

/-- A pair of whole numbers from `minimum` on, a single one standing for the pair that repeats it. -/
def pair (kind name : String) (minimum : Int) (v : Value) : Result (Int × Int) := do
  let whole : Value := if v.int?.isSome then .tuple [v, v] else v
  let fault : ShapeFault := .notPair kind name whole
  match whole.items? with
  | none => .shape fault
  | some items =>
    match ← pairInts fault (items.take 3) with
    | [first, second] =>
      if first < minimum ∨ second < minimum then .shape (.pairBelow kind name minimum first second)
      else return (first, second)
    | _ => .shape fault

end Value

end TensorDag
