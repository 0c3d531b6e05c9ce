import TensorDag.Element.Cast
import TensorDag.Value.Machine

/-!
Data of tensors read from values: nested lists of equal lengths become words in row-major order.
-/
namespace TensorDag.Value

mutual

/-- The items of nested lists in order; those of arrays keep the array's machine type. -/
def flat : Value → List Value
  | .list items | .tuple items => flatAll items
  | .array type content => (flat content).map (.scalar type)
  | v => [v]

def flatAll : List Value → List Value
  | [] => []
  | v :: rest => flat v ++ flatAll rest

end

/-- A number of a machine type as an element: a cast, which wraps and never overflows. -/
def castWord? (e : ElementType) : Value → Option UInt32
  | .bool b => some (e.castInt (if b then 1 else 0))
  | .int i => some (e.castInt i)
  | .float x => some (e.castDouble x)
  | .undefined _ => some (e.castDouble .undefined)
  | _ => none

/-- A number as an element, or the text of one. -/
def numberWord (e : ElementType) (v : Value) : Result UInt32 :=
  match e with
  | .float32 => do return (← v.double).toSingle
  | .int32 => do
    let i ← v.truncated
    if -2 ^ 31 ≤ i ∧ i < 2 ^ 31 then return wordOfInt i else .fault .tooLarge

def word (e : ElementType) (v : Value) : Result UInt32 :=
  match v with
  | .scalar _ value => ((castWord? e value).map .ok).getD (numberWord e value)
  | v => numberWord e v

def wordsAll (e : ElementType) : List Value → Result (List UInt32)
  | [] => .ok []
  | v :: rest => do return (← v.word e) :: (← wordsAll e rest)

def words (e : ElementType) (v : Value) : Result (List UInt32) := do
  let _ ← v.extent
  wordsAll e v.flat

/-- The elements that cells of a shape are set to, with a shape of their own. A single cell takes a
single value, others nested lists or arrays of no more axes than they have. -/
def assigned (e : ElementType) (target : Shape) (v : Value) : Result (Shape × List UInt32) :=
  match target, v with
  | [], .array type content => do return ([], [← word e (.scalar type content)])
  | [], v => do return ([], [← word e v])
  | _ :: _, v => do
    let lengths ← v.extent
    let lengths := match v with
      | .array _ _ => Shape.dropLeading target.length lengths
      | _ => lengths
    if target.length < lengths.length then .fault .doesNotStretch
    else return (lengths, ← wordsAll e v.flat)

def elementBytes (e : ElementType) (v : Value) : Result Bytes := do
  return Bytes.ofWords (← v.words e)

end TensorDag.Value
