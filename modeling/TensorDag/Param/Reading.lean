import TensorDag.Error

/-!
Parameters of any form read as sequences and whole numbers.
-/
namespace TensorDag
namespace Param

/-- What a parameter yields when it is gone through. -/
def items : Param → Result (List Param)
  | .tuple items => .ok items
  | .text s => .ok (s.toList.map fun c => .text (String.singleton c))
  | .atom (.bytes bs) => .ok (bs.toList.map fun b => .int b.toNat)
  | _ => .fault .notIterable

/-- Whole numbers, a truth value counting as one. -/
def whole? : Param → Option Int
  | .int i => some i
  | .bool b => some (if b then 1 else 0)
  | _ => none

def whole (p : Param) : Result Int := ((p.whole?).map .ok).getD (.fault .notNumber)

def both (p : Param) : Result (Param × Param) := do
  match ← p.items with
  | [first, second] => return (first, second)
  | _ => .fault .wrongCount

end Param

def Params.get (ps : Params) (name : String) : Result Param :=
  ((ps.find? name).map .ok).getD (.fault .noParameter)

end TensorDag
