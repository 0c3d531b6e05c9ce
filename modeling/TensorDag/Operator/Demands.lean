import TensorDag.Memory
import TensorDag.Operator.Evaluation

/-!
What the host asks for on its way from inputs to a result. Whole numbers leave their type for doubles,
sums and places are counted in words of 64 bits, and windows slide over features with margins, so that
an operator can ask for more than its inputs and its result take.
-/
namespace TensorDag

/-- An array of items of a size, a view of words, or a loop over the cells of a shape. -/
inductive Demand
  | array (itemSize : Nat) (shape : Shape)
  | view (shape : Shape)
  | loop (shape : Shape)

/-- A view takes no room, and a loop counts its cells up to the first empty axis. -/
def Demand.meet [Memory] : Demand → Result Unit
  | array itemSize s => s.room itemSize
  | view s => if s.holdable then .ok () else .fault .notAddressable
  | loop s => if s.countable 1 then .ok () else .fault .notAddressable

namespace Windowing

def framed (w : Windowing) (features : Shape) : Shape :=
  features.take 2 ++ [features.getD 2 0 + 2 * w.padding.1, features.getD 3 0 + 2 * w.padding.2]

/-- The shape of all windows of a size over features with margins. -/
def sweep (w : Windowing) (features : Shape) (rows columns : Nat) : Shape :=
  let framed := w.framed features
  framed.take 2 ++ [framed.getD 2 0 - rows + 1, framed.getD 3 0 - columns + 1, rows, columns]

end Windowing

namespace Kind

/-- The inputs that a kind reads. -/
def readPlaces : Kind → List Nat
  | .binary _ | .matmul | .convolution | .featuresGradient | .filtersGradient | .softmaxGradient =>
    [0, 1]
  | .maxpoolGradient => [0, 2]
  | .uniform => []
  | _ => [0]

/-- The element type of all inputs that a kind reads; elements of different types meet in doubles. -/
def elementType? (kind : Kind) (types : List TensorType) : Option ElementType :=
  ElementType.common? (kind.readPlaces.filterMap fun place => types[place]?.map TensorType.elementType)

end Kind

namespace Operator

/-- Whether an operator makes an array of words of 64 bits of elements of a type, or of different types: doubles, or
whole numbers that are added up. -/
def widens (op : Operator) : Option ElementType → Bool
  | some .float32 => false
  | some .int32 =>
    match op with
    | .binary .div | .binary .pow | .unary .exp | .unary .log | .unary .sqrt | .softmax
    | .softmaxGradient => true
    | _ => false
  | none =>
    match op with
    | .binary .lt | .binary .lte | .binary .gt | .binary .gte | .binary .eq | .binary .neq
    | .maxpoolGradient _ => false
    | _ => true

/-- What an operator asks for besides wider words of its result. -/
def ownDemands (op : Operator) (types : List TensorType) (result : Shape) : List Demand :=
  let common := op.kind.elementType? types
  let shapes := types.map TensorType.shape
  match op, shapes with
  | .binary .pow, base :: _ =>
    if (Kind.source types).elementType = .int32 then [.array 8 base] else []
  | .matmul, _ => if common = none then shapes.map (.array 8) else []
  | .argmin _, _ | .uniform _ _, _ => [.array 8 result]
  | .convolution c, [features, [_, channels, rows, columns]] =>
    [.array 4 (c.windowing.framed features), .view (c.windowing.sweep features rows columns),
      .loop (result ++ [channels, rows, columns])]
  | .featuresGradient c, [gradient, [outputs, channels, rows, columns]] =>
    .array (if common = none then 8 else 4) (c.windowing.framed (c.features.getD [])) ::
      if rows = 0 ∨ columns = 0 then []
      else [.loop [gradient.getD 0 0, channels, gradient.getD 2 0, gradient.getD 3 0, outputs]]
  | .filtersGradient c, [gradient, features] =>
    [.array 4 (c.windowing.framed features),
      .view (c.windowing.sweep features (result.getD 2 0) (result.getD 3 0)),
      .loop (result ++ [gradient.getD 0 0, gradient.getD 2 0, gradient.getD 3 0])]
  | .maxpoolGradient dims, [_, _, features] =>
    [.array 8 [dims.1.toNat * dims.2.toNat],
      .array 8 (features.take 2 ++
        [features.getD 2 0 / dims.1.toNat, features.getD 3 0 / dims.2.toNat])]
  | _, _ => []

/-- What an operator asks for on its way that can be more than its inputs and its result. -/
def demands (op : Operator) (types : List TensorType) (result : Shape) : List Demand :=
  if op.widens (op.kind.elementType? types) then .array 8 result :: op.ownDemands types result
  else op.ownDemands types result

def afford [Memory] (op : Operator) (types : List TensorType) (result : Shape) : Result Unit :=
  (op.demands types result).forM Demand.meet

end Operator
end TensorDag
