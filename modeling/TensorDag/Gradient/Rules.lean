import TensorDag.Element.Double
import TensorDag.Graph.Operations
import TensorDag.Param.Reading

/-!
Gradient rules of the kinds that come with the library. A rule takes a node and the gradient of the
objective at that node and builds what each input contributes, with ordinary operations, so that
gradients can be executed and differentiated again.
-/
namespace TensorDag.Gradient
open Building
variable [Memory]

/-- Contributions to the inputs of a node, in order. -/
abbrev Contributions := List (Option Node)

/-- Kinds whose results do not move with their inputs. -/
def constantKinds : List Kind := [
  .binary .lt, .binary .lte, .binary .gt, .binary .gte, .binary .eq, .binary .neq, .unary .sgn,
  .argmin, .uniform]

/-- The size of an axis counted from the front or, negative, from the end. -/
def dimAt (shape : Shape) (axis : Int) : Result Nat :=
  match (place? shape.length axis).bind (shape[·]?) with
  | some dim => .ok dim
  | none => .fault .noPlace

/-- The axes that stretching to a shape has widened, from axis `axis` on; `single` says which axes
had one cell. -/
def widened (shape : Shape) : Int → List Bool → Result (List Int)
  | _, [] => .ok []
  | axis, single :: rest => do
    let here ← if single then (dimAt shape axis).map fun d => decide (d ≠ 1) else .ok false
    let others ← widened shape (axis + 1) rest
    return if here then axis :: others else others

/-- Whether some values are the dimensions of a shape. -/
def areDims (shape : Shape) (dims : List Value) : Bool :=
  dims.length = shape.length && (List.zipWith Value.isDim shape dims).all id

/-- Sum a gradient over the axes that stretching added or widened to reach its shape. -/
def unbroadcast (g : Node) (target : List Value) : Building Node := do
  if areDims g.shape target then return g
  let lead : Int := (g.shape.length : Int) - target.length
  let axes := (List.range lead.toNat).map Int.ofNat ++
    (← of (widened g.shape lead (target.map (Value.isDim 1))))
  let reduced ← if axes.isEmpty then pure g else sum g axes
  if areDims reduced.shape target then return reduced else reshape (.node reduced) (.tuple target)

def unbroadcastTo (g : Value) (x : Node) : Building Node := do
  unbroadcast (← asNode g) (x.shape.map fun (d : Nat) => .int d)

/-- The same toward a shape as callers give it. -/
def unbroadcastValue (g : Node) (shape : Value) : Building Node :=
  match shape.items? with
  | some items => unbroadcast g items
  | none => throw (.fault .notIterable)

def oneInput (n : Node) : Building Node :=
  match n.inputs with
  | [x] => return x
  | _ => throw (.fault .wrongCount)

def twoInputs (n : Node) : Building (Node × Node) :=
  match n.inputs with
  | [a, b] => return (a, b)
  | _ => throw (.fault .wrongCount)

def threeInputs (n : Node) : Building (Node × Node × Node) :=
  match n.inputs with
  | [a, b, c] => return (a, b, c)
  | _ => throw (.fault .wrongCount)

def firstInput (n : Node) : Building Node :=
  match n.inputs with
  | x :: _ => return x
  | [] => throw (.fault .noPlace)

/-- The product with a gradient, which may also be a number. -/
def times (a b : Value) : Building Node := operator .mul a b

def binaryRule (op : BinaryKind) (n : Node) (g : Value) : Building Contributions := do
  let (a, b) ← twoInputs n
  match op with
  | .add =>
    let da ← unbroadcastTo g a
    return [some da, some (← unbroadcastTo g b)]
  | .sub =>
    let da ← unbroadcastTo g a
    return [some da, some (← unbroadcastTo (.node (← negative g)) b)]
  | .mul =>
    let da ← unbroadcastTo (.node (← times g (.node b))) a
    return [some da, some (← unbroadcastTo (.node (← times g (.node a))) b)]
  | .div =>
    let da ← unbroadcastTo (.node (← operator .div g (.node b))) a
    let top ← neg (← times g (.node a))
    return [some da, some (← unbroadcastTo (.node (← div top (← mul b b))) b)]
  | .pow =>
    let left ← times g (.node b)
    let da ← mul left (← pow a (← sub b (← lift b (.int 1))))
    let scaled ← times g (.node n)
    let db ← mul scaled (← unary .log a)
    let first ← unbroadcastTo (.node da) a
    return [some first, some (← unbroadcastTo (.node db) b)]
  -- an operand of a maximum or minimum has the gradient where it is the result
  | .max | .min =>
    let da ← unbroadcastTo (.node (← times (.node (← eq a n)) g)) a
    return [some da, some (← unbroadcastTo (.node (← times (.node (← eq b n)) g)) b)]
  | _ => return n.inputs.map fun _ => none

def unaryRule (op : UnaryKind) (n : Node) (g : Value) : Building Contributions := do
  match op with
  | .neg => return [some (← negative g)]
  | .abs => return [some (← times g (.node (← unary .sgn (← firstInput n))))]
  | .sgn => return n.inputs.map fun _ => none
  | .exp => return [some (← times g (.node n))]
  | .log => return [some (← operator .div g (.node (← firstInput n)))]
  | .sqrt => return [some (← operator .div g (.node (← mul n (← lift n (.int 2)))))]

/-- Whether a parameter names an axis; only a sequence can. -/
def namesAxis (axes : Param) (axis : Nat) : Result Bool :=
  match axes with
  | .tuple items => .ok (items.any fun p => p.same (.int axis))
  | .atom (.bytes bs) => .ok (bs.any fun b => b.toNat = axis)
  | _ => .fault .notIterable

def keptDims (axes : Param) (shape : Shape) : Result Shape :=
  shape.zipIdx.mapM fun (dim, axis) => do return if ← namesAxis axes axis then 1 else dim

/-- Undo a reduction: bring back the reduced axes and stretch them. -/
def spread (g : Value) (x : Node) (kept : Shape) : Building Node := do
  broadcast (← reshape g (.dims kept)) x.shape

def sumRule (n : Node) (g : Value) : Building Contributions := do
  let x ← oneInput n
  let kept ← of (keptDims (← of (n.params.get "axes")) x.shape)
  return [some (← spread g x kept)]

/-- Every element equal to its maximum has the gradient. -/
def maxElementRule (n : Node) (g : Value) : Building Contributions := do
  let x ← oneInput n
  let kept ← of (keptDims (← of (n.params.get "axes")) x.shape)
  let peak ← spread (.node n) x kept
  let hit ← eq x peak
  return [some (← mul hit (← spread g x kept))]

def matmulRule (n : Node) (g : Value) : Building Contributions := do
  let (a, b) ← twoInputs n
  let da ← on .matmul g [.node (← transpose (.node b) .null)] []
  return [some da, some (← on .matmul (.node (← transpose (.node a) .null)) [g] [])]

/-- The last place at which an axis stands in an order; `found` where it does not. -/
def lastPlace (axis : Nat) : List Nat → Nat → Nat → Nat
  | [], _, found => found
  | head :: rest, place, found => lastPlace axis rest (place + 1) (if head = axis then place else found)

/-- For each axis its place in an order, whose items count from either end. -/
def inverse (order : List Param) : Result (List Int) := do
  let places ← order.mapM fun p => do
    match place? order.length (← p.whole) with
    | some place => return place
    | none => .fault .noPlace
  return (List.range order.length).map fun axis => (lastPlace axis places 0 0 : Int)

def transposeRule (n : Node) (g : Value) : Building Contributions := do
  let order ← of (n.params.get "order")
  return [some (← transpose g (.ints (← of (inverse (← of order.items)))))]

/-- A number combined with a dimension, as whole numbers or, if it has a fraction, as doubles. -/
def withDim (whole : Int → Int) (fraction : Double → Double) (p : Param) : Result Value :=
  match p.whole?, p with
  | some i, _ => .ok (.int (whole i))
  | none, .atom (.float x) => .ok (.float (fraction x))
  | none, _ => .fault .notNumber

def sliceRule (n : Node) (g : Value) : Building Contributions := do
  let x ← oneInput n
  let stop ← of (do (← n.params.get "stop").items)
  let after ← of ((x.shape.zip stop).mapM fun (dim, high) =>
    withDim (dim - ·) (Double.lift₂ (· - ·) (.ofNat dim)) high)
  let start ← of (n.params.get "start")
  return [some (← pad g (.ofParam start) (.list after))]

def padRule (n : Node) (g : Value) : Building Contributions := do
  let x ← oneInput n
  let before ← of (n.params.get "before")
  let lows ← of before.items
  let stop ← of ((lows.zip x.shape).mapM fun (low, dim) =>
    withDim (· + dim) (Double.lift₂ (· + ·) (.ofNat dim)) low)
  return [some (← slice g (.ofParam before) (.list stop))]

def windowOf (n : Node) : Building Window := do
  let padding ← of (n.params.get "padding")
  return ⟨.ofParam padding, .ofParam (← of (n.params.get "stride"))⟩

def convolutionRule (n : Node) (g : Value) : Building Contributions := do
  let (features, filters) ← twoInputs n
  let w ← windowOf n
  let first ← featuresGradient g (.node filters) (.dims features.shape) w
  return [some first, some (← filtersGradient g (.node features) (.dims filters.shape) w)]

def featuresGradientRule (n : Node) (g : Value) : Building Contributions := do
  let (gradient, filters) ← twoInputs n
  let w ← windowOf n
  let first ← convolution g (.node filters) w
  return [some first, some (← filtersGradient (.node gradient) g (.dims filters.shape) w)]

def filtersGradientRule (n : Node) (g : Value) : Building Contributions := do
  let (gradient, features) ← twoInputs n
  let w ← windowOf n
  let first ← convolution (.node features) g w
  return [some first, some (← featuresGradient (.node gradient) g (.dims features.shape) w)]

def maxpoolRule (n : Node) (g : Value) : Building Contributions := do
  let x ← firstInput n
  return [some (← maxpoolGradient g n x (.ofParam (← of (n.params.get "dims"))))]

/-- A number of times a dimension; of a text that many copies. -/
def multiple (dim : Nat) (p : Param) : Result Value :=
  match p with
  | .text s => .ok (.text (String.join (List.replicate dim s)))
  | .atom (.bytes bs) => .ok (.bytes (List.replicate dim bs.toList).flatten.toArray)
  | p => withDim (dim * ·) (Double.lift₂ (· * ·) (.ofNat dim)) p

/-- The gradient is gathered back from the selected place of each window; the selection itself
does not move. -/
def maxpoolGradientRule (n : Node) (g : Value) : Building Contributions := do
  let (_, pooled, features) ← threeInputs n
  let (down, right) ← of (do (← n.params.get "dims").both)
  -- the ones are given as doubles
  of (pooled.shape.room 8)
  let ones ← constant (.dims pooled.shape) (.elementType pooled.elementType)
    (.list (List.replicate (Shape.volume pooled.shape) (.int 1)))
  let selected ← times (.node (← maxpoolGradient (.node ones) pooled features
    (.tuple [.ofParam down, .ofParam right]))) g
  match pooled.shape with
  | [batch, channels, height, width] =>
    let lead : List Value := [.int batch, .int channels]
    let tiles ← of (do return [← multiple height down, ← multiple width right])
    let tiled ← if areDims (features.shape.drop 2) tiles then pure selected
      else slice (.node selected) (.tuple (List.replicate 4 (.int 0))) (.tuple (lead ++ tiles))
    let blocks ← reshape (.node tiled)
      (.tuple (lead ++ [.int height, .ofParam down, .int width, .ofParam right]))
    return [some (← sum blocks [3, 5]), none, none]
  | _ => throw (.fault .wrongCount)

/-- The sum along the last axis in every cell of that axis. -/
def lastAxisTotal (x : Node) : Building Node := do
  let total ← sum x [(x.shape.length : Int) - 1]
  broadcast (← reshape (.node total) (.dims (x.shape.dropLast ++ [1]))) x.shape

/-- From `y * (u - sum (u * y))` for a gradient `u` and an output `y` of softmax. -/
def softmaxGradientRule (n : Node) (g : Value) : Building Contributions := do
  let (u, y) ← twoInputs n
  let du ← softmaxGradient g y
  let left ← times g (.node (← sub u (← lastAxisTotal (← mul u y))))
  let right ← mul u (← lastAxisTotal (← times g (.node y)))
  return [some du, some (← sub left right)]

/-- The rule of a kind; the gradient is a node, or a number that can stand for one. -/
def standardRule (kind : Kind) (n : Node) (g : Value) : Building Contributions :=
  match kind with
  | .binary op => binaryRule op n g
  | .unary op => unaryRule op n g
  | .matmul => matmulRule n g
  | .sum => sumRule n g
  | .maxElement => maxElementRule n g
  | .reshape => do
    let x ← firstInput n
    return [some (← reshape g (.dims x.shape))]
  | .transpose => transposeRule n g
  | .slice => sliceRule n g
  | .pad => padRule n g
  | .repeated => do return [some (← on .sum g [] [entry "axes" (.ints [0])])]
  | .broadcast => do
    let x ← firstInput n
    return [some (← unbroadcastTo g x)]
  | .convolution => convolutionRule n g
  | .featuresGradient => featuresGradientRule n g
  | .filtersGradient => filtersGradientRule n g
  | .maxpool => maxpoolRule n g
  | .maxpoolGradient => maxpoolGradientRule n g
  | .softmax => do return [some (← softmaxGradient g n)]
  | .softmaxGradient => softmaxGradientRule n g
  | .argmin | .uniform => return n.inputs.map fun _ => none

end TensorDag.Gradient
