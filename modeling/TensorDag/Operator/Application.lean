import TensorDag.Memory
import TensorDag.Operator.Evaluation
import TensorDag.Param.Reading
import TensorDag.Basic
import TensorDag.Value.Contents

/-!
Operators applied to arguments. `Operator.fits` tells an operator that the rules of its kind made;
it is applied as it is. The parameters of any other node are read by `Kind.application` as far as
they go with the shapes of the arguments.
-/
namespace TensorDag
variable [Memory]

/-- An operator with its arguments, and the axes along which its result is turned around. -/
structure Application (α : Type) where
  operator : Operator
  argument : Nat → Result (Tensor α)
  turned : List Nat

namespace Param

/-- A dimension; a truth value is none. -/
def dimension : Param → Result Nat
  | .int i => if 0 ≤ i ∧ i < Shape.limit then .ok i.toNat else .fault .notAddressable
  | _ => .fault .notNumber

/-- An axis counted from either end. -/
def axisIn (rank : Nat) : Param → Result Nat
  | .int i =>
    if i < -2 ^ 63 ∨ 2 ^ 63 ≤ i then .fault .tooLarge
    else if i < -2 ^ 31 ∨ 2 ^ 31 ≤ i then .fault .badAxes
    else ((place? rank i).map .ok).getD (.fault .noAxis)
  | _ => .fault .notNumber

/-- Axes of which none is named twice. -/
def axesIn (rank : Nat) : List Param → List Nat → Result (List Nat)
  | [], found => .ok found.reverse
  | p :: rest, found => do
    let axis ← p.axisIn rank
    if found.contains axis then .fault .badAxes else axesIn rank rest (axis :: found)

/-- A number of an order of axes. -/
def ordinal : Param → Result Int
  | .int i => if -2 ^ 63 ≤ i ∧ i < 2 ^ 63 then .ok i else .fault .badAxes
  | _ => .fault .notNumber

/-- All axes in some order, null being the reversed one. -/
def orderOf (rank : Nat) (p : Param) : Result (List Nat) := do
  let places ← match p with
    | .null => .ok ((List.range rank).reverse.map Int.ofNat)
    | .int i => [Param.int i].mapM ordinal
    | p => do (← p.items).mapM ordinal
  if places.length ≠ rank then .fault .badAxes
  else axesIn rank (places.map .int) []

/-- A bound of a slice along an axis: past the end it means the end, null leaves it open. -/
def bound (dim whole : Nat) : Param → Result Nat
  | .null => .ok whole
  | p => do
    let i ← p.whole
    return if i < 0 then (i + dim).toNat else min i.toNat dim

/-- Bounds of the leading axes, in pairs; the axes behind them are whole. -/
def boundsIn : Shape → List (Param × Param) → Result (List (Nat × Nat))
  | dims, [] => .ok (dims.map fun dim => (0, dim))
  | [], _ :: _ => .fault .noPlace
  | dim :: dims, (low, high) :: rest => do
    let low ← low.bound dim 0
    let high ← high.bound dim dim
    return (low, high) :: (← boundsIn dims rest)

/-- Margins of each axis, in pairs; a single pair is for all axes. -/
def marginsIn (rank : Nat) (pairs : List (Param × Param)) : Result (List (Int × Int)) := do
  let table := Value.list (pairs.map fun (low, high) => .tuple [.ofParam low, .ofParam high])
  let extent ← table.extent
  match Value.commonType? table.flat with
  | some (.signed _) =>
    if extent.length ≠ 2 then .fault .doesNotStretch
    else
      let margins ← pairs.mapM fun (low, high) => do return (← low.whole, ← high.whole)
      if margins.any fun (low, high) => low < 0 || high < 0 then .fault .doesNotStretch
      else if margins.length = 1 then return margins.flatMap (List.replicate rank)
      else if margins.length = rank then return margins
      else .fault .doesNotStretch
  | _ => .fault (if pairs.isEmpty then .padWithoutAxes else .notNumber)

/-- A step along an axis, null being one; a negative step starts from the end. -/
def step : Param → Result Int
  | .null => .ok 1
  | p => do
    let i ← p.whole
    if i = 0 then .fault .doesNotStretch else return i

/-- A number that divides another; `none` if it has a fraction. -/
def divisor : Param → Result (Option Int)
  | .atom (.float x) => if x.double.isZero then .fault .zeroStride else .ok none
  | p => do
    let i ← p.whole
    if i = 0 then .fault .zeroStride else return some i

end Param

/-- A size to which two sizes of an axis stretch. -/
def Shape.stretched (a b : Nat) : Result Nat :=
  ((stretch? a b).map .ok).getD (.fault .doesNotStretch)

namespace Operator

/-- There is room for features with margins. -/
def roomFor (features : Shape) (padding : Int × Int) : Result Unit :=
  match features with
  | [batch, channels, height, width] =>
    Shape.room [batch, channels, height + 2 * padding.1.toNat, width + 2 * padding.2.toNat]
  | _ => .ok ()

/-- Margins that are none or more and can be counted, and steps that are one or more. -/
def windowFits (c : ConvolutionAttributes) : Bool :=
  0 ≤ c.padding.1 && c.padding.1 < Shape.limit && 0 ≤ c.padding.2 && c.padding.2 < Shape.limit &&
    1 ≤ c.stride.1 && 1 ≤ c.stride.2

/-- Whether an operator is as the rules of its kind make it, given the types of the inputs and of
the result. -/
def fits (op : Operator) (types : List TensorType) (type : TensorType) : Bool :=
  let proper : Bool := match op with
    | .sum axes | .maxElement axes =>
      decide (axes.Pairwise (· < ·)) && axes.all (· < (Kind.source types).rank)
    | .pad before _ => !before.isEmpty
    | .convolution c | .featuresGradient c | .filtersGradient c => windowFits c
    | .maxpool dims | .maxpoolGradient dims => 1 ≤ dims.1 && 1 ≤ dims.2
    | _ => true
  proper && match op.infer types with
    | .ok inferred => inferred = type
    | .error _ => false

end Operator

namespace Application
variable {α : Type}

def on (op : Operator) (x : Tensor α) : Application α := ⟨op, fun _ => .ok x, []⟩

def onTwo (op : Operator) (a b : Tensor α) : Application α :=
  ⟨op, fun place => .ok (if place = 0 then a else b), []⟩

def reduction (make : List Nat → Operator) (ps : Params) (x : Tensor α) :
    Result (Application α) := do
  let axes ← Param.axesIn x.shape.length (← (← ps.get "axes").items) []
  return on (make axes) x

/-- A tensor without axes counts as having one. -/
def argmin (axis : Param) (x : Tensor α) : Result (Application α) := do
  if axis = .null ∧ Shape.volume x.shape = 0 then .fault .emptyExtremum
  else return on (.argmin (← axis.axisIn (max 1 x.shape.length))) x

def transpose (ps : Params) (x : Tensor α) : Result (Application α) := do
  let order ← (← ps.get "order").orderOf x.shape.length
  return on (.transpose (order.map Int.ofNat)) x

/-- Two parameters gone through side by side. -/
def sideBySide (ps : Params) (first second : String) : Result (List (Param × Param)) := do
  let first ← ps.get first
  let second ← ps.get second
  return (← first.items).zip (← second.items)

def slice (pairs : List (Param × Param)) (x : Tensor α) : Result (Application α) := do
  if x.shape.length < pairs.length then .fault .noPlace
  else
    let bounds ← Param.boundsIn x.shape pairs
    return on (.slice (bounds.map fun b => (b.1 : Int)) (bounds.map fun b => (b.2 : Int))) x

def pad (pairs : List (Param × Param)) (x : Tensor α) : Result (Application α) := do
  let margins ← Param.marginsIn x.shape.length pairs
  let padded := List.zipWith (fun (dim : Nat) (m : Int × Int) => dim + m.1.toNat + m.2.toNat)
    x.shape margins
  Shape.room padded
  return on (.pad (margins.map Prod.fst) (margins.map Prod.snd)) x

/-- Attributes of the windows over features, and the axes along which they are turned around. -/
def windows (features : Shape) (window : List Param) (padding stride : Param) :
    Result (ConvolutionAttributes × List Nat) := do
  let (top, left) ← padding.both
  let (down, right) ← stride.both
  let flush : Param × Param := (.int 0, .int 0)
  let margins ← Param.marginsIn features.length [flush, flush, (top, top), (left, left)]
  let padding := ((margins.getD 2 (0, 0)).1, (margins.getD 3 (0, 0)).1)
  Operator.roomFor features padding
  match features, ← window.mapM Param.dimension with
  | [_, _, height, width], [rows, columns] =>
    if height + 2 * padding.1 < rows ∨ width + 2 * padding.2 < columns then .fault .doesNotStretch
    else
      let down ← down.step
      let right ← right.step
      let turned := (if down < 0 then [2] else []) ++ (if right < 0 then [3] else [])
      return (⟨padding, (down.natAbs, right.natAbs), none, none⟩, turned)
  | _, _ => .fault .doesNotStretch

/-- Channels that are one stretch to those of the other argument. -/
def convolution (ps : Params) (x filters : Tensor α) : Result (Application α) := do
  let padding ← ps.get "padding"
  let window := (filters.shape.drop 2).map fun (d : Nat) => Param.int d
  let (c, turned) ← windows x.shape window padding (← ps.get "stride")
  match x.shape, filters.shape with
  | batch :: channels :: field, outputs :: inputs :: window =>
    let channels ← Shape.stretched channels inputs
    return onTwo (.convolution c) ((x.fit (batch :: channels :: field)).flip turned)
      ((filters.fit (outputs :: channels :: window)).flip turned)
  | _, _ => .fault .doesNotStretch

def countWindows (size window : Nat) (padding stride : Int) : Nat :=
  (size + 2 * padding.toNat - window) / stride.toNat + 1

/-- Where there is one window, it serves all cells of the gradient. -/
def filtersGradient (ps : Params) (g x : Tensor α) : Result (Application α) := do
  let window := (← (← ps.get "filters_shape").items).drop 2
  let padding ← ps.get "padding"
  let (c, turned) ← windows x.shape window padding (← ps.get "stride")
  match x.shape, ← window.mapM Param.dimension, g.shape with
  | [batch, channels, height, width], [i, j], [gradients, outputs, rows, columns] =>
    let tall := countWindows height i c.padding.1 c.stride.1
    let wide := countWindows width j c.padding.2 c.stride.2
    let batch ← Shape.stretched batch gradients
    let rows ← Shape.stretched tall rows
    let columns ← Shape.stretched wide columns
    let stride := (if tall = 1 then 0 else c.stride.1, if wide = 1 then 0 else c.stride.2)
    return { onTwo (.filtersGradient { c with stride, filters := some [outputs, channels, i, j] })
        (g.fit [batch, outputs, rows, columns])
        ((x.fit [batch, channels, height, width]).flip turned) with turned }
  | _, _, _ => .fault .doesNotStretch

def fourItems (p : Param) : Result (Param × Param × Param × Param) := do
  match ← p.items with
  | [a, b, c, d] => return (a, b, c, d)
  | _ => .fault .wrongCount

/-- A size with margins on both sides. -/
def sizeWithin (size margin : Param) : Result (Int × Int) := do
  let size ← size.whole
  let margin ← margin.whole
  if margin < 0 ∨ size + 2 * margin < 0 then .fault .doesNotStretch else return (size, margin)

/-- The windows along an axis do not reach past its end. -/
def reaches (size window count : Nat) (stride : Int) : Result Unit :=
  if stride = 0 then .fault .doesNotStretch
  else if count ≤ 1 ∨ (0 < stride ∧ window + (count - 1) * stride ≤ size) then .ok ()
  else .fault .doesNotStretch

/-- Batches and channels that are one stretch; without a window nothing is compared. -/
def featuresGradient (ps : Params) (g filters : Tensor α) : Result (Application α) := do
  let (batch, channels, height, width) ← fourItems (← ps.get "features_shape")
  let (top, left) ← (← ps.get "padding").both
  let (down, right) ← (← ps.get "stride").both
  match g.shape, filters.shape with
  | [gradients, outputs, rows, columns], [outputs', channels', i, j] =>
    let (height, top) ← sizeWithin height top
    let (width, left) ← sizeWithin width left
    let batch ← batch.dimension
    let channels ← channels.dimension
    let tall := (height + 2 * top).toNat
    let wide := (width + 2 * left).toNat
    Shape.room [batch, channels, tall, wide]
    let make (stride : Int × Int) : Operator :=
      .featuresGradient ⟨(top, left), stride, some [batch, channels, height.toNat, width.toNat], none⟩
    if i = 0 ∨ j = 0 then return onTwo (make (1, 1)) g filters
    else
      let outputs ← Shape.stretched outputs outputs'
      let down ← down.whole
      let right ← right.whole
      reaches tall i rows down
      reaches wide j columns right
      if (gradients = batch ∨ gradients = 1) ∧ (channels' = channels ∨ channels' = 1) then
        return onTwo (make (down, right)) (g.fit [batch, outputs, rows, columns])
          (filters.fit [outputs, channels, i, j])
      else .fault .doesNotStretch
  | _, _ => .fault .wrongCount

/-- Sizes of pooling windows over features. -/
def poolDims (features : Shape) (dims : Param × Param) : Result (Int × Int) := do
  let down ← dims.1.divisor
  let right ← dims.2.divisor
  match down, right, features with
  | some down, some right, [_, _, _, _] =>
    if down < 0 ∨ right < 0 then .fault .doesNotStretch else return (down, right)
  | _, _, [_, _, _, _] => .fault .notNumber
  | _, _, _ => .fault .wrongCount

def maxpool (ps : Params) (x : Tensor α) : Result (Application α) := do
  let dims ← ps.get "dims"
  let x ← Operator.fourAxes x
  return on (.maxpool (← poolDims x.shape (← dims.both))) x

/-- The gradient is stretched to one cell for each window. -/
def maxpoolGradient (ps : Params) (g x : Tensor α) : Result (Application α) := do
  let dims ← (← ps.get "dims").both
  match (← Operator.fourAxes x).shape with
  | [batch, channels, height, width] =>
    let (down, right) ← poolDims x.shape dims
    let pooled := [batch, channels, height / down.toNat, width / right.toNat]
    match Shape.broadcast? pooled g.shape with
    | some shape =>
      if Shape.volume shape = Shape.volume pooled then
        return onTwo (.maxpoolGradient (down, right)) (g.fit pooled) x
      else .fault .doesNotStretch
    | none => .fault .doesNotStretch
  | _ => .fault .wrongCount

end Application

/-- The application that a kind makes of any parameters and arguments; the shape is that of the
result. -/
def Kind.application {α : Type} (kind : Kind) (ps : Params) (shape : Shape)
    (arg : Nat → Result (Tensor α)) : Result (Application α) :=
  match kind with
  | .binary op => .ok ⟨.binary op, arg, []⟩
  | .unary op => .ok ⟨.unary op, arg, []⟩
  | .matmul => .ok ⟨.matmul, arg, []⟩
  | .softmax => .ok ⟨.softmax, arg, []⟩
  | .softmaxGradient => .ok ⟨.softmaxGradient, arg, []⟩
  | .reshape => .ok ⟨.reshape shape, arg, []⟩
  | .repeated | .broadcast => .ok ⟨.broadcast shape, arg, []⟩
  | .sum => do Application.reduction .sum ps (← arg 0)
  | .maxElement => do Application.reduction .maxElement ps (← arg 0)
  | .argmin => do
    let axis ← ps.get "axis"
    Application.argmin axis (← arg 0)
  | .transpose => do Application.transpose ps (← arg 0)
  | .slice => do
    let pairs ← Application.sideBySide ps "start" "stop"
    Application.slice pairs (← arg 0)
  | .pad => do
    let pairs ← Application.sideBySide ps "before" "after"
    Application.pad pairs (← arg 0)
  | .convolution => do
    let x ← arg 0
    Application.convolution ps x (← arg 1)
  | .featuresGradient => do
    let g ← arg 0
    Application.featuresGradient ps g (← arg 1)
  | .filtersGradient => do
    let g ← arg 0
    Application.filtersGradient ps g (← arg 1)
  | .maxpool => do Application.maxpool ps (← arg 0)
  | .maxpoolGradient => do
    let g ← arg 0
    Application.maxpoolGradient ps g (← arg 2)
  | .uniform => .fault .badParameter

end TensorDag
