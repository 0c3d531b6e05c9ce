import TensorDag.Operator.Spelling

/-!
The type that an operator gives to inputs of given types, or why it refuses them.
-/
namespace TensorDag

/-- The shape to which two shapes stretch, or why there is none; shapes that can be counted are
refused for their axes before they are compared. -/
def Shape.common (a b : Shape) (refusal : ShapeFault) : Result Shape :=
  if a.addressable && b.addressable && maxStretched < max a.length b.length then
    .fault .tooManyAxes
  else ((broadcast? a b).map .ok).getD (.shape refusal)

def Shape.broadcast (a b : Shape) : Result Shape :=
  Shape.common a b (.incompatible a.wholes b.wholes)

/-- The shape of a convolution, by its padding and stride. -/
def convolutionShape (features filters : List Int) (padding stride : Int × Int) :
    Result (List Int) :=
  match features, filters with
  | [batch, channels, height, width], [outputs, inputs, rows, columns] =>
    if channels ≠ inputs then .shape (.channels (.int channels) (.int inputs))
    else if stride.1 = 0 ∨ stride.2 = 0 then .fault .zeroStride
    else
      let tall := height + 2 * padding.1
      let wide := width + 2 * padding.2
      let outHeight := Int.fdiv (tall - rows) stride.1 + 1
      let outWidth := Int.fdiv (wide - columns) stride.2 + 1
      if tall < rows ∨ wide < columns ∨ outHeight < 1 ∨ outWidth < 1 then
        .shape (.filtersDoNotFit (filters.map .int) (features.map .int) (.ofPair padding))
      else .ok [batch, outputs, outHeight, outWidth]
  | _, _ => .shape (.convolutionRank (features.map .int) (filters.map .int))

/-- The shape of pooled features. -/
def poolShape (features : List Int) (dims : Int × Int) : Result (List Int) :=
  match features with
  | [batch, channels, height, width] =>
    if dims.1 = 0 ∨ dims.2 = 0 then .fault .zeroStride
    else
      let outHeight := Int.fdiv height dims.1
      let outWidth := Int.fdiv width dims.2
      if outHeight < 1 ∨ outWidth < 1 then .shape (.poolWindow (.ofPair dims) (features.map .int))
      else .ok [batch, channels, outHeight, outWidth]
  | _ => .shape (.poolRank (features.map .int))

namespace ConvolutionAttributes

def shape (c : ConvolutionAttributes) (features filters : Shape) : Result Shape := do
  let s ← convolutionShape (features.map Int.ofNat) (filters.map Int.ofNat) c.padding c.stride
  return s.map Int.toNat

end ConvolutionAttributes

def pooledShape (dims : Int × Int) (features : Shape) : Result Shape := do
  let s ← poolShape (features.map Int.ofNat) dims
  return s.map Int.toNat

namespace Operator

def one (types : List TensorType) : Result TensorType :=
  match types with
  | [t] => .ok t
  | _ => .fault .wrongCount

def two (types : List TensorType) : Result (TensorType × TensorType) :=
  match types with
  | [a, b] => .ok (a, b)
  | _ => .fault .wrongCount

def three (types : List TensorType) : Result (TensorType × TensorType × TensorType) :=
  match types with
  | [a, b, c] => .ok (a, b, c)
  | _ => .fault .wrongCount

def inferBinary (op : BinaryKind) (types : List TensorType) : Result TensorType := do
  Kind.expectArity (.binary op) types 2
  let (a, b) ← two types
  if a.elementType ≠ b.elementType then .shape (.operandTypes op.name a.elementType b.elementType)
  else return ⟨a.elementType, ← Shape.broadcast a.shape b.shape⟩

def inferUnary (op : UnaryKind) (types : List TensorType) : Result TensorType := do
  Kind.expectArity (.unary op) types 1
  one types

def inferMatmul (types : List TensorType) : Result TensorType := do
  Kind.expectArity .matmul types 2
  let (a, b) ← two types
  match a.shape, b.shape with
  | [rows, inner], [inner', columns] =>
    if inner ≠ inner' then .shape (.innerDimensions a b)
    else if a.elementType ≠ b.elementType then .shape (.matrixTypes a b)
    else return ⟨a.elementType, [rows, columns]⟩
  | _, _ => .shape (.matrixRank a b)

def inferReduction (axes : List Nat) (types : List TensorType) : Result TensorType := do
  let t ← one types
  return ⟨t.elementType, Shape.keep t.shape axes⟩

def inferArgmin (axis : Nat) (types : List TensorType) : Result TensorType := do
  let t ← one types
  if axis < t.rank then return ⟨.int32, Shape.replace t.shape axis 1⟩
  else .fault .noPlace

def inferReshape (shape : Shape) (types : List TensorType) : Result TensorType := do
  let t ← one types
  if Shape.volume shape ≠ t.volume then .shape (.volumes t shape)
  else return ⟨t.elementType, shape⟩

/-- Whether a list names each axis of a rank once. -/
def isPermutation (order : List Int) (rank : Nat) : Bool :=
  order.length = rank && (List.range rank).all fun axis => order.contains axis

def inferTranspose (order : List Int) (types : List TensorType) : Result TensorType := do
  let t ← one types
  if !isPermutation order t.rank then .shape (.notPermutation order t)
  else return ⟨t.elementType, order.map fun axis => t.shape.getD axis.toNat 0⟩

/-- Bounds of a slice along each axis. -/
def sliceDims : List Int → List Int → Shape → Result Shape
  | low :: lows, high :: highs, dim :: dims =>
    if 0 ≤ low ∧ low < high ∧ high ≤ dim then do
      return (high - low).toNat :: (← sliceDims lows highs dims)
    else .shape (.sliceBounds low high dim)
  | _, _, _ => .ok []

def inferSlice (start stop : List Int) (types : List TensorType) : Result TensorType := do
  let t ← one types
  if start.length ≠ t.rank ∨ stop.length ≠ t.rank then .shape (.sliceRank t)
  else return ⟨t.elementType, ← sliceDims start stop t.shape⟩

def inferPad (before after : List Int) (types : List TensorType) : Result TensorType := do
  let t ← one types
  if before.length ≠ t.rank ∨ after.length ≠ t.rank then .shape (.padRank t)
  else if before.any (· < 0) || after.any (· < 0) then .shape .padNegative
  else
    return ⟨t.elementType, List.zipWith (· + ·)
      (List.zipWith (· + ·) (before.map Int.toNat) t.shape) (after.map Int.toNat)⟩

def inferRepeated (count : Int) (types : List TensorType) : Result TensorType := do
  let t ← one types
  if count < 1 then .shape .noRepetition else return ⟨t.elementType, count.toNat :: t.shape⟩

def inferBroadcast (shape : Shape) (types : List TensorType) : Result TensorType := do
  let t ← one types
  if (← Shape.common t.shape shape (.cannotStretch t shape)) = shape then
    return ⟨t.elementType, shape⟩
  else .shape (.cannotStretch t shape)

/-- All inputs of a kind hold elements of one type. -/
def sameElementType (kind : Kind) (types : List TensorType) : Result Unit :=
  if types.all fun t => t.elementType = (Kind.source types).elementType then .ok ()
  else .shape (.inputTypes kind.name types)

def inferConvolution (c : ConvolutionAttributes) (types : List TensorType) :
    Result TensorType := do
  let (features, filters) ← two types
  sameElementType .convolution types
  return ⟨features.elementType, ← c.shape features.shape filters.shape⟩

def inferFeaturesGradient (c : ConvolutionAttributes) (types : List TensorType) :
    Result TensorType := do
  let (gradient, filters) ← two types
  sameElementType .featuresGradient types
  match c.features with
  | none => .shape (.missingShape Kind.featuresGradient.name "features_shape")
  | some features =>
    if gradient.shape ≠ (← c.shape features filters.shape) then
      .shape (.featuresGradient gradient features filters)
    else return ⟨gradient.elementType, features⟩

def inferFiltersGradient (c : ConvolutionAttributes) (types : List TensorType) :
    Result TensorType := do
  let (gradient, features) ← two types
  sameElementType .filtersGradient types
  match c.filters with
  | none => .shape (.missingShape Kind.filtersGradient.name "filters_shape")
  | some filters =>
    if gradient.shape ≠ (← c.shape features.shape filters) then
      .shape (.filtersGradient gradient features filters)
    else return ⟨gradient.elementType, filters⟩

def inferMaxpool (dims : Int × Int) (types : List TensorType) : Result TensorType := do
  let features ← one types
  return ⟨features.elementType, ← pooledShape dims features.shape⟩

def inferMaxpoolGradient (dims : Int × Int) (types : List TensorType) : Result TensorType := do
  let (gradient, pooled, features) ← three types
  sameElementType .maxpoolGradient types
  let expected ← pooledShape dims features.shape
  if pooled.shape ≠ expected ∨ gradient.shape ≠ pooled.shape then
    .shape (.poolGradient gradient pooled features)
  else return features

def inferSoftmax (types : List TensorType) : Result TensorType := do
  Kind.expectArity .softmax types 1
  let t ← one types
  if t.rank < 1 then .shape .softmaxRank
  else if !t.elementType.isFloating then .shape (.softmaxType t)
  else return t

def inferSoftmaxGradient (types : List TensorType) : Result TensorType := do
  Kind.expectArity .softmaxGradient types 2
  let (gradient, output) ← two types
  if gradient ≠ output then .shape (.softmaxGradient gradient output) else return output

/-- The type of the result. -/
def infer (op : Operator) (types : List TensorType) : Result TensorType :=
  match op with
  | .binary op => inferBinary op types
  | .unary op => inferUnary op types
  | .matmul => inferMatmul types
  | .sum axes | .maxElement axes => inferReduction axes types
  | .argmin axis => inferArgmin axis types
  | .reshape shape => inferReshape shape types
  | .transpose order => inferTranspose order types
  | .slice start stop => inferSlice start stop types
  | .pad before after => inferPad before after types
  | .repeated count => inferRepeated count types
  | .broadcast shape => inferBroadcast shape types
  | .convolution c => inferConvolution c types
  | .featuresGradient c => inferFeaturesGradient c types
  | .filtersGradient c => inferFiltersGradient c types
  | .maxpool dims => inferMaxpool dims types
  | .maxpoolGradient dims => inferMaxpoolGradient dims types
  | .softmax => inferSoftmax types
  | .softmaxGradient => inferSoftmaxGradient types
  | .uniform shape _ => .ok ⟨.float32, shape⟩

end Operator

/-- The type that a kind gives to inputs, its attributes read from parameters. -/
def Kind.infer (kind : Kind) (types : List TensorType) (ps : Params) : Result TensorType := do
  (← Operator.ofParams kind ps).infer types

end TensorDag
