import TensorDag.Value.Printer

/-!
Why a shape, a parameter or a combination of input types is refused, and how messages put it.
-/
namespace TensorDag

inductive ShapeFault
  | dimensionNotInteger (dim shape : Value)
  | dimensionNegative (dims : List Value)
  | arity (kind : String) (expected got : Nat)
  | elementCount (type : TensorType) (got : Nat)
  | notIntegers (kind name : String) (value : Value)
  | missingParameter (kind name : String)
  | missingShape (kind name : String)
  | severalUnknown
  | unknownDimension (type : TensorType) (dims : List Int)
  | volumes (type : TensorType) (target : Shape)
  | notPermutation (order : List Int) (type : TensorType)
  | sliceRank (type : TensorType)
  | sliceBounds (low high : Int) (dim : Nat)
  | padRank (type : TensorType)
  | padNegative
  | repetitionsNotInteger (value : Value)
  | noRepetition
  | cannotStretch (type : TensorType) (target : Shape)
  | incompatible (a b : List Value)
  | operandTypes (kind : String) (a b : ElementType)
  | matrixRank (a b : TensorType)
  | innerDimensions (a b : TensorType)
  | matrixTypes (a b : TensorType)
  | axisNotInteger (kind : String) (axis : Value)
  | axisOutOfRange (axis : Int) (rank : Nat)
  | axesRepeated (kind : String) (axes : List Value)
  | argminAxis (axis : Value)
  | notPair (kind name : String) (value : Value)
  | pairBelow (kind name : String) (minimum first second : Int)
  | convolutionRank (features filters : List Value)
  | channels (features filters : Value)
  | filtersDoNotFit (filters features : List Value) (padding : Value)
  | inputTypes (kind : String) (types : List TensorType)
  | featuresGradient (gradient : TensorType) (features : Shape) (filters : TensorType)
  | filtersGradient (gradient features : TensorType) (filters : Shape)
  | transposedRank (features filters : Value)
  | poolRank (features : List Value)
  | poolWindow (dims : Value) (features : List Value)
  | poolGradient (gradient pooled features : TensorType)
  | softmaxRank
  | softmaxType (type : TensorType)
  | softmaxGradient (gradient output : TensorType)
  | seed (value : Value)
  | objectiveVolume (type : TensorType)
  | objectiveType (type : TensorType)
  | contributionType (kind input : String) (got expected : TensorType)

namespace ShapeFault

def listed (vs : List Value) : String := (Value.list vs).shown

def tupled (is : List Int) : String := parenthesized (is.map toString)

/-- A name as messages set it off. -/
def code (s : String) : String := "`" ++ s ++ "`"

def message : ShapeFault → String
  | dimensionNotInteger dim shape =>
    "Shape dimensions must be integers, got " ++ dim.shown ++ " in " ++ shape.shown ++ "."
  | dimensionNegative dims =>
    "Shape dimensions must be non-negative, got " ++ (Value.tuple dims).shown ++ "."
  | arity kind expected got =>
    code kind ++ " expects " ++ toString expected ++ " input(s), got " ++ toString got ++ "."
  | elementCount type got =>
    type.text ++ " needs " ++ toString type.volume ++ " elements, data has " ++ toString got ++ "."
  | notIntegers kind name value =>
    code kind ++ " expects " ++ code name ++ " to be a sequence of ints, got " ++ value.shown ++ "."
  | missingParameter kind name => code kind ++ " requires a " ++ code name ++ " parameter."
  | missingShape kind name => code kind ++ " requires " ++ code name ++ "."
  | severalUnknown => code "reshape" ++ " accepts at most one -1 dimension."
  | unknownDimension type dims => "Cannot reshape " ++ type.text ++ " to " ++ tupled dims ++ "."
  | volumes type target =>
    "Cannot reshape " ++ type.text ++ " to " ++ Shape.text target ++ ": volumes differ."
  | notPermutation order type =>
    tupled order ++ " is not a permutation of the axes of " ++ type.text ++ "."
  | sliceRank type => code "slice" ++ " needs one start/stop per axis of " ++ type.text ++ "."
  | sliceBounds low high dim =>
    "Invalid slice [" ++ toString low ++ ":" ++ toString high ++ "] for an axis of size " ++
      toString dim ++ "."
  | padRank type => code "pad" ++ " needs one before/after entry per axis of " ++ type.text ++ "."
  | padNegative => "Padding amounts must be non-negative."
  | repetitionsNotInteger value =>
    code "repeat" ++ " expects an integer " ++ code "repetitions" ++ ", got " ++ value.shown ++ "."
  | noRepetition => code "repeat" ++ " needs at least one repetition."
  | cannotStretch type target =>
    "Cannot broadcast " ++ type.text ++ " to " ++ Shape.text target ++ "."
  | incompatible a b =>
    "Shapes " ++ listed a ++ " and " ++ listed b ++ " cannot be broadcast together."
  | operandTypes kind a b =>
    code kind ++ " operands differ in element type: " ++ a.name ++ " vs " ++ b.name ++ "."
  | matrixRank a b =>
    code "matmul" ++ " needs two matrices, got " ++ a.text ++ " and " ++ b.text ++ "."
  | innerDimensions a b => "Inner dimensions do not match: " ++ a.text ++ " @ " ++ b.text ++ "."
  | matrixTypes a b =>
    code "matmul" ++ " operands differ in element type: " ++ a.text ++ " @ " ++ b.text ++ "."
  | axisNotInteger kind axis => code kind ++ " axes must be integers, got " ++ axis.shown ++ "."
  | axisOutOfRange axis rank =>
    "Axis " ++ toString axis ++ " is out of range for rank " ++ toString rank ++ "."
  | axesRepeated kind axes =>
    code kind ++ " axes must be unique, got " ++ (Value.tuple axes).shown ++ "."
  | argminAxis axis => code "argmin" ++ " needs an integer axis, got " ++ axis.shown ++ "."
  | notPair kind name value =>
    code kind ++ " expects " ++ code name ++ " to be an int or a pair of ints, got " ++
      value.shown ++ "."
  | pairBelow kind name minimum first second =>
    code kind ++ " requires " ++ code name ++ " >= " ++ toString minimum ++ ", got " ++
      tupled [first, second] ++ "."
  | convolutionRank features filters =>
    "Convolution needs rank-4 features and filters, got " ++ listed features ++ " and " ++
      listed filters ++ "."
  | channels features filters =>
    "Features have " ++ features.plain ++ " channels but filters expect " ++ filters.plain ++ "."
  | filtersDoNotFit filters features padding =>
    "Filters " ++ listed filters ++ " do not fit features " ++ listed features ++
      " with padding " ++ padding.plain ++ "."
  | inputTypes kind types =>
    code kind ++ " inputs differ in element type: " ++
      bracketed (types.map fun type => Text.quote type.text) ++ "."
  | featuresGradient gradient features filters =>
    "Gradient " ++ gradient.text ++ " does not match a convolution of " ++ Shape.text features ++
      " with " ++ filters.text ++ "."
  | filtersGradient gradient features filters =>
    "Gradient " ++ gradient.text ++ " does not match a convolution of " ++ features.text ++
      " with " ++ Shape.text filters ++ "."
  | transposedRank features filters =>
    code "convolution_transpose" ++ " needs rank-4 operands, got " ++ features.plain ++ " and " ++
      filters.plain ++ "."
  | poolRank features => "Max pooling needs rank-4 features, got " ++ listed features ++ "."
  | poolWindow dims features =>
    "Pool window " ++ dims.plain ++ " is larger than features " ++ listed features ++ "."
  | poolGradient gradient pooled features =>
    code "maxpool_grad" ++ " inputs are inconsistent: grad " ++ gradient.text ++ ", pooled " ++
      pooled.text ++ ", features " ++ features.text ++ "."
  | softmaxRank => code "softmax" ++ " needs at least one axis."
  | softmaxType type => code "softmax" ++ " needs a floating-point input, got " ++ type.text ++ "."
  | softmaxGradient gradient output =>
    code "softmax_grad" ++ " inputs differ: " ++ gradient.text ++ " vs " ++ output.text ++ "."
  | seed value => code "uniform" ++ " needs a non-negative integer seed, got " ++ value.shown ++ "."
  | objectiveVolume type =>
    "Objective must contain exactly one element, got " ++ type.text ++ "."
  | objectiveType type => "Objective must be floating-point, got " ++ type.text ++ "."
  | contributionType kind input got expected =>
    "Gradient of " ++ code kind ++ " for " ++ code input ++ " is " ++ got.text ++ ", expected " ++
      expected.text ++ "."

end ShapeFault
end TensorDag
