import TensorDag.Operator

/-!
Attributes as callers spell them: defaults, single numbers for pairs, negative axes and the unknown
dimension are resolved here, so that equivalent spellings give one operator.
-/
namespace TensorDag

/-- The named values of a call. -/
abbrev Entries := List (Value × Value)

namespace Entries

def get (es : Entries) (name : String) : Value := (Value.field? name es).getD .null

def getD (es : Entries) (name : String) (default : Value) : Value :=
  (Value.field? name es).getD default

end Entries

namespace Kind

def expectArity (kind : Kind) (types : List TensorType) (count : Nat) : Result Unit :=
  if types.length = count then .ok () else .shape (.arity kind.name count types.length)

def source (types : List TensorType) : TensorType := types.headD ⟨.float32, []⟩

/-- A whole number rounded to a double and back to a signed word; what fits none is the least. -/
def roundedWord (i : Int) : Int :=
  let rounded := ((Double.ofInt? i).bind Double.truncated?).getD i
  if -2 ^ 63 ≤ rounded ∧ rounded < 2 ^ 63 then rounded else -2 ^ 63

/-- A product in signed words of 64 bits, which wraps. Factors have to fit a word; where some fit
only an unsigned one and some only a signed one, they meet in doubles. -/
def wrappedProduct (factors : List Int) : Result Int :=
  let product (factors : List Int) : Int := (factors.foldl (· * ·) 1).bmod (2 ^ 64)
  if factors.any fun i => i < -2 ^ 63 || 2 ^ 64 ≤ i then .fault .tooLarge
  else if factors.any (2 ^ 63 ≤ ·) && factors.any (· < 2 ^ 63) then
    .ok (product (factors.map roundedWord))
  else .ok (product factors)

/-- The dimensions with the unknown one, written -1, filled in from the volume. -/
def fillUnknown (type : TensorType) (dims : List Int) : Result (List Int) :=
  match dims.count (-1) with
  | 0 => .ok dims
  | 1 => do
    let known ← wrappedProduct (dims.filter (· ≠ -1))
    if known = 0 ∨ Int.fmod type.volume known ≠ 0 then .shape (.unknownDimension type dims)
    else return dims.map fun d => if d = -1 then Int.fdiv type.volume known else d
  | _ => .shape .severalUnknown

def spellReshape (types : List TensorType) (es : Entries) : Result Operator := do
  match Value.field? "shape" es with
  | none => .shape (.missingParameter "reshape" "shape")
  | some v =>
    let dims ← v.integers "reshape" "shape"
    let filled ← fillUnknown (source types) dims
    return .reshape (← (Value.ints filled).shape)

def spellTranspose (types : List TensorType) (es : Entries) : Result Operator :=
  match es.get "order" with
  | .null => .ok (.transpose ((List.range (source types).rank).reverse.map Int.ofNat))
  | v => return .transpose (← v.integers "transpose" "order")

def spellSlice (es : Entries) : Result Operator := do
  let start ← (es.getD "start" (.tuple [])).integers "slice" "start"
  return .slice start (← (es.getD "stop" (.tuple [])).integers "slice" "stop")

def spellPad (types : List TensorType) (es : Entries) : Result Operator := do
  let zeros := Value.tuple (List.replicate (source types).rank (.int 0))
  let before ← (es.getD "before" zeros).integers "pad" "before"
  return .pad before (← (es.getD "after" zeros).integers "pad" "after")

def spellRepeat (es : Entries) : Result Operator :=
  let v := es.get "repetitions"
  match v.int? with
  | some i => .ok (.repeated i)
  | none => .shape (.repetitionsNotInteger v)

def spellBroadcast (es : Entries) : Result Operator :=
  match Value.field? "shape" es with
  | none => .shape (.missingParameter "broadcast" "shape")
  | some v => return .broadcast (← v.shape)

/-- An axis counted from the front, for an axis counted from either end. -/
def resolveAxis (rank : Nat) (axis : Int) : Result Nat :=
  if -(rank : Int) ≤ axis ∧ axis < rank then .ok (axis % rank).toNat
  else .shape (.axisOutOfRange axis rank)

def resolveAxes (name : String) (rank : Nat) : List Value → Result (List Nat)
  | [] => .ok []
  | v :: rest =>
    match v.int? with
    | none => .shape (.axisNotInteger name v)
    | some i => do
      let axis ← resolveAxis rank i
      return axis :: (← resolveAxes name rank rest)

/-- The axes of a reduction in increasing order; all of them where none are given. -/
def spellAxes (name : String) (types : List TensorType) (es : Entries) : Result (List Nat) :=
  let rank := (source types).rank
  match es.get "axes" with
  | .null => .ok (List.range rank)
  | v =>
    match v.asSequence.items? with
    | none => .fault .notIterable
    | some items => do
      let axes ← resolveAxes name rank items
      if axes.Nodup then return (List.range rank).filter axes.contains
      else .shape (.axesRepeated name items)

def spellArgmin (types : List TensorType) (es : Entries) : Result Operator :=
  let v := es.get "axis"
  match v.int? with
  | none => .shape (.argminAxis v)
  | some i => return .argmin (← resolveAxis (source types).rank i)

def spellShape? (es : Entries) (name : String) : Result (Option Shape) :=
  match Value.field? name es with
  | none => .ok none
  | some v => return some (← v.shape)

def spellConvolution (name : String) (es : Entries) : Result ConvolutionAttributes := do
  let padding ← (es.getD "padding" (.int 0)).pair name "padding" 0
  let stride ← (es.getD "stride" (.int 1)).pair name "stride" 1
  let features ← spellShape? es "features_shape"
  return ⟨padding, stride, features, ← spellShape? es "filters_shape"⟩

def spellPool (name : String) (es : Entries) : Result (Int × Int) :=
  match Value.field? "dims" es with
  | none => .shape (.missingParameter name "dims")
  | some v => v.pair name "dims" 1

def spellUniform (es : Entries) : Result Operator := do
  let v := es.get "seed"
  match v.int? with
  | some i =>
    if i < 0 then .shape (.seed v)
    else return .uniform (← (es.getD "shape" (.tuple [])).shape) i.toNat
  | none => .shape (.seed v)

/-- The number of inputs that a kind checks before it reads its attributes; `none` for a kind
without attributes. -/
def arity? : Kind → Option Nat
  | .binary _ | .unary _ | .matmul | .softmax | .softmaxGradient => none
  | .convolution | .featuresGradient | .filtersGradient => some 2
  | .maxpoolGradient => some 3
  | .uniform => some 0
  | _ => some 1

/-- The operator that a call with some entries means. -/
def spell (kind : Kind) (types : List TensorType) (es : Entries) : Result Operator :=
  match kind with
  | .binary op => .ok (.binary op)
  | .unary op => .ok (.unary op)
  | .matmul => .ok .matmul
  | .softmax => .ok .softmax
  | .softmaxGradient => .ok .softmaxGradient
  | .sum => return .sum (← spellAxes kind.name types es)
  | .maxElement => return .maxElement (← spellAxes kind.name types es)
  | .argmin => spellArgmin types es
  | .reshape => spellReshape types es
  | .transpose => spellTranspose types es
  | .slice => spellSlice es
  | .pad => spellPad types es
  | .repeated => spellRepeat es
  | .broadcast => spellBroadcast es
  | .convolution => return .convolution (← spellConvolution kind.name es)
  | .featuresGradient => return .featuresGradient (← spellConvolution kind.name es)
  | .filtersGradient => return .filtersGradient (← spellConvolution kind.name es)
  | .maxpool => return .maxpool (← spellPool kind.name es)
  | .maxpoolGradient => return .maxpoolGradient (← spellPool kind.name es)
  | .uniform => spellUniform es

/-- The parameters of a node made by a call: the attributes of its kind, or, for a kind without
attributes, whatever the call names. -/
def normalize (kind : Kind) (types : List TensorType) (es : Entries) : Result Params :=
  match kind.arity? with
  | none => Value.params es
  | some count => do
    kind.expectArity types count
    return (← kind.spell types es).params

end Kind
end TensorDag
