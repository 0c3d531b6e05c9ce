import TensorDag.Value.Freeze
import TensorDag.Value.Numbers
import TensorDag.Tensor.Convolution

/-!
The operators of the library: a kind together with its attributes. `Operator.params` writes the
attributes as parameters of a node, `Operator.ofParams` reads them back.
-/
namespace TensorDag

inductive BinaryKind
  | add | sub | mul | div | pow | max | min
  | lt | lte | gt | gte | eq | neq
  deriving DecidableEq

inductive UnaryKind
  | neg | abs | sgn | exp | log | sqrt
  deriving DecidableEq

/-- The kinds that come with the library. -/
inductive Kind
  | binary (op : BinaryKind)
  | unary (op : UnaryKind)
  | matmul
  | sum
  | maxElement
  | argmin
  | reshape
  | transpose
  | slice
  | pad
  | repeated
  | broadcast
  | convolution
  | featuresGradient
  | filtersGradient
  | maxpool
  | maxpoolGradient
  | softmax
  | softmaxGradient
  | uniform
  deriving DecidableEq

def BinaryKind.name : BinaryKind → String
  | add => "add" | sub => "sub" | mul => "mul" | div => "div" | pow => "pow" | max => "max"
  | min => "min" | lt => "lt" | lte => "lte" | gt => "gt" | gte => "gte" | eq => "eq" | neq => "neq"

def UnaryKind.name : UnaryKind → String
  | neg => "neg" | abs => "abs" | sgn => "sgn" | exp => "exp" | log => "log" | sqrt => "sqrt"

namespace Kind

def name : Kind → String
  | binary op => op.name
  | unary op => op.name
  | matmul => "matmul"
  | sum => "sum"
  | maxElement => "max_element"
  | argmin => "argmin"
  | reshape => "reshape"
  | transpose => "transpose"
  | slice => "slice"
  | pad => "pad"
  | repeated => "repeat"
  | broadcast => "broadcast"
  | convolution => "convolution"
  | featuresGradient => "convolution_features_grad"
  | filtersGradient => "convolution_filters_grad"
  | maxpool => "maxpool"
  | maxpoolGradient => "maxpool_grad"
  | softmax => "softmax"
  | softmaxGradient => "softmax_grad"
  | uniform => "uniform"

def all : List Kind := [
  .binary .add, .binary .sub, .binary .mul, .binary .div, .binary .pow, .binary .max, .binary .min,
  .binary .lt, .binary .lte, .binary .gt, .binary .gte, .binary .eq, .binary .neq,
  .unary .neg, .unary .abs, .unary .sgn, .unary .exp, .unary .log, .unary .sqrt,
  .matmul, .sum, .maxElement, .argmin, .reshape, .transpose, .slice, .pad, .repeated, .broadcast,
  .convolution, .featuresGradient, .filtersGradient, .maxpool, .maxpoolGradient, .softmax,
  .softmaxGradient, .uniform]

def ofName? (name : String) : Option Kind := all.find? fun kind => kind.name = name

theorem ofName?_name (kind : Kind) : ofName? kind.name = some kind := by
  cases kind with
  | binary op => cases op <;> decide
  | unary op => cases op <;> decide
  | _ => decide

theorem name_injective {a b : Kind} (same : a.name = b.name) : a = b := by
  have found := ofName?_name a
  rw [same, ofName?_name b] at found
  exact (Option.some.inj found).symm

end Kind

/-- Attributes of the three convolution kinds. Each may carry shapes that it has no use for. -/
structure ConvolutionAttributes where
  padding : Int × Int
  stride : Int × Int
  features : Option Shape
  filters : Option Shape
  deriving DecidableEq

def ConvolutionAttributes.windowing (c : ConvolutionAttributes) : Windowing :=
  ⟨(c.padding.1.toNat, c.padding.2.toNat), (c.stride.1.toNat, c.stride.2.toNat)⟩

/-- A kind with its attributes. -/
inductive Operator
  | binary (op : BinaryKind)
  | unary (op : UnaryKind)
  | matmul
  | sum (axes : List Nat)
  | maxElement (axes : List Nat)
  | argmin (axis : Nat)
  | reshape (shape : Shape)
  | transpose (order : List Int)
  | slice (start stop : List Int)
  | pad (before after : List Int)
  | repeated (count : Int)
  | broadcast (shape : Shape)
  | convolution (attributes : ConvolutionAttributes)
  | featuresGradient (attributes : ConvolutionAttributes)
  | filtersGradient (attributes : ConvolutionAttributes)
  | maxpool (dims : Int × Int)
  | maxpoolGradient (dims : Int × Int)
  | softmax
  | softmaxGradient
  | uniform (shape : Shape) (seed : Nat)
  deriving DecidableEq

/-- An operator's kind. -/
def Operator.kind : Operator → Kind
  | .binary op => .binary op
  | .unary op => .unary op
  | .matmul => .matmul
  | .sum _ => .sum
  | .maxElement _ => .maxElement
  | .argmin _ => .argmin
  | .reshape _ => .reshape
  | .transpose _ => .transpose
  | .slice _ _ => .slice
  | .pad _ _ => .pad
  | .repeated _ => .repeated
  | .broadcast _ => .broadcast
  | .convolution _ => .convolution
  | .featuresGradient _ => .featuresGradient
  | .filtersGradient _ => .filtersGradient
  | .maxpool _ => .maxpool
  | .maxpoolGradient _ => .maxpoolGradient
  | .softmax => .softmax
  | .softmaxGradient => .softmaxGradient
  | .uniform _ _ => .uniform

namespace Param

def ints? : Param → Option (List Int)
  | .tuple items => items.mapM fun p => match p with | .int i => some i | _ => none
  | _ => none

/-- Numbers of a tuple, none of them negative. -/
def dims? (p : Param) : Option (List Nat) := do
  let is ← p.ints?
  is.mapM fun i => if 0 ≤ i then some i.toNat else none

def pair? (p : Param) : Option (Int × Int) :=
  match p.ints? with
  | some [first, second] => some (first, second)
  | _ => none

def int? : Param → Option Int
  | .int i => some i
  | _ => none

def nat? (p : Param) : Option Nat := p.int?.bind fun i => if 0 ≤ i then some i.toNat else none

def ofPair (p : Int × Int) : Param := ints [p.1, p.2]

end Param

namespace Params

/-- A parameter that a kind needs, in the form that it needs. -/
def need {α : Type} (ps : Params) (name : String) (read : Param → Option α) : Result α :=
  match ps.find? name with
  | none => .fault .noParameter
  | some p => ((read p).map .ok).getD (.fault .badParameter)

/-- A parameter that may be absent. -/
def want {α : Type} (ps : Params) (name : String) (read : Param → Option α) : Result (Option α) :=
  match ps.find? name with
  | none => .ok none
  | some p => ((read p).map fun a => .ok (some a)).getD (.fault .badParameter)

end Params

def ConvolutionAttributes.params (c : ConvolutionAttributes) : Params :=
  [("padding", .ofPair c.padding), ("stride", .ofPair c.stride)] ++
    (c.features.map fun s => ("features_shape", Param.dims s)).toList ++
    (c.filters.map fun s => ("filters_shape", Param.dims s)).toList

def ConvolutionAttributes.ofParams (ps : Params) : Result ConvolutionAttributes := do
  return {
    padding := ← ps.need "padding" Param.pair?
    stride := ← ps.need "stride" Param.pair?
    features := ← ps.want "features_shape" Param.dims?
    filters := ← ps.want "filters_shape" Param.dims? }

namespace Operator

/-- The attributes as parameters of a node. -/
def params : Operator → Params
  | .binary _ | .unary _ | .matmul | .softmax | .softmaxGradient => []
  | .sum axes | .maxElement axes => [("axes", .dims axes)]
  | .argmin axis => [("axis", .int axis)]
  | .reshape shape | .broadcast shape => [("shape", .dims shape)]
  | .transpose order => [("order", .ints order)]
  | .slice start stop => [("start", .ints start), ("stop", .ints stop)]
  | .pad before after => [("before", .ints before), ("after", .ints after)]
  | .repeated count => [("repetitions", .int count)]
  | .convolution c | .featuresGradient c | .filtersGradient c => c.params
  | .maxpool dims | .maxpoolGradient dims => [("dims", .ofPair dims)]
  | .uniform shape seed => [("shape", .dims shape), ("seed", .int seed)]

/-- The operator of a kind with the attributes that some parameters name. -/
def ofParams (kind : Kind) (ps : Params) : Result Operator :=
  match kind with
  | .binary op => .ok (.binary op)
  | .unary op => .ok (.unary op)
  | .matmul => .ok .matmul
  | .softmax => .ok .softmax
  | .softmaxGradient => .ok .softmaxGradient
  | .sum => return .sum (← ps.need "axes" Param.dims?)
  | .maxElement => return .maxElement (← ps.need "axes" Param.dims?)
  | .argmin => return .argmin (← ps.need "axis" Param.nat?)
  | .reshape => return .reshape (← ps.need "shape" Param.dims?)
  | .broadcast => return .broadcast (← ps.need "shape" Param.dims?)
  | .transpose => return .transpose (← ps.need "order" Param.ints?)
  | .slice => return .slice (← ps.need "start" Param.ints?) (← ps.need "stop" Param.ints?)
  | .pad => return .pad (← ps.need "before" Param.ints?) (← ps.need "after" Param.ints?)
  | .repeated => return .repeated (← ps.need "repetitions" Param.int?)
  | .convolution => return .convolution (← ConvolutionAttributes.ofParams ps)
  | .featuresGradient => return .featuresGradient (← ConvolutionAttributes.ofParams ps)
  | .filtersGradient => return .filtersGradient (← ConvolutionAttributes.ofParams ps)
  | .maxpool => return .maxpool (← ps.need "dims" Param.pair?)
  | .maxpoolGradient => return .maxpoolGradient (← ps.need "dims" Param.pair?)
  | .uniform => return .uniform (← ps.need "shape" Param.dims?) (← ps.need "seed" Param.nat?)

end Operator
end TensorDag
