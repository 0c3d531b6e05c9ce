import TensorDag.Graph.Operations
import TensorDag.Operator.Dimensions

/-!
Calls by name: the functions that build nodes or answer with a shape, with the names and defaults of
their parameters.
-/
namespace TensorDag

/-- A parameter of a function and, if it may be left out, its default. -/
structure Parameter where
  name : String
  default : Option Value

/-- A function of values: what it takes and what it does. -/
structure Callable (α : Type) where
  parameters : List Parameter
  run : List Value → α

namespace Callable
variable {α : Type}

/-- The value of a parameter that no argument by position gives. -/
def fill (named : List (String × Value)) (p : Parameter) : Result Value :=
  match (named.lookup p.name).or p.default with
  | some v => .ok v
  | none => .fault .badArguments

/-- Arguments by position and by name in the order of the parameters, defaults filled in. -/
def arguments (f : Callable α) (args : List Value) (named : List (String × Value)) :
    Result (List Value) :=
  let others := f.parameters.drop args.length
  if f.parameters.length < args.length then .fault .badArguments
  else if named.all fun (name, _) => others.any fun p => p.name = name then do
    return args ++ (← others.mapM (fill named))
  else .fault .badArguments

end Callable

namespace Calls
open Building (entry on)

def needed (name : String) : Parameter := ⟨name, none⟩

def optional (name : String) : Parameter := ⟨name, some .null⟩

def windowParameters : List Parameter := [⟨"padding", some (.int 0)⟩, ⟨"stride", some (.int 1)⟩]

/-- A call of a kind: some parameters are inputs, the others attributes under given names. -/
def ofKind (kind : Kind) (inputs : List String) (attributes : List (Parameter × String)) :
    Callable (Building Node) where
  parameters := inputs.map needed ++ attributes.map Prod.fst
  run values :=
    let entries := List.zipWith (fun (_, name) v => entry name v) attributes
      (values.drop inputs.length)
    match values.take inputs.length with
    | [] => throw (.fault .badArguments)
    | first :: others => on kind first others entries

/-- Attributes that go by the names of their parameters. -/
def plainly (ps : List Parameter) : List (Parameter × String) := ps.map fun p => (p, p.name)

def elementwise [Memory] (op : BinaryKind) : Callable (Building Node) where
  parameters := [needed "lhs", needed "rhs"]
  run
    | [a, b] => Building.elementwise op a b
    | _ => throw (.fault .badArguments)

def transposedConvolution : Callable (Building Node) where
  parameters := [needed "features", needed "filters"] ++ windowParameters
  run
    | [features, filters, padding, stride] =>
      Building.convolutionTranspose features filters padding stride
    | _ => throw (.fault .badArguments)

def uniform : Callable (Building Node) where
  parameters := [needed "shape", needed "seed"]
  run
    | [shape, seed] => Building.uniform shape seed
    | _ => throw (.fault .badArguments)

/-- The functions that build nodes. -/
def builder? [Memory] (name : String) : Option (Callable (Building Node)) :=
  let window := plainly windowParameters
  match name with
  | "matmul" => some (ofKind .matmul ["lhs", "rhs"] [])
  | "sum" => some (ofKind .sum ["x"] (plainly [optional "axes"]))
  | "max_element" => some (ofKind .maxElement ["x"] (plainly [optional "axes"]))
  | "argmin" => some (ofKind .argmin ["x"] (plainly [needed "axis"]))
  | "reshape" => some (ofKind .reshape ["x"] (plainly [needed "shape"]))
  | "transpose" => some (ofKind .transpose ["x"] (plainly [optional "order"]))
  | "slice" => some (ofKind .slice ["x"] (plainly [needed "start", needed "stop"]))
  | "pad" => some (ofKind .pad ["x"] (plainly [needed "before", needed "after"]))
  | "repeat" => some (ofKind .repeated ["x"] (plainly [needed "repetitions"]))
  | "broadcast_to" => some (ofKind .broadcast ["x"] (plainly [needed "shape"]))
  | "convolution" => some (ofKind .convolution ["features", "filters"] window)
  | "convolution_features_grad" =>
    some (ofKind .featuresGradient ["parent_grad", "filters"]
      (plainly [needed "features_shape"] ++ window))
  | "convolution_filters_grad" =>
    some (ofKind .filtersGradient ["parent_grad", "features"]
      (plainly [needed "filters_shape"] ++ window))
  | "convolution_transpose" => some transposedConvolution
  | "maxpool" => some (ofKind .maxpool ["features"] (plainly [needed "dims"]))
  | "maxpool_grad" =>
    some (ofKind .maxpoolGradient ["parent_grad", "pooled", "features"] (plainly [needed "dims"]))
  | "softmax" => some (ofKind .softmax ["x"] [])
  | "softmax_grad" => some (ofKind .softmaxGradient ["parent_grad", "output"] [])
  | "uniform" => some uniform
  | name =>
    match Kind.ofName? name with
    | some (.binary op) => some (elementwise op)
    | some (.unary op) => some (ofKind (.unary op) ["x"] [])
    | _ => none

/-- The same as methods of a node, which is the first input. -/
def method? (name : String) : Option (Node → Callable (Building Node)) :=
  let of (kind : Kind) (inputs : List String) (attributes : List Parameter) (n : Node) :
      Callable (Building Node) :=
    let f := ofKind kind ("" :: inputs) (plainly attributes)
    ⟨f.parameters.drop 1, fun values => f.run (.node n :: values)⟩
  match name with
  | "reshape" => some (of .reshape [] [needed "shape"])
  | "transpose" => some (of .transpose [] [optional "order"])
  | "sum" => some (of .sum [] [optional "axes"])
  | "broadcast_to" => some (of .broadcast [] [needed "shape"])
  | "matmul" => some (of .matmul ["other"] [])
  | _ => none

/-- The functions that answer with a shape. -/
def dimensions? (name : String) : Option (Callable (Result (List Int))) :=
  match name with
  | "broadcast_shapes" => some ⟨[needed "lhs", needed "rhs"], fun values =>
    match values with
    | [a, b] => a.broadcastShape b
    | _ => .fault .badArguments⟩
  | "conv_output_shape" => some ⟨["features", "filters", "padding", "stride"].map needed, fun values =>
    match values with
    | [features, filters, padding, stride] => features.convolutionShape filters padding stride
    | _ => .fault .badArguments⟩
  | "pool_output_shape" => some ⟨[needed "features", needed "dims"], fun values =>
    match values with
    | [features, dims] => features.poolShape dims
    | _ => .fault .badArguments⟩
  | _ => none

end Calls
end TensorDag
