import TensorDag.Error.Plan

/-!
Everything that can go wrong. `Error.category` sorts the causes, `Error.message?` words those that
this library finds itself; what a number, an array or a caller's own rule refuses has no wording.
-/
namespace TensorDag

inductive Category
  | shape
  | value
  | type
  | overflow
  | index
  | key
  | attribute
  | division
  | runtime
  | unsupported
  | unboundPlaceholder
  | bufferSize
  | axis
  | syntaxError
  | memory
  /-- Only a caller's function refuses with this one. -/
  | arrayMemory
  deriving DecidableEq

/-- Causes without a wording of their own. -/
inductive Fault
  /-- A value that cannot be gone through. -/
  | notIterable
  /-- A value that is no number. -/
  | notNumber
  /-- A text that writes no number. -/
  | notNumeral
  /-- An undefined number where a whole one is needed. -/
  | undefinedNumber
  /-- A number too large for its place. -/
  | tooLarge
  /-- Nested lists of unequal lengths. -/
  | ragged
  /-- A number that is no byte. -/
  | notByte
  /-- A value that cannot be compared with another. -/
  | notComparable
  /-- A value that is no mapping of names. -/
  | notMapping
  /-- A value that can be no key of a mapping. -/
  | noKey
  /-- Arguments that do not match the parameters of a function. -/
  | badArguments
  /-- A value that does not name the attributes asked of it. -/
  | noAttribute
  /-- A number of values other than the one that was needed. -/
  | wrongCount
  /-- A stride of zero. -/
  | zeroStride
  /-- A place past the end of a list. -/
  | noPlace
  /-- A slot that holds nothing. -/
  | emptySlot
  /-- A parameter that a node lacks. -/
  | noParameter
  /-- A parameter of a form that its kind does not have. -/
  | badParameter
  /-- An extremum over no elements. -/
  | emptyExtremum
  /-- Padding of a tensor without axes. -/
  | padWithoutAxes
  /-- A result that does not stretch to the type it is stored as. -/
  | doesNotStretch
  /-- A write into a buffer that is read-only. -/
  | writeProtected
  /-- A text that is not written as it has to be. -/
  | malformed
  /-- Lists nested more deeply than arrays have axes. -/
  | tooDeep
  /-- An axis that a tensor lacks. -/
  | noAxis
  /-- Axes that are no axes of one tensor: one named twice, or too many. -/
  | badAxes
  /-- A seed below zero. -/
  | negativeSeed
  /-- A shape with more axes, or more cells, than a tensor can have. -/
  | notAddressable
  /-- A shape with more axes than can be stretched. -/
  | tooManyAxes
  /-- More bytes than can be had. -/
  | noMemory
  /-- A refusal by a rule or kernel that a caller supplied. -/
  | refused (category : Category)

def Fault.category : Fault → Category
  | .notIterable | .notNumber | .notComparable | .notMapping | .noKey | .badArguments | .badParameter
  | .padWithoutAxes => .type
  | .notNumeral | .undefinedNumber | .ragged | .wrongCount | .emptyExtremum | .doesNotStretch
  | .writeProtected | .tooDeep | .notAddressable | .notByte | .badAxes
  | .negativeSeed => .value
  | .tooLarge => .overflow
  | .noAttribute => .attribute
  | .zeroStride => .division
  | .noPlace => .index
  | .emptySlot | .noParameter => .key
  | .malformed => .syntaxError
  | .noAxis => .axis
  | .tooManyAxes => .runtime
  | .noMemory => .memory
  | .refused category => category

inductive Error
  | shape (fault : ShapeFault)
  | plan (fault : PlanFault)
  | fault (fault : Fault)
  | unknownElementType (value : Value)
  | unsupportedElementType (value : Value)
  | negativeSize
  | sizeMismatch (expected got : Nat)
  | readOnly
  | leafBuffer (type : TensorType) (size : Nat)
  | leafBytes (type : TensorType) (size : Nat)
  | reservedKind (kind : String)
  | unknownKind (kind : String)
  | notHashable (value : Value)
  | inputNotNode (kind type : String)
  | noOperand (kind : String)
  | foreignNode (node : String)
  | foreignTarget (node : String)
  | noBuffer (node : String)
  | noGradientRule (kind : String)
  | contributionCount (kind : String) (got expected : Nat)
  | unknownDevice (value : Value)
  | noKernel (device kind : String)
  | noOutputs
  | outputNotNode (type : String)
  | severalGraphs
  | notLeaf (value : Value)
  | bindingSize (node : String) (type : TensorType) (size : Nat)
  | unbound (node : String) (type : TensorType)
  | outputCount (expected got : Nat)
  | outputSize (node : String) (expected got : Nat)

namespace Error

def category : Error → Category
  | .shape _ => .shape
  | .fault cause => cause.category
  | .sizeMismatch .. | .leafBuffer .. | .leafBytes .. | .bindingSize .. | .outputSize .. =>
    .bufferSize
  | .unknownKind _ | .noGradientRule _ | .noKernel .. => .unsupported
  | .unbound .. => .unboundPlaceholder
  | .notHashable _ | .inputNotNode .. | .noOperand _ | .outputNotNode _ => .type
  | .plan _ | .unknownElementType _ | .unsupportedElementType _ | .negativeSize | .readOnly
  | .reservedKind _ | .foreignNode _ | .foreignTarget _ | .noBuffer _ | .contributionCount ..
  | .unknownDevice _ | .noOutputs | .severalGraphs | .notLeaf _ | .outputCount .. => .value

open ShapeFault (code) in
def message? : Error → Option String
  | .shape cause => some cause.message
  | .plan cause => some cause.message
  | .fault _ => none
  | .unknownElementType value => some ("Unknown element type: " ++ value.shown)
  | .unsupportedElementType value => some ("Unsupported element type: " ++ value.shown)
  | .negativeSize => some "Buffer size must be non-negative."
  | .sizeMismatch expected got =>
    some ("Expected " ++ toString expected ++ " bytes, got " ++ toString got ++ ".")
  | .readOnly => some "Cannot write to a read-only buffer."
  | .leafBuffer type size =>
    some (type.text ++ " needs " ++ toString type.byteSize ++ " bytes, buffer holds " ++
      toString size ++ ".")
  | .leafBytes type size =>
    some (type.text ++ " needs " ++ toString type.byteSize ++ " bytes, got " ++ toString size ++ ".")
  | .reservedKind kind => some (code kind ++ " is reserved for leaf operations.")
  | .unknownKind kind =>
    some ("No operation definition registered for kind " ++ code kind ++ ".")
  | .notHashable value =>
    some ("Operation parameter " ++ value.shown ++ " is not hashable.")
  | .inputNotNode kind type =>
    some (code kind ++ " inputs must be Operations, got " ++ type ++ ".")
  | .noOperand kind => some (code kind ++ " needs at least one Operation operand.")
  | .foreignNode node => some (code node ++ " belongs to a different graph.")
  | .foreignTarget node =>
    some (code node ++ " belongs to a different graph than the objective.")
  | .noBuffer node => some (code node ++ " has no attached buffer.")
  | .noGradientRule kind =>
    some ("No gradient rule registered for operation kind " ++ code kind ++ ".")
  | .contributionCount kind got expected =>
    some ("Gradient rule for " ++ code kind ++ " returned " ++ toString got ++ " entries for " ++
      toString expected ++ " inputs.")
  | .unknownDevice value => some ("Unknown device: " ++ value.shown)
  | .noKernel device kind =>
    some ("No " ++ device ++ " kernel registered for operation kind " ++ code kind ++ ".")
  | .noOutputs => some "At least one output is required."
  | .outputNotNode type => some ("Outputs must be Operations, got " ++ type ++ ".")
  | .severalGraphs => some "All outputs must belong to the same graph."
  | .notLeaf value => some ("Only leaf operations can be bound, got " ++ value.shown ++ ".")
  | .bindingSize node type size =>
    some (code node ++ " is " ++ type.text ++ " (" ++ toString type.byteSize ++
      " bytes), bound buffer holds " ++ toString size ++ ".")
  | .unbound node type =>
    some ("Placeholder " ++ code node ++ " (" ++ type.text ++ ") is not bound.")
  | .outputCount expected got =>
    some ("Expected " ++ toString expected ++ " output buffers, got " ++ toString got ++ ".")
  | .outputSize node expected got =>
    some ("Output " ++ code node ++ " needs " ++ toString expected ++
      " bytes, supplied buffer holds " ++ toString got ++ ".")

end Error

/-- Results that may be errors. -/
abbrev Result (α : Type) := Except Error α

def Result.fault {α : Type} (fault : Fault) : Result α := .error (.fault fault)

def Result.shape {α : Type} (fault : ShapeFault) : Result α := .error (.shape fault)

end TensorDag
