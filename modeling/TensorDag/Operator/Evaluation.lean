import TensorDag.Operator.Typing
import TensorDag.Tensor.Extremum
import TensorDag.Element.Int32
import TensorDag.Element.Single
import TensorDag.Element.Double

/-!
What operators compute. `Operator.polynomial?` covers the operators that only move, add, subtract
and multiply elements, over any type with these operations; `Operator.compute` covers them all.
Arguments are read one by one, so an argument that an operator does not read is not looked at.
-/
namespace TensorDag

/-- A computed tensor, in the words of the element type that it is stored as. -/
abbrev Computed := ElementType → Tensor UInt32

def Computed.of {α : Type} [Element α] (t : Tensor α) : Computed :=
  fun e => t.map (Element.toWord e)

namespace BinaryKind
variable {α : Type}

def truth [Element α] (b : Bool) : α := if b then 1 else 0

/-- The operation on two elements; comparisons answer with one and zero. -/
def apply [Element α] : BinaryKind → α → α → α
  | add => (· + ·)
  | sub => (· - ·)
  | mul => (· * ·)
  | div => Element.div
  | pow => Element.pow
  | max => Element.maximum
  | min => Element.minimum
  | lt => fun a b => truth (Element.less a b)
  | lte => fun a b => truth (Element.lessEq a b)
  | gt => fun a b => truth (Element.less b a)
  | gte => fun a b => truth (Element.lessEq b a)
  | eq => fun a b => truth (Element.equal a b)
  | neq => fun a b => truth (!Element.equal a b)

end BinaryKind

def UnaryKind.apply {α : Type} [Element α] : UnaryKind → α → α
  | neg => (- ·)
  | abs => Element.abs
  | sgn => Element.sign
  | exp => Element.exp
  | log => Element.log
  | sqrt => Element.sqrt

namespace Operator
variable {α : Type}

/-- Two arguments stretched to a common shape, cell by cell. -/
def stretched (f : α → α → α) (a b : Tensor α) : Result (Tensor α) :=
  match Shape.broadcast? a.shape b.shape with
  | some shape => .ok (Tensor.zipWith f shape a b)
  | none => .fault .doesNotStretch

/-- The product of stacks of matrices, which are stretched to one another. -/
def productOf [Zero α] [Add α] [Mul α] (a b : Tensor α) : Result (Tensor α) :=
  let stack (t : Tensor α) : Shape := t.shape.take (t.shape.length - 2)
  if a.shape = [] ∨ b.shape = [] then .fault .doesNotStretch
  else if a.shape.getLastD 1 ≠ (b.shape.drop (b.shape.length - 2)).headD 1 then
    .fault .doesNotStretch
  else
    match Shape.broadcast? (stack a) (stack b) with
    | some shape => .ok (Tensor.stackedProduct shape a b)
    | none => .fault .doesNotStretch

/-- The gradient of softmax, its two arguments stretched to one another. -/
def softmaxGradientOf [Zero α] [Add α] [Sub α] [Mul α] (g y : Tensor α) : Result (Tensor α) := do
  let weighted ← stretched (· * ·) g y
  stretched (· * ·) y (← stretched (· - ·) g weighted.lastTotal)

def fourAxes (t : Tensor α) : Result (Tensor α) :=
  if t.shape.length = 4 then .ok t else .fault .wrongCount

/-- The result of an operator that only moves, adds, subtracts and multiplies elements. -/
def polynomial? [Zero α] [Add α] [Sub α] [Mul α] [Neg α] (op : Operator) (shape : Shape)
    (arg : Nat → Result (Tensor α)) : Option (Result (Tensor α)) :=
  match op with
  | .binary .add => some do stretched (· + ·) (← arg 0) (← arg 1)
  | .binary .sub => some do stretched (· - ·) (← arg 0) (← arg 1)
  | .binary .mul => some do stretched (· * ·) (← arg 0) (← arg 1)
  | .unary .neg => some do return (← arg 0).map (- ·)
  | .matmul => some do
    let a ← arg 0
    let b ← arg 1
    if a.shape.length = 2 ∧ b.shape.length = 2 ∧ a.shape.getD 1 0 = b.shape.getD 0 0 then
      return Tensor.matmul a b
    else productOf a b
  | .sum axes => some do return (← arg 0).sum axes
  | .reshape _ => some do
    let x ← arg 0
    if Shape.volume shape = Shape.volume x.shape then return x.reshape shape
    else .fault .doesNotStretch
  | .transpose order => some do
    let x ← arg 0
    if isPermutation order x.shape.length then return x.transpose (order.map Int.toNat)
    else .fault .doesNotStretch
  | .slice start stop => some do
    return (← arg 0).slice (start.map Int.toNat) (stop.map Int.toNat)
  | .pad before after => some do
    return (← arg 0).pad (before.map Int.toNat) (after.map Int.toNat)
  | .repeated _ | .broadcast _ => some do
    let x ← arg 0
    if Shape.broadcast? x.shape shape = some shape then return x.broadcast shape
    else .fault .doesNotStretch
  | .convolution c => some do
    let x ← arg 0 >>= fourAxes
    let filters ← arg 1 >>= fourAxes
    let s ← c.shape x.shape filters.shape
    return Tensor.convolution c.windowing s x filters
  | .featuresGradient c => some do
    let g ← arg 0 >>= fourAxes
    let filters ← arg 1 >>= fourAxes
    match c.features with
    | some features => return Tensor.featuresGradient c.windowing features g filters
    | none => .fault .noParameter
  | .filtersGradient c => some do
    let g ← arg 0 >>= fourAxes
    let x ← arg 1 >>= fourAxes
    match c.filters with
    | some filters => return Tensor.filtersGradient c.windowing filters g x
    | none => .fault .noParameter
  | .softmaxGradient => some do
    let g ← arg 0
    let y ← arg 1
    if g.shape = y.shape ∧ y.shape ≠ [] then return Tensor.softmaxGradient g y
    else softmaxGradientOf g y
  | _ => none

/-- A tensor of which an extremum along some axes is to be taken; there is none of no elements. -/
def notEmptyAlong (axes : List Nat) (t : Tensor α) : Result (Tensor α) :=
  if Shape.volume (Shape.select t.shape axes) = 0 then .fault .emptyExtremum else .ok t

/-- The result of an operator on tensors of elements of one type. -/
def compute [Element α] (op : Operator) (shape : Shape) (arg : Nat → Result (Tensor α)) :
    Result Computed :=
  match op.polynomial? shape arg with
  | some result => result.map .of
  | none =>
    match op with
    | .binary kind => do return .of (← stretched kind.apply (← arg 0) (← arg 1))
    | .unary kind => do return .of ((← arg 0).map kind.apply)
    | .maxElement axes => do
      return .of ((← arg 0 >>= notEmptyAlong axes).maximum axes)
    | .argmin axis => do
      let places := (← arg 0 >>= notEmptyAlong [axis]).argmin axis
      return .of (places.map fun place => Int32.ofNat place)
    | .maxpool dims => do
      let x ← arg 0 >>= fourAxes
      return .of (x.maxpool (dims.1.toNat, dims.2.toNat))
    | .maxpoolGradient dims => do
      let g ← arg 0
      let x ← arg 2 >>= fourAxes
      return .of (Tensor.maxpoolGradient (dims.1.toNat, dims.2.toNat) g x)
    | .softmax => do
      let x ← arg 0
      return .of (← notEmptyAlong [x.shape.length - 1] x).softmax
    | _ => .fault .badParameter

/-- The result of an operator on whole elements. Only exponentials leave them before the end. -/
def computeWhole (op : Operator) (shape : Shape) (arg : Nat → Result (Tensor Int32)) :
    Result Computed :=
  match op with
  | .softmax => do
    let x ← arg 0
    return .of ((← notEmptyAlong [x.shape.length - 1] x).belowPeak.map Double.ofInt32).scaledExp
  | op => op.compute shape arg

end Operator

/-- The type that all of some types are; `none` where they differ. -/
def ElementType.common? : List ElementType → Option ElementType
  | [] => some .float32
  | e :: rest => if rest.all (· = e) then some e else none

/-- The bytes that a computed tensor becomes when it is stored as a value of a type: cast to the
element type and stretched to the shape. -/
def Computed.store (c : Computed) (type : TensorType) : Result Bytes :=
  let words := c type.elementType
  let lean := Shape.dropLeading type.rank words.shape
  if words.shape = type.shape ∨ Shape.broadcast? lean type.shape = some type.shape then
    .ok (words.fit type.shape).bytes
  else .fault .doesNotStretch

end TensorDag
