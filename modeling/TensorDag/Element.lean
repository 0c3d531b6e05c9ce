import TensorDag.TensorType

/-!
What kernels need of the elements of a tensor: arithmetic, order and their words in a buffer. One
class serves all elements, so that every kernel is written once.
-/
namespace TensorDag

class Element (α : Type) extends Zero α, One α, Add α, Sub α, Mul α, Neg α where
  /-- The element that a word of a type stands for. -/
  ofWord : ElementType → UInt32 → α
  /-- The word of a type that an element becomes. -/
  toWord : ElementType → α → UInt32
  div : α → α → α
  pow : α → α → α
  maximum : α → α → α
  minimum : α → α → α
  less : α → α → Bool
  lessEq : α → α → Bool
  equal : α → α → Bool
  /-- No number: it differs from itself. -/
  isUndefined : α → Bool
  abs : α → α
  sign : α → α
  exp : α → α
  log : α → α
  sqrt : α → α

end TensorDag
