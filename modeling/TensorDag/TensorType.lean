import TensorDag.Shape

/-!
Element types and tensor types. Every element takes four bytes.
-/
namespace TensorDag

inductive ElementType
  | float32
  | int32
  deriving DecidableEq

namespace ElementType

def name : ElementType → String
  | .float32 => "float32"
  | .int32 => "int32"

/-- Bytes of one element. -/
def size (_ : ElementType) : Nat := 4

def isFloating : ElementType → Bool
  | .float32 => true
  | .int32 => false

end ElementType

/-- Items between brackets. -/
def bracketed (items : List String) : String := "[" ++ ", ".intercalate items ++ "]"

/-- Items between parentheses; a single one is followed by a comma. -/
def parenthesized : List String → String
  | [item] => "(" ++ item ++ ",)"
  | items => "(" ++ ", ".intercalate items ++ ")"

def Shape.text (s : Shape) : String := bracketed (s.map toString)

structure TensorType where
  elementType : ElementType
  shape : Shape
  deriving DecidableEq

namespace TensorType

def rank (t : TensorType) : Nat := t.shape.length

def volume (t : TensorType) : Nat := Shape.volume t.shape

def byteSize (t : TensorType) : Nat := t.volume * t.elementType.size

def text (t : TensorType) : String := t.elementType.name ++ Shape.text t.shape

end TensorType
end TensorDag
