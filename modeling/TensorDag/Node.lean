import TensorDag.Param

/-!
Nodes of operation graphs. A node holds its input nodes, so what it computes can be read off the
node alone; within a graph its index tells it apart from all others.
-/
namespace TensorDag

/-- A graph and a place in it. -/
structure NodeId where
  graph : Nat
  index : Nat
  deriving DecidableEq

structure Node where
  id : NodeId
  kind : String
  inputs : List Node
  params : Params
  type : TensorType
  /-- The value of a constant or a variable. -/
  buffer : Option BufferId

/-- The kinds of nodes without inputs that stand for given values. -/
def leafKinds : List String := ["constant", "variable", "placeholder"]

namespace Node

def name (n : Node) : String := n.kind ++ "_" ++ toString n.id.index

def isLeaf (n : Node) : Bool := leafKinds.contains n.kind

def shape (n : Node) : Shape := n.type.shape

def elementType (n : Node) : ElementType := n.type.elementType

def byteSize (n : Node) : Nat := n.type.byteSize

/-- Nodes are compared by identity. -/
def same (a b : Node) : Bool := a.id = b.id

def text (n : Node) : String :=
  "Operation(" ++ n.name ++ ", " ++ n.type.text ++ ", inputs=" ++
    bracketed (n.inputs.map name) ++ ")"

end Node
end TensorDag
