import TensorDag.Value.Freeze

/-!
Orders of nodes: dependencies first, and who reads whom.
-/
namespace TensorDag.Node

-- Sums start from the numeral zero.
attribute [local instance (high)] Zero.ofOfNat0

def isIn (n : Node) (nodes : List Node) : Bool := nodes.any n.same

/-- A node on the way down and those of its inputs that are still to be visited. -/
structure Frame where
  node : Node
  pending : List Node

/-- The nodes that a traversal has entered and those that it has left, the last one first. -/
structure Traversal where
  entered : List Node
  left : List Node

theorem sizeOf_inputs_lt (n : Node) : sizeOf n.inputs < sizeOf n := by
  cases n
  simp
  omega

/-- Leave the nodes of a path, the innermost first; a node is left once all its inputs are. -/
def traverse (path : List Frame) (t : Traversal) : Traversal :=
  match path with
  | [] => t
  | ⟨n, []⟩ :: path => traverse path { t with left := n :: t.left }
  | ⟨n, x :: pending⟩ :: path =>
    if x.isIn t.entered then traverse (⟨n, pending⟩ :: path) t
    else traverse (⟨x, x.inputs⟩ :: ⟨n, pending⟩ :: path) { t with entered := x :: t.entered }
termination_by (path.map fun frame => 1 + sizeOf frame.pending).sum
decreasing_by
  · simp
  · simp only [List.map_cons, List.sum_cons, List.cons.sizeOf_spec]
    omega
  · have inner := sizeOf_inputs_lt x
    simp only [List.map_cons, List.sum_cons, List.cons.sizeOf_spec]
    omega

def visit (t : Traversal) (n : Node) : Traversal :=
  if n.isIn t.entered then t
  else traverse [⟨n, n.inputs⟩] { t with entered := n :: t.entered }

/-- The nodes that some outputs need, each after its inputs: outputs in order, inputs from the left. -/
def order (outputs : List Node) : List Node := (outputs.foldl visit ⟨[], []⟩).left.reverse

/-- The readers of a node in an order, one for each time that it is read. -/
def readers (order : List Node) (n : Node) : List Node :=
  order.flatMap fun user => (user.inputs.filter n.same).map fun _ => user

/-- Nodes without repeats, each at its first place. -/
def distinct : List Node → List Node
  | [] => []
  | n :: rest => n :: (distinct rest).filter fun m => !m.same n

def consumers (order : List Node) : List (Node × List Node) :=
  (distinct order).map fun n => (n, readers order n)

/-- A node; nothing else has the attributes of one, and some values cannot even be looked up. -/
def ofValue (v : Value) : Result Node :=
  match v with
  | .node n => .ok n
  | v => if v.isKey then .fault .noAttribute else .fault .noKey

def listOf (v : Value) : Result (List Node) :=
  match v.items? with
  | none => .fault .notIterable
  | some items => items.mapM ofValue

/-- The nodes of a sequence whose items are all looked up before they are used. -/
def orderOf (v : Value) : Result (List Node) :=
  match v.items? with
  | none => .fault .notIterable
  | some items => if Value.areKeys items then items.mapM ofValue else .fault .noKey

end TensorDag.Node
