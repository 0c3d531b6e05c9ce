import TensorDag.Graph

/-!
Building: steps that may fail and that keep, when they fail, the nodes made before. The state is
one graph, the shape rules in force and the store of buffers.
-/
namespace TensorDag

structure Workspace where
  rules : ShapeRules
  graph : Graph
  store : Store

abbrev Building (α : Type) := EStateM Error Workspace α

namespace Building

def of {α : Type} (result : Result α) : Building α :=
  match result with
  | .ok a => pure a
  | .error e => throw e

/-- A leaf of the given type with data of its own. -/
def constant [Memory] (shape elementType data : Value) : Building Node := do
  let type ← of (TensorType.ofValues elementType shape)
  let bytes ← of (leafBytes type data)
  let w ← get
  let key := MemoKey.constant type bytes
  match w.graph.find? key with
  | some n => return n
  | none =>
    let (id, store) := w.store.insert ⟨bytes, true⟩
    let (n, graph) := w.graph.append "constant" [] [] type (some id)
    set { w with graph := graph.remember key n, store }
    return n

/-- A leaf whose data may change. -/
def variableOf [Memory] (shape elementType data : Value) : Building Node := do
  let type ← of (TensorType.ofValues elementType shape)
  let bytes ← of (leafBytes type data)
  let w ← get
  let (id, store) := w.store.insert (Buffer.ofBytes bytes)
  let (n, graph) := w.graph.append "variable" [] [] type (some id)
  set { w with graph, store }
  return n

/-- A leaf whose data is given when a plan is executed. -/
def placeholder (shape elementType : Value) : Building Node := do
  let type ← of (TensorType.ofValues elementType shape)
  let w ← get
  let (n, graph) := w.graph.append "placeholder" [] [] type none
  set { w with graph }
  return n

/-- An interior node, from inputs and parameters as callers give them. -/
def call (kind : String) (inputs : List Value) (params : Value) : Building Node := do
  let w ← get
  let (n, graph) ← of (w.graph.apply w.rules kind inputs params.entries)
  set { w with graph }
  return n

/-- An interior node with inputs that are nodes. -/
def apply (kind : Kind) (inputs : List Node) (entries : Entries) : Building Node := do
  let w ← get
  let (n, graph) ← of (w.graph.apply w.rules kind.name (inputs.map .node) (.ok entries))
  set { w with graph }
  return n

/-- A rank-zero constant of a node's element type. -/
def lift [Memory] (n : Node) (v : Value) : Building Node :=
  constant (.tuple []) (.elementType n.elementType) v

end Building
end TensorDag
