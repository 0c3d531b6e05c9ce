import TensorDag.Gradient.Rules
import TensorDag.Graph.Order

/-!
Reverse mode: a sweep from the objective to its inputs that adds up what each reader contributes to
a node. Nodes that depend on no target are passed over.
-/
namespace TensorDag.Gradient
open Building
variable [Memory]

inductive Rule
  /-- No contribution to any input, and none is asked for. -/
  | constant
  | standard (kind : Kind)
  | custom (name : String) (run : Node → Value → Building Contributions)

def Rule.run (rule : Rule) (n : Node) (g : Value) : Building Contributions :=
  match rule with
  | .constant => return n.inputs.map fun _ => none
  | .standard kind => standardRule kind n g
  | .custom _ run => run n g

/-- Rules by kind. -/
abbrev Rules := List (String × Rule)

namespace Rules

/-- The rules of the kinds that come with the library. -/
def standard : Rules := Kind.all.map fun kind =>
  (kind.name, if constantKinds.contains kind then .constant else .standard kind)

def register (rules : Rules) (kind : String) (rule : Rule) : Rules := putNamed kind rule rules

def erase (rules : Rules) (kind : String) : Rules := rules.filter fun entry => entry.1 ≠ kind

def find (rules : Rules) (kind : String) : Result Rule :=
  match rules.lookup kind with
  | some rule => .ok rule
  | none => .error (.noGradientRule kind)

def contains (rules : Rules) (kind : String) : Bool := (rules.lookup kind).isSome

def isDifferentiable (rules : Rules) (kind : String) : Bool :=
  match rules.lookup kind with
  | none | some .constant => false
  | some _ => true

def kinds (rules : Rules) : List String := (rules.map Prod.fst).mergeSort

end Rules

/-- The nodes of an order that are targets or depend on one, the last first. -/
def relevant (targets : List Node) (order : List Node) : List Node :=
  order.foldl (fun found n =>
    if n.isIn targets || n.inputs.any (·.isIn found) then n :: found else found) []

/-- Gradients of the objective found so far, by node. -/
abbrev Adjoints := List (NodeId × Node)

def accumulate (adjoints : Adjoints) (x contribution : Node) : Building Adjoints :=
  match adjoints.lookup x.id with
  | some g => do return (x.id, ← add g contribution) :: adjoints
  | none => return (x.id, contribution) :: adjoints

/-- Hand the contributions of one node to its inputs. -/
def distribute (kind : String) (found : List Node) :
    List (Node × Option Node) → Adjoints → Building Adjoints
  | [], adjoints => return adjoints
  | (_, none) :: rest, adjoints => distribute kind found rest adjoints
  | (x, some contribution) :: rest, adjoints =>
    if x.isIn found then
      if contribution.type = x.type then do
        distribute kind found rest (← accumulate adjoints x contribution)
      else throw (.shape (.contributionType kind x.name contribution.type x.type))
    else distribute kind found rest adjoints

/-- The sweep over nodes in an order in which each comes after its readers. -/
def sweep (rules : Rules) (found : List Node) : List Node → Adjoints → Building Adjoints
  | [], adjoints => return adjoints
  | n :: rest, adjoints =>
    match n.isLeaf, adjoints.lookup n.id with
    | false, some g => do
      let rule ← of (rules.find n.kind)
      if !rules.isDifferentiable n.kind then sweep rules found rest adjoints
      else
        let contributions ← rule.run n (.node g)
        if contributions.length ≠ n.inputs.length then
          throw (.contributionCount n.kind contributions.length n.inputs.length)
        sweep rules found rest
          (← distribute n.kind found (n.inputs.zip contributions) adjoints)
    | _, _ => sweep rules found rest adjoints

/-- The gradient of each target: what the sweep found, or zeros. -/
def collect (adjoints : Adjoints) : List Node → Building (List Node)
  | [] => return []
  | t :: rest => do
    let g ← match adjoints.lookup t.id with
      | some g => pure g
      | none => constant (.dims t.shape) (.elementType t.elementType) .null
    return g :: (← collect adjoints rest)

/-- Nodes computing the derivative of an objective with respect to each target. -/
def build (rules : Rules) (objective : Node) (targets : List Node) : Building (List Node) := do
  let order := Node.order [objective]
  let found := relevant targets order
  let seed ← if objective.isIn found then do
      let one ← constant (.dims objective.shape) (.elementType objective.elementType) (.int 1)
      pure [(objective.id, one)]
    else pure []
  collect (← sweep rules found order.reverse seed) targets

/-- Targets of one graph. -/
def targetNodes (graph : Nat) : List Value → Result (List Node)
  | [] => .ok []
  | .node n :: rest =>
    if n.id.graph = graph then do return n :: (← targetNodes graph rest)
    else .error (.foreignTarget n.name)
  | _ :: _ => .fault .noAttribute

/-- The gradient of a single floating-point element with respect to a node or several. -/
def ofValues (rules : Rules) (objective targets : Value) : Building (List Node) := do
  let items ← match targets with
    | .node n => pure [.node n]
    | v => match v.items? with
      | some items => pure items
      | none => throw (.fault .notIterable)
  let objective ← asNode objective
  if objective.type.volume ≠ 1 then throw (.shape (.objectiveVolume objective.type))
  if !objective.elementType.isFloating then throw (.shape (.objectiveType objective.type))
  build rules objective (← of (targetNodes objective.id.graph items))

end TensorDag.Gradient
