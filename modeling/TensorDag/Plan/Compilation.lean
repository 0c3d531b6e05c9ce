import TensorDag.Plan.Assignment
import TensorDag.Plan.Validation
import TensorDag.Settings

/-!
Compilation: from outputs to a plan that computes them.
-/
namespace TensorDag.Plan

/-- Nodes with their devices. -/
abbrev Devices := List (NodeId × Device)

/-- Devices of nodes; an entry for anything else has to name a device and has no effect. -/
def resolveDevices : List (Value × Value) → Result Devices
  | [] => .ok []
  | (key, v) :: rest => do
    let device ← Device.ofValue v
    let others ← resolveDevices rest
    match key with
    | .node n => return (n.id, device) :: others
    | _ => return others

def outputNodes : List Value → Result (List Node)
  | [] => .ok []
  | .node n :: rest => do return n :: (← outputNodes rest)
  | v :: _ => .error (.outputNotNode v.typeName)

/-- Outputs as callers give them, one node or several of one graph. -/
def requested (outputs : Value) : Result (List Node) := do
  let items ← match outputs with
    | .node n => .ok [.node n]
    | v => match v.items? with
      | some items => .ok items
      | none => .fault .notIterable
  if items.isEmpty then .error .noOutputs
  else
    let nodes ← outputNodes items
    match nodes with
    | [] => .error .noOutputs
    | first :: rest =>
      if rest.all fun n => n.id.graph = first.id.graph then return nodes
      else .error .severalGraphs

def compileStep (kernels : Kernels) (device : Device) (devices : Devices) (a : Assignment)
    (n : Node) : Result Step := do
  let device := (devices.lookup n.id).getD device
  return {
    node := n
    device := device
    kernel := ← kernels.find n.kind device
    inputSlots := n.inputs.map fun x => a.slotOf x
    outputSlot := a.slotOf n }

def compileSteps (kernels : Kernels) (device : Device) (devices : Devices) (a : Assignment) :
    List Node → Result (List Step)
  | [] => .ok []
  | n :: rest =>
    if n.isLeaf then compileSteps kernels device devices a rest
    else do
      let step ← compileStep kernels device devices a n
      return step :: (← compileSteps kernels device devices a rest)

/-- The plan for some outputs with given devices. -/
def ofOutputs (kernels : Kernels) (device : Device) (devices : Devices) (outputs : List Node) :
    Result Plan := do
  let order := Node.order outputs
  let a := Assignment.ofOrder order outputs
  return {
    outputs := outputs
    steps := ← compileSteps kernels device devices a order
    leaves := (order.filter Node.isLeaf).map fun n => ⟨n, a.slotOf n⟩
    slots := a.slots
    outputSlots := outputs.map fun n => a.slotOf n
    statistics := a.statistics order }

/-- The plan for outputs as callers give them. The device, or the settings' own where it is null,
is that of all nodes without one in the mapping `overrides`. -/
def compile (settings : Settings) (kernels : Kernels) (device : Value)
    (overrides : List (Value × Value)) (outputs : Value) : Result Plan := do
  let nodes ← requested outputs
  let device ← Device.ofValue (match device with | .null => settings.defaultDevice | v => v)
  let plan ← ofOutputs kernels device (← resolveDevices overrides) nodes
  if settings.validates then plan.validate
  return plan

end TensorDag.Plan
