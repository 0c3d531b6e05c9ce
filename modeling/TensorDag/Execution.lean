import TensorDag.Plan
import TensorDag.Buffer.Access
import TensorDag.Execution.Storage
import TensorDag.Execution.Profile

/-!
Execution of plans. Bindings and supplied outputs are checked first; then leaves and slots get
their buffers, the steps run in order, and the outputs are collected. However the steps end, leaf
and output slots are emptied, so that only scratch buffers stay with the plan.
-/
namespace TensorDag
variable [Memory]

/-- What an execution reads and changes: all buffers and streams, and the storage and profile of
the plan. -/
structure Execution.State where
  store : Store
  streams : Streams
  storage : Storage
  profile : Profile

/-- A part of an execution; what it changed before it fails stays changed. -/
abbrev Execution (α : Type) := EStateM Error Execution.State α

/-- Buffers bound to leaves. -/
abbrev Bindings := List (NodeId × BufferId)

namespace Execution

def of {α : Type} (result : Result α) : Execution α :=
  match result with
  | .ok a => pure a
  | .error e => throw e

def allocate (b : Buffer) : Execution BufferId := do
  let s ← get
  let (id, store) := s.store.insert b
  set { s with store }
  return id

def allocateZeros (size : Int) : Execution BufferId :=
  if size < 0 then throw .negativeSize
  else do allocate (Buffer.ofBytes (← of (Bytes.cleared size.toNat)))

def put (slot : Int) (id : BufferId) : Execution Unit :=
  modify fun s => { s with storage := s.storage.put slot id }

def held (slot : Int) : Execution BufferId := do
  match (← get).storage.get? slot with
  | some id => return id
  | none => throw (.fault .emptySlot)

def write (id : BufferId) (bytes : Bytes) : Execution Unit := do
  let s ← get
  let store ← of (s.store.write id bytes)
  set { s with store }

/-- The buffer that a value stands for when it is bound to a leaf: itself, or a new one. -/
def boundBuffer (n : Node) (v : Value) : Execution BufferId :=
  match v with
  | .buffer id _ => return id
  | v => do allocate (Buffer.ofBytes (← of (v.elementBytes n.elementType)))

/-- Bind values to leaves, in order; leaves that the plan does not use are checked and passed over. -/
def bindAll (p : Plan) : List (Value × Value) → Bindings → Execution Bindings
  | [], bound => return bound
  | (.node n, v) :: rest, bound => do
    if !n.isLeaf then throw (.notLeaf (.node n))
    let id ← boundBuffer n v
    let size := ((← get).store.get id).size
    if size ≠ n.byteSize then throw (.bindingSize n.name n.type size)
    bindAll p rest (if n.isIn (p.leaves.map LeafSlot.node) then (n.id, id) :: bound else bound)
  | (key, _) :: _, _ => throw (.notLeaf key)

/-- Every placeholder is bound. -/
def checkBound (bound : Bindings) : List LeafSlot → Result Unit
  | [] => .ok ()
  | leaf :: rest =>
    if leaf.node.kind = "placeholder" ∧ (bound.lookup leaf.node.id).isNone then
      .error (.unbound leaf.node.name leaf.node.type)
    else checkBound bound rest

/-- Buffers of the sizes of the outputs that they are supplied for. -/
def buffersFor (store : Store) : List (Node × Value) → Result (List BufferId)
  | [] => .ok []
  | (n, .buffer id _) :: rest =>
    if (store.get id).size ≠ n.byteSize then
      .error (.outputSize n.name n.byteSize (store.get id).size)
    else do return id :: (← buffersFor store rest)
  | _ :: _ => .fault .noAttribute

/-- The supplied buffers, if any: one for each output. -/
def suppliedBuffers (p : Plan) (store : Store) :
    Option (List Value) → Result (Option (List BufferId))
  | none => .ok none
  | some vs =>
    if vs.length ≠ p.outputs.length then .error (.outputCount p.outputs.length vs.length)
    else (buffersFor store (p.outputs.zip vs)).map some

/-- Put the buffer of a leaf, bound or its own, into its slot. -/
def putLeaf (bound : Bindings) (leaf : LeafSlot) : Execution Unit :=
  match (bound.lookup leaf.node.id).or leaf.node.buffer with
  | some id => put leaf.slot id
  | none => return ()

/-- An output slot gets a new buffer, a scratch slot only if it has none. -/
def prepareSlot (slot : Slot) : Execution Unit := do
  match slot.role with
  | .output => put slot.index (← allocateZeros slot.size)
  | .scratch =>
    if !(← get).storage.has slot.index then put slot.index (← allocateZeros slot.size)
  | _ => return ()

/-- Put supplied buffers into the slots of interior outputs; of one slot the first output counts. -/
def claim : List ((Node × Int) × BufferId) → List Int → Execution Unit
  | [], _ => return ()
  | ((n, slot), id) :: rest, claimed =>
    if n.isLeaf || claimed.contains slot then claim rest claimed
    else do
      put slot id
      claim rest (slot :: claimed)

def prepare (p : Plan) (bound : Bindings) (supplied : Option (List BufferId)) :
    Execution Unit := do
  p.leaves.forM (putLeaf bound)
  p.slots.forM prepareSlot
  claim ((p.outputs.zip p.outputSlots).zip (supplied.getD [])) []

/-- Run the kernel of a step on what its slots hold. -/
def runStep (profiled : Bool) (step : Step) : Execution Unit := do
  let args ← step.inputSlots.mapM held
  let output ← held step.outputSlot
  let s ← get
  let (result, streams) := step.kernel.run step.node
    (args.map fun id => (s.store.get id).bytes) (s.store.get output) s.streams
  set { s with streams }
  match ← of result with
  | some bytes => modify fun s => { s with store := s.store.overwrite output bytes }
  | none => pure ()
  if profiled then
    modify fun s => { s with profile := s.profile.recordKernel step.node.kind .zero }

/-- The buffer of an output. A leaf, or a slot seen before, is copied: into the supplied buffer or
into a new one. -/
def collectOne (n : Node) (slot : Int) (target : Option BufferId) (seen : List Int) :
    Execution BufferId := do
  let id ← held slot
  if n.isLeaf || seen.contains slot then
    let bytes := ((← get).store.get id).bytes
    match target with
    | some target =>
      write target bytes
      return target
    | none => allocate (Buffer.ofBytes bytes)
  else return id

def collect : List ((Node × Int) × Option BufferId) → List Int → Execution (List BufferId)
  | [], _ => return []
  | ((n, slot), target) :: rest, seen => do
    let id ← collectOne n slot target seen
    return id :: (← collect rest (slot :: seen))

/-- Places for the outputs: supplied buffers, or none. -/
def targets (p : Plan) : Option (List BufferId) → List (Option BufferId)
  | some ids => ids.map some
  | none => p.outputs.map fun _ => none

/-- Run all steps, collect the outputs and record the execution. -/
def runSteps (profiled : Bool) (p : Plan) (supplied : Option (List BufferId)) :
    Execution (List BufferId) := do
  p.steps.forM (runStep profiled)
  let ids ← collect ((p.outputs.zip p.outputSlots).zip (targets p supplied)) []
  modify fun s =>
    { s with profile := (s.profile.recordMemory (s.storage.byteSize s.store)).recordExecution }
  return ids

def discard (p : Plan) (s : State) : State :=
  let leaves := p.leaves.map LeafSlot.slot
  let outputs := (p.slots.filter fun slot => slot.role = .output).map Slot.index
  { s with storage := (leaves ++ outputs).foldl Storage.erase s.storage }

/-- Do something and discard what the caller owns, however it ends. -/
def discarding {α : Type} (p : Plan) (body : Execution α) : Execution α := fun s =>
  match body s with
  | .ok a s => .ok a (discard p s)
  | .error e s => .error e (discard p s)

/-- Execute a plan with bindings of leaves and, if any, supplied output buffers. -/
def run (profiled : Bool) (p : Plan) (bindings : List (Value × Value))
    (supplied : Option (List Value)) : Execution (List BufferId) := do
  let bound ← bindAll p bindings []
  of (checkBound bound p.leaves)
  let supplied ← of (suppliedBuffers p (← get).store supplied)
  prepare p bound supplied
  discarding p (runSteps profiled p supplied)

end Execution
end TensorDag
