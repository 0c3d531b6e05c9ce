import TensorDag.Kernel
import TensorDag.Graph.Order

/-!
Plans: the steps that compute some outputs, and the slots of storage that hold values meanwhile.
A plan is plain data. One that was compiled has the properties that `Plan.validate` checks; one that
was edited may lack them.
-/
namespace TensorDag

/-- What a slot is for. -/
inductive Role
  /-- Holds a leaf, bound anew for every execution. -/
  | leaf
  /-- Belongs to the plan and is used again. -/
  | scratch
  /-- Holds an output, new for every execution or supplied by the caller. -/
  | output
  /-- No role that an execution knows. -/
  | other (name : String)
  deriving DecidableEq

namespace Role

def name : Role → String
  | .leaf => "leaf"
  | .scratch => "scratch"
  | .output => "output"
  | .other name => name

def ofName (name : String) : Role :=
  if name = "leaf" then .leaf
  else if name = "scratch" then .scratch
  else if name = "output" then .output
  else .other name

def isKnown : Role → Bool
  | .other _ => false
  | _ => true

end Role

/-- A slot of storage. Its index and size are as a plan claims them. -/
structure Slot where
  index : Int
  size : Int
  role : Role
  deriving DecidableEq

/-- A leaf and the slot that it is put into. -/
structure LeafSlot where
  node : Node
  slot : Int

/-- One run of a kernel. -/
structure Step where
  node : Node
  device : Device
  kernel : Kernel
  inputSlots : List Int
  outputSlot : Int

/-- What the assignment of slots came to. -/
structure Statistics where
  order : List String
  steps : Nat
  slots : Nat
  scratchSlots : Nat
  reusedSlots : Nat
  scratchBytes : Nat
  peakLiveBytes : Nat
  deriving DecidableEq

structure Plan where
  outputs : List Node
  steps : List Step
  leaves : List LeafSlot
  slots : List Slot
  outputSlots : List Int
  statistics : Statistics

namespace Plan

def placeholders (p : Plan) : List Node :=
  (p.leaves.map LeafSlot.node).filter fun n => n.kind = "placeholder"

/-- How often each of some names occurs, in order of first occurrence. -/
def tally (names : List String) : List (String × Nat) :=
  names.foldl (fun counts name => putNamed name ((counts.lookup name).getD 0 + 1) counts) []

def stepsPerDevice (p : Plan) : List (String × Nat) := tally (p.steps.map (·.device.name))

def stepsPerKind (p : Plan) : List (String × Nat) := tally (p.steps.map (·.node.kind))

end Plan
end TensorDag
