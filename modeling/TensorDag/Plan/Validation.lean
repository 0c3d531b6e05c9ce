import TensorDag.Plan

/-!
Validation of plans: slot sizes fit the values, leaf and output slots are used once, and every step
reads from each slot the node that it expects there. The first broken invariant is the error.
-/
namespace TensorDag.Plan

def broken (fault : PlanFault) : Result Unit := .error (.plan fault)

def require (holds : Bool) (fault : PlanFault) : Result Unit :=
  if holds then .ok () else broken fault

/-- The slot at a place counted from the front or, negative, from the end. -/
def slotAt (p : Plan) (place : Int) : Result Slot :=
  match (place? p.slots.length place).bind (p.slots[·]?) with
  | some slot => .ok slot
  | none => .fault .noPlace

/-- Slots claim the places that they are at and have known roles. -/
def checkTable : Nat → List Slot → Result Unit
  | _, [] => .ok ()
  | place, slot :: rest => do
    require (slot.index = place) (.slotIndex place slot.index)
    require slot.role.isKnown (.slotRole place slot.role.name)
    checkTable (place + 1) rest

/-- The slot at a place has the size of a node. -/
def checkSize (p : Plan) (place : Int) (n : Node) : Result Unit := do
  require ((← p.slotAt place).size = n.byteSize) (.slotSize place n.name)

def checkSizes (p : Plan) : List (Int × Node) → Result Unit
  | [] => .ok ()
  | (place, n) :: rest => do
    p.checkSize place n
    checkSizes p rest

def checkSlotSizes (p : Plan) : Result Unit := do
  checkTable 0 p.slots
  p.checkSizes (p.leaves.map fun leaf => (leaf.slot, leaf.node))
  p.checkSizes (p.steps.flatMap fun step =>
    (step.outputSlot, step.node) :: step.inputSlots.zip step.node.inputs)

def checkLeafRoles (p : Plan) : List Int → Result Unit
  | [] => .ok ()
  | place :: rest => do
    let role := (← p.slotAt place).role
    require (role = .leaf) (.leafRole place role.name)
    checkLeafRoles p rest

/-- The places of output slots that steps write, in order; no step writes into a leaf slot. -/
def outputWrites (p : Plan) : List Step → Result (List Int)
  | [] => .ok []
  | step :: rest => do
    let role := (← p.slotAt step.outputSlot).role
    require (role ≠ .leaf) (.writesLeaf step.node.name step.outputSlot)
    let others ← outputWrites p rest
    return if role = .output then step.outputSlot :: others else others

/-- Each place is written once. -/
def checkWrites (all : List Int) : List Int → Result Unit
  | [] => .ok ()
  | place :: rest => do
    require (all.count place ≤ 1) (.writtenOften place (all.count place))
    checkWrites all rest

def checkDedicatedSlots (p : Plan) : Result Unit := do
  let places := p.leaves.map LeafSlot.slot
  require (decide places.Nodup) .sharedLeafSlot
  p.checkLeafRoles places
  let writes ← p.outputWrites p.steps
  checkWrites writes writes

/-- The node that each slot holds, by place. -/
abbrev Holders := List (Int × Node)

/-- A step reads from each slot the input that is to be there. -/
def checkReads (step : Step) (holders : Holders) : List (Int × Node) → Result Unit
  | [] => .ok ()
  | (place, input) :: rest =>
    match holders.lookup place with
    | none => broken (.unwritten step.node.name place)
    | some holder => do
      require (holder.same input) (.overwritten place holder.name step.node.name input.name)
      checkReads step holders rest

/-- The holders behind some steps. -/
def checkSteps : List Step → Holders → Result Holders
  | [], holders => .ok holders
  | step :: rest, holders => do
    require (step.inputSlots.length = step.node.inputs.length)
      (.inputCount step.node.name step.inputSlots.length step.node.inputs.length)
    checkReads step holders (step.inputSlots.zip step.node.inputs)
    require (!step.inputSlots.contains step.outputSlot) (.writesWhatItReads step.node.name)
    checkSteps rest ((step.outputSlot, step.node) :: holders)

/-- Each output is where it is to be found. -/
def checkOutputs (holders : Holders) : List (Node × Int) → Result Unit
  | [] => .ok ()
  | (n, place) :: rest => do
    require (((holders.lookup place).map (·.same n)).getD false) (.outputMissing place n.name)
    checkOutputs holders rest

/-- The holders before the first step; of leaves that share a slot the last one holds it. -/
def leafHolders (p : Plan) : Holders :=
  (p.leaves.map fun leaf => (leaf.slot, leaf.node)).reverse

def checkDataflow (p : Plan) : Result Unit := do
  let holders ← checkSteps p.steps p.leafHolders
  checkOutputs holders (p.outputs.zip p.outputSlots)

/-- Whether a plan computes what it claims; if not, the first thing that is wrong. -/
def validate (p : Plan) : Result Unit := do
  p.checkSlotSizes
  p.checkDedicatedSlots
  p.checkDataflow

end TensorDag.Plan
