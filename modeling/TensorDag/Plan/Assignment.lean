import TensorDag.Plan

/-!
The assignment of slots to the nodes of an order. Leaves and requested nodes have slots of their
own; every other node takes the scratch slot of its size that was freed last, or a new one. How often
each node is still to be read is counted off, one for each time that it is an input: a scratch slot is
freed when nothing is left to count, behind the last node that reads it.
-/
namespace TensorDag

-- Sums start from the numeral zero.
attribute [local instance (high)] Zero.ofOfNat0

/-- Numbers by node. -/
abbrev Counts := List (NodeId × Nat)

namespace Counts

/-- The number of a node; zero for a node without one. -/
def of (counts : Counts) (id : NodeId) : Nat := (counts.lookup id).getD 0

def update (change : Nat → Nat) (id : NodeId) : Counts → Counts
  | [] => [(id, change 0)]
  | (other, count) :: rest =>
    if other = id then (other, change count) :: rest else (other, count) :: update change id rest

def increment (counts : Counts) (n : Node) : Counts := counts.update (· + 1) n.id

def decrement (counts : Counts) (n : Node) : Counts := counts.update (· - 1) n.id

def reads (order : List Node) : Counts :=
  (order.flatMap Node.inputs).foldl increment (order.map fun n => (n.id, 0))

end Counts

structure Assignment where
  /-- How often each node is still to be read. -/
  needed : Counts
  /-- The slot of each node met so far, the last first. -/
  places : List (NodeId × Nat)
  /-- The slots made so far, in order of their indices. -/
  slots : List Slot
  /-- Sizes and indices of the free scratch slots, the one freed last first. -/
  free : List (Nat × Nat)
  reused : Nat
  /-- Bytes of the values that are still to be read or are kept. -/
  live : Nat
  peak : Nat

namespace Assignment

/-- Nothing is placed, and everything is still to be read. -/
def start (order : List Node) : Assignment := ⟨.reads order, [], [], [], 0, 0, 0⟩

/-- The slot of a node; zero for a node without one. -/
def slotOf (a : Assignment) (n : Node) : Nat := (a.places.lookup n.id).getD 0

/-- The part that a node plays beside requested outputs. -/
def roleOf (outputs : List Node) (n : Node) : Role :=
  if n.isLeaf then .leaf else if n.isIn outputs then .output else .scratch

/-- Take the slot of a size that was freed last. -/
def takeFree (size : Nat) : List (Nat × Nat) → Option (Nat × List (Nat × Nat))
  | [] => none
  | (s, slot) :: rest =>
    if s = size then some (slot, rest)
    else (takeFree size rest).map fun (taken, others) => (taken, (s, slot) :: others)

/-- Give a node a new slot. -/
def extend (a : Assignment) (n : Node) (role : Role) : Assignment :=
  let index := a.slots.length
  { a with
    places := (n.id, index) :: a.places
    slots := a.slots ++ [⟨index, n.byteSize, role⟩] }

/-- Give a node its slot. -/
def place (a : Assignment) (outputs : List Node) (n : Node) : Assignment :=
  match roleOf outputs n with
  | .scratch =>
    match takeFree n.byteSize a.free with
    | some (slot, rest) =>
      { a with places := (n.id, slot) :: a.places, free := rest, reused := a.reused + 1 }
    | none => a.extend n .scratch
  | role => a.extend n role

/-- Count a node's bytes among the live ones. -/
def charge (a : Assignment) (n : Node) : Assignment :=
  let live := a.live + n.byteSize
  { a with live, peak := max a.peak live }

/-- Free the slot of a node that is read no more. -/
def release (a : Assignment) (outputs : List Node) (n : Node) : Assignment :=
  match roleOf outputs n with
  | .scratch =>
    { a with free := (n.byteSize, a.slotOf n) :: a.free, live := a.live - n.byteSize }
  | _ => a

/-- Count off that a node was read, and free its slot if that was the last time. -/
def consume (outputs : List Node) (a : Assignment) (x : Node) : Assignment :=
  let a := { a with needed := a.needed.decrement x }
  if a.needed.of x.id = 0 then a.release outputs x else a

/-- Place a node and count off its inputs. -/
def step (outputs : List Node) (a : Assignment) (n : Node) : Assignment :=
  n.inputs.foldl (consume outputs) ((a.place outputs n).charge n)

def run (outputs order : List Node) (a : Assignment) : Assignment := order.foldl (step outputs) a

/-- Slots for the nodes of an order, for requested outputs. -/
def ofOrder (order outputs : List Node) : Assignment := run outputs order (start order)

def scratchSizes (a : Assignment) : List Nat :=
  (a.slots.filter fun slot => slot.role = .scratch).map (·.size.toNat)

def statistics (a : Assignment) (order : List Node) : Statistics where
  order := order.map Node.name
  steps := (order.filter fun n => !n.isLeaf).length
  slots := a.slots.length
  scratchSlots := a.scratchSizes.length
  reusedSlots := a.reused
  scratchBytes := a.scratchSizes.sum
  peakLiveBytes := a.peak

end Assignment
end TensorDag
