import TensorDag.Error.Shape

/-!
Which invariant a plan breaks.
-/
namespace TensorDag

inductive PlanFault
  | slotIndex (place : Nat) (claimed : Int)
  | slotRole (place : Nat) (role : String)
  | slotSize (slot : Int) (node : String)
  | sharedLeafSlot
  | leafRole (slot : Int) (role : String)
  | writesLeaf (node : String) (slot : Int)
  | writtenOften (slot : Int) (count : Nat)
  | inputCount (node : String) (got expected : Nat)
  | unwritten (node : String) (slot : Int)
  | overwritten (slot : Int) (holder reader input : String)
  | writesWhatItReads (node : String)
  | outputMissing (slot : Int) (node : String)

open ShapeFault (code) in
def PlanFault.message : PlanFault → String
  | slotIndex place claimed =>
    "Slot table entry " ++ toString place ++ " claims index " ++ toString claimed ++ "."
  | slotRole place role => "Slot " ++ toString place ++ " has unknown role " ++ code role ++ "."
  | slotSize slot node =>
    "Slot " ++ toString slot ++ " does not match the size of " ++ code node ++ "."
  | sharedLeafSlot => "Two leaves share a slot."
  | leafRole slot role => "Leaf slot " ++ toString slot ++ " has role " ++ code role ++ "."
  | writesLeaf node slot => code node ++ " writes into leaf slot " ++ toString slot ++ "."
  | writtenOften slot count =>
    "Output slot " ++ toString slot ++ " is written " ++ toString count ++ " times."
  | inputCount node got expected =>
    code node ++ " has " ++ toString got ++ " input slots for " ++ toString expected ++ " inputs."
  | unwritten node slot => code node ++ " reads slot " ++ toString slot ++ " before it is written."
  | overwritten slot holder reader input =>
    "Slot " ++ toString slot ++ " was overwritten by " ++ code holder ++ " before " ++
      code reader ++ " read " ++ code input ++ "."
  | writesWhatItReads node => code node ++ " writes into a slot it reads."
  | outputMissing slot node =>
    "Output slot " ++ toString slot ++ " does not hold " ++ code node ++
      " at the end of the plan."

end TensorDag
