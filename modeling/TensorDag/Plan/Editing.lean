import TensorDag.Basic
import TensorDag.Plan

/-!
Edits of plans: records replaced, removed or exchanged. Nothing is checked but that the records are
there; the rest is the work of validation.
-/
namespace TensorDag.Plan

/-- The place in some records that a number means. -/
def placeIn {α : Type} (records : List α) (i : Int) : Result Nat :=
  match place? records.length i with
  | some place => .ok place
  | none => .fault .noPlace

def exchange {α : Type} (first second : Nat) (records : List α) : List α :=
  match records[first]?, records[second]? with
  | some a, some b => (records.set first b).set second a
  | _, _ => records

/-- A change of a list of records, at places counted from either end. -/
inductive Change (α : Type)
  | replace (place : Int) (update : α → α)
  | remove (place : Int)
  | exchange (first second : Int)

def Change.apply {α : Type} (change : Change α) (records : List α) : Result (List α) := do
  match change with
  | .replace place update => return records.modify (← placeIn records place) update
  | .remove place => return records.eraseIdx (← placeIn records place)
  | .exchange first second =>
    return Plan.exchange (← placeIn records first) (← placeIn records second) records

inductive Edit
  | steps (change : Change Step)
  | slots (change : Change Slot)
  | leaves (change : Change LeafSlot)
  | outputSlots (places : List Int)

def edit (p : Plan) : Edit → Result Plan
  | .steps change => return { p with steps := ← change.apply p.steps }
  | .slots change => return { p with slots := ← change.apply p.slots }
  | .leaves change => return { p with leaves := ← change.apply p.leaves }
  | .outputSlots places => .ok { p with outputSlots := places }

end TensorDag.Plan
