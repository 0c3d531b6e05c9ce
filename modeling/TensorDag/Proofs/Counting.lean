import TensorDag.Plan.Assignment
import TensorDag.Proofs.Arena

/-!
Counts of reads. While nodes are placed, the count of each node is the number of times that it is still to be read,
so that it is zero just where no later node reads the node. The slots that a step frees are those of the inputs that
expire there, each of them once, however often the step reads them.
-/
namespace TensorDag

namespace Counts
variable {counts : Counts} {id : NodeId}

theorem of_update (change : Nat → Nat) (key : NodeId) :
    (counts.update change key).of id = if id = key then change (counts.of id) else counts.of id := by
  induction counts with
  | nil =>
    by_cases same : id = key
    · simp [update, of, same]
    · have differ : (id == key) = false := by simpa using same
      simp [update, of, List.lookup_cons, same, differ]
  | cons head rest ih =>
    obtain ⟨other, count⟩ := head
    by_cases here : other = key
    · subst here
      by_cases same : id = other
      · simp [update, of, same]
      · have differ : (id == other) = false := by simpa using same
        simp [update, of, List.lookup_cons, same, differ]
    · by_cases same : id = other
      · subst same
        simp [update, of, here]
      · have differ : (id == other) = false := by simpa using same
        simpa [update, of, List.lookup_cons, here, differ] using ih

theorem of_increments (nodes : List Node) :
    (nodes.foldl increment counts).of id = counts.of id + (nodes.map Node.id).count id := by
  induction nodes generalizing counts with
  | nil => simp
  | cons n rest ih =>
    rw [List.foldl_cons, ih, increment, of_update, List.map_cons, List.count_cons]
    by_cases same : id = n.id
    · simp [same]
      omega
    · simp [same, Ne.symm same]

theorem of_decrements (nodes : List Node) :
    (nodes.foldl decrement counts).of id = counts.of id - (nodes.map Node.id).count id := by
  induction nodes generalizing counts with
  | nil => simp
  | cons n rest ih =>
    rw [List.foldl_cons, ih, decrement, of_update, List.map_cons, List.count_cons]
    by_cases same : id = n.id
    · simp [same]
      omega
    · simp [same, Ne.symm same]

theorem of_zeros (order : List Node) : of (order.map fun n => (n.id, 0)) id = 0 := by
  unfold of
  cases found : List.lookup id (order.map fun n => (n.id, 0)) with
  | none => rfl
  | some count =>
    obtain ⟨front, back, split, _⟩ := List.lookup_eq_some_iff.mp found
    have member : (id, count) ∈ order.map fun n => (n.id, 0) := split ▸ by simp
    obtain ⟨_, _, same⟩ := List.mem_map.mp member
    exact (congrArg Prod.snd same).symm

end Counts

namespace Node

/-- The inputs of some nodes, each as often as it is read. -/
def inputIds (nodes : List Node) : List NodeId := (nodes.flatMap Node.inputs).map Node.id

theorem inputIds_cons (n : Node) (later : List Node) :
    inputIds (n :: later) = n.inputs.map Node.id ++ inputIds later := by
  rw [inputIds, List.flatMap_cons, List.map_append, inputIds]

theorem isIn_iff_id {x : Node} {nodes : List Node} : x.isIn nodes = true ↔ x.id ∈ nodes.map Node.id := by
  rw [isIn_iff, List.mem_map]
  exact exists_congr fun _ => and_congr_right fun _ => eq_comm

def isRead (later : List Node) (x : Node) : Bool := later.any fun n => x.isIn n.inputs

theorem isRead_cons (n : Node) (later : List Node) (x : Node) :
    x.isRead (n :: later) = (x.isIn n.inputs || x.isRead later) := rfl

theorem isRead_iff_id {x : Node} {later : List Node} : x.isRead later = true ↔ x.id ∈ inputIds later := by
  induction later with
  | nil => simp [isRead, inputIds]
  | cons n rest ih => rw [isRead_cons, Bool.or_eq_true, isIn_iff_id, ih, inputIds_cons, List.mem_append]

end Node

namespace Assignment
variable {outputs later : List Node} {a : Assignment} {n : Node}

/-- Each node is counted as often as later nodes read it. -/
def Awaits (later : List Node) (a : Assignment) : Prop :=
  ∀ id, a.needed.of id = (Node.inputIds later).count id

theorem awaits_start (order : List Node) : Awaits order (start order) := by
  intro id
  rw [start, Counts.reads, Counts.of_increments, Counts.of_zeros, Nat.zero_add, Node.inputIds]

/-- A count is at zero just where no later node reads. -/
theorem Awaits.zero_iff (awaits : Awaits later a) (x : Node) : a.needed.of x.id = 0 ↔ x.isRead later = false := by
  rw [awaits, List.count_eq_zero, ← Bool.not_eq_true, Node.isRead_iff_id]

/-- Those of some inputs that no later node reads, each once, by its last occurrence. -/
def expiring (later : List Node) : List Node → List Node
  | [] => []
  | x :: rest => if x.isIn rest || x.isRead later then expiring later rest else x :: expiring later rest

def countOff (a : Assignment) (inputs : List Node) : Assignment :=
  { a with needed := inputs.foldl Counts.decrement a.needed }

theorem release_countOff (x : Node) (inputs : List Node) :
    (a.release outputs x).countOff inputs = (a.countOff inputs).release outputs x := by
  unfold release
  split <;> rfl

theorem needed_release (x : Node) : (a.release outputs x).needed = a.needed := by
  unfold release
  split <;> rfl

/-- Counting inputs off one by one frees the slots of those that expire. -/
theorem foldl_consume {inputs : List Node}
    (counted : ∀ id, a.needed.of id = (inputs.map Node.id).count id + (Node.inputIds later).count id) :
    inputs.foldl (consume outputs) a = (expiring later inputs).foldl (release · outputs) (a.countOff inputs) := by
  induction inputs generalizing a with
  | nil => rfl
  | cons x rest ih =>
    have left : ∀ id, (a.countOff [x]).needed.of id = (rest.map Node.id).count id + (Node.inputIds later).count id := by
      intro id
      have before := counted id
      rw [List.map_cons, List.count_cons] at before
      change (a.needed.decrement x).of id = _
      rw [Counts.decrement, Counts.of_update]
      by_cases same : id = x.id
      · simp [same] at before ⊢
        omega
      · simpa [same, Ne.symm same] using before
    have spent : (a.countOff [x]).needed.of x.id = 0 ↔ (x.isIn rest || x.isRead later) = false := by
      rw [left, ← Bool.not_eq_true, Bool.or_eq_true, Node.isIn_iff_id, Node.isRead_iff_id, not_or, Nat.add_eq_zero_iff,
        List.count_eq_zero, List.count_eq_zero]
    rw [List.foldl_cons, expiring]
    change List.foldl (consume outputs)
      (if (a.countOff [x]).needed.of x.id = 0 then (a.countOff [x]).release outputs x else a.countOff [x]) rest = _
    cases goes : x.isIn rest || x.isRead later with
    | true =>
      rw [if_neg (by rw [spent, goes]; exact Bool.noConfusion), if_pos rfl]
      exact ih left
    | false =>
      rw [if_pos (spent.mpr goes), if_neg Bool.false_ne_true, List.foldl_cons,
        ih fun id => (congrArg (Counts.of · id) (needed_release x)).trans (left id), release_countOff]
      rfl

def advance (outputs : List Node) (a : Assignment) (n : Node) : Assignment :=
  ((a.place outputs n).charge n).countOff n.inputs

theorem needed_place (n : Node) : (a.place outputs n).needed = a.needed := by
  unfold place
  split
  · split <;> rfl
  · rfl

theorem Awaits.step_eq (awaits : Awaits (n :: later) a) :
    step outputs a n = (expiring later n.inputs).foldl (release · outputs) (a.advance outputs n) := by
  refine foldl_consume fun id => ?_
  change (a.place outputs n).needed.of id = _
  rw [needed_place, awaits, Node.inputIds_cons, List.count_append]

theorem needed_releaseAll (xs : List Node) : (xs.foldl (release · outputs) a).needed = a.needed := by
  induction xs generalizing a with
  | nil => rfl
  | cons x rest ih => rw [List.foldl_cons, ih, needed_release]

theorem Awaits.advanced (awaits : Awaits (n :: later) a) : Awaits later (a.advance outputs n) := by
  intro id
  change (n.inputs.foldl Counts.decrement (a.place outputs n).needed).of id = _
  rw [needed_place, Counts.of_decrements, awaits, Node.inputIds_cons, List.count_append, Nat.add_sub_cancel_left]

theorem Awaits.stepped (awaits : Awaits (n :: later) a) : Awaits later (step outputs a n) := by
  intro id
  rw [awaits.step_eq, needed_releaseAll]
  exact awaits.advanced id

end Assignment
end TensorDag
