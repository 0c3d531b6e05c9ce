import TensorDag.Graph.Order

/-!
Families of nodes in which identities tell nodes apart, and the nodes that a node is computed from.
-/
namespace TensorDag

/-- A family of nodes that is closed under inputs and has one node for each identity. -/
structure Arena (family : Node → Prop) : Prop where
  inputs : ∀ {n x}, family n → x ∈ n.inputs → family x
  identity : ∀ {a b}, family a → family b → a.id = b.id → a = b

namespace Node

/-- A node reaches itself and what its inputs reach. -/
inductive Reaches : Node → Node → Prop
  | self : Reaches n n
  | input (member : x ∈ n.inputs) (path : Reaches x m) : Reaches n m

theorem Reaches.trans (first : Reaches a b) (second : Reaches b c) : Reaches a c := by
  induction first with
  | self => exact second
  | input member _ ih => exact .input member (ih second)

theorem sizeOf_input {n x : Node} (member : x ∈ n.inputs) : sizeOf x < sizeOf n :=
  Nat.lt_trans (List.sizeOf_lt_of_mem member) (sizeOf_inputs_lt n)

theorem Reaches.sizeOf_le {n m : Node} (path : Reaches n m) : sizeOf m ≤ sizeOf n := by
  induction path with
  | self => exact Nat.le_refl _
  | input member _ ih => exact Nat.le_of_lt (Nat.lt_of_le_of_lt ih (sizeOf_input member))

def Needed (outputs : List Node) (n : Node) : Prop := ∃ o ∈ outputs, Reaches o n

theorem same_iff {a b : Node} : a.same b = true ↔ a.id = b.id := by simp [same]

theorem isIn_iff {n : Node} {nodes : List Node} : n.isIn nodes = true ↔ ∃ m ∈ nodes, n.id = m.id := by
  simp [isIn, same]

theorem isIn_of_mem {n : Node} {nodes : List Node} (member : n ∈ nodes) : n.isIn nodes = true :=
  isIn_iff.mpr ⟨n, member, rfl⟩

end Node

namespace Arena
variable {family : Node → Prop}

theorem reaches (arena : Arena family) {n m : Node} (path : n.Reaches m) (own : family n) :
    family m := by
  induction path with
  | self => exact own
  | input member _ ih => exact ih (arena.inputs own member)

theorem needed (arena : Arena family) {outputs : List Node} (own : ∀ o ∈ outputs, family o) {n : Node}
    (need : Node.Needed outputs n) : family n := by
  obtain ⟨o, member, path⟩ := need
  exact arena.reaches path (own o member)

theorem isIn_iff_mem (arena : Arena family) {n : Node} {nodes : List Node} (own : family n)
    (all : ∀ m ∈ nodes, family m) : n.isIn nodes = true ↔ n ∈ nodes := by
  constructor
  · intro found
    obtain ⟨m, member, same⟩ := Node.isIn_iff.mp found
    exact arena.identity own (all m member) same ▸ member
  · exact Node.isIn_of_mem

theorem same_iff_eq (arena : Arena family) {a b : Node} (first : family a) (second : family b) :
    a.same b = true ↔ a = b := by
  rw [Node.same_iff]
  exact ⟨arena.identity first second, congrArg Node.id⟩

end Arena
end TensorDag
