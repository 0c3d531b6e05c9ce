import TensorDag.Kernel
import TensorDag.Proofs.Duals
import TensorDag.Proofs.Regular

/-!
Graphs of polynomial kinds read over a ring: what nodes evaluate to where every element is an exact one.
The operators are those that the host's kernels run on machine numbers.
-/
namespace TensorDag

namespace Node
variable {S : Type} [Zero S] [Add S] [Sub S] [Mul S] [Neg S]

/-- What the operator of a node makes of the tensors of its inputs. -/
def applied (n : Node) (args : List (Tensor S)) : Tensor S :=
  match (Kind.ofName? n.kind).map (Operator.ofParams · n.params) with
  | some (.ok op) => op.tensor n.shape args
  | _ => ⟨n.shape, fun _ => 0⟩

mutual

/-- The exact tensor of a node, the tensors of some nodes being given. -/
def exact (given : Node → Option (Tensor S)) : Node → Tensor S
  | ⟨id, kind, inputs, params, type, buffer⟩ =>
    let n : Node := ⟨id, kind, inputs, params, type, buffer⟩
    (given n).getD (n.applied (exactAll given inputs))

def exactAll (given : Node → Option (Tensor S)) : List Node → List (Tensor S)
  | [] => []
  | x :: rest => exact given x :: exactAll given rest

end

variable {given : Node → Option (Tensor S)} {n : Node}

theorem exactAll_eq (nodes : List Node) : exactAll given nodes = nodes.map (exact given) := by
  induction nodes with
  | nil => rw [exactAll, List.map_nil]
  | cons x rest ih => rw [exactAll, List.map_cons, ih]

theorem exact_given {x : Tensor S} (found : given n = some x) : exact given n = x := by
  cases n
  rw [exact, found, Option.getD_some]

theorem exact_formed {op : Operator} (formed : n.Formed op) (interior : given n = none) :
    exact given n = op.tensor n.shape (n.inputs.map (exact given)) := by
  obtain ⟨named, attributes, _, _⟩ := formed
  have made : exact given n = n.applied (n.inputs.map (exact given)) := by
    cases n
    rw [exact, interior, Option.getD_none, exactAll_eq]
  rw [made, applied, named, Kind.ofName?_name, Option.map_some, attributes]

def content (n : Node) (store : Store) : Bytes :=
  match n.buffer with
  | some id => (store.get id).bytes
  | none => #[]

/-- The tensors of leaves: constants keep their own words, each read as an element; variables and
placeholders have the values of an assignment. -/
def assigned (store : Store) (element : UInt32 → S) (values : Node → Index → S) (n : Node) :
    Option (Tensor S) :=
  if n.kind = "constant" then some ((Tensor.ofBytes n.shape (n.content store)).map element)
  else if n.isLeaf then some ⟨n.shape, values n⟩
  else none

/-- Tensors are given for leaves, each of its node's shape. -/
structure Fit (given : Node → Option (Tensor S)) : Prop where
  leaves : ∀ n : Node, n.isLeaf = true → ∃ x, given n = some x
  interior : ∀ n : Node, n.isLeaf = false → given n = none
  shapes : ∀ n x, given n = some x → x.shape = n.shape

omit [Zero S] [Add S] [Sub S] [Mul S] [Neg S] in
theorem assigned_fit (store : Store) (element : UInt32 → S) (values : Node → Index → S) :
    Fit (assigned store element values) where
  leaves n isLeaf := by
    unfold assigned
    split <;> exact ⟨_, rfl⟩
  interior n interior := by
    unfold assigned
    split
    · rename_i named
      rw [isLeaf, named] at interior
      cases interior
    · rw [interior, if_neg Bool.false_ne_true]
  shapes n x found := by
    unfold assigned at found
    split at found
    · cases found
      rfl
    · split at found <;> cases found
      rfl

end Node

/-- A node that can be read: a leaf, or formed with an operator of a polynomial kind. -/
inductive Node.Readable (n : Node) : Prop
  | leaf (isLeaf : n.isLeaf = true)
  | interior (op : Operator) (formed : n.Formed op) (polynomial : op.kind ∈ Kind.polynomial)
    (axes : op.kind = .softmaxGradient → n.shape ≠ [])

/-- Regular workspaces of nodes that can be read. -/
structure Workspace.Exact (w : Workspace) : Prop extends w.Regular where
  readable : ∀ n ∈ w.graph.nodes, n.Readable

theorem Node.Formed.isLeaf {n : Node} {op : Operator} (formed : n.Formed op) : n.isLeaf = false := by
  rw [Node.isLeaf, formed.named, Kind.name_interior]

theorem Node.Formed.shaped {n : Node} {op : Operator} (formed : n.Formed op)
    (polynomial : op.kind ∈ Kind.polynomial) : op.Shaped (n.inputs.map Node.shape) n.shape := by
  have inferred := Operator.infer_shaped polynomial formed.typed
  rwa [List.map_map] at inferred

namespace Workspace.Exact
open Node (exact Fit)
variable {w : Workspace}

section
variable {S : Type} [Zero S] [Add S] [Sub S] [Mul S] [Neg S] {given : Node → Option (Tensor S)}

theorem exact_shape (readable : w.Exact) (fit : Fit given) {n : Node} (own : n ∈ w.graph.nodes) :
    (exact given n).shape = n.shape := by
  induction measure : sizeOf n using Nat.strongRecOn generalizing n with
  | ind size ih =>
    cases readable.readable n own with
    | leaf isLeaf =>
      obtain ⟨x, found⟩ := fit.leaves n isLeaf
      rw [Node.exact_given found, fit.shapes n x found]
    | interior op formed polynomial _ =>
      have shapes : (n.inputs.map (exact given)).map Tensor.shape = n.inputs.map Node.shape := by
        rw [List.map_map]
        refine List.map_congr_left fun x input => ?_
        exact ih _ (measure ▸ Node.sizeOf_input input) (readable.ordered.inputs n own x input).1 rfl
      rw [Node.exact_formed formed (fit.interior n formed.isLeaf)]
      exact Operator.tensor_shape (shapes ▸ formed.shaped polynomial) polynomial

end

end Workspace.Exact

/-! One node moves: its output is replaced by its value plus a tangent. -/

section
open TrivSqZeroExt (inl inr)
variable {R : Type} [CommRing R]

def Tensor.moved (x : Tensor R) (v : Index → R) : Tensor (DualNumber R) :=
  ⟨x.shape, fun i => inl (x.cell i) + inr (v i)⟩

theorem Tensor.moved_value (x : Tensor R) (v : Index → R) : (x.moved v).value = x := by
  simp [Tensor.moved, Tensor.value, Tensor.map]

theorem Tensor.moved_tangent (x : Tensor R) (v : Index → R) : (x.moved v).tangent = ⟨x.shape, v⟩ := by
  simp [Tensor.moved, Tensor.tangent, Tensor.map]

namespace Node

/-- The tensors given for leaves as dual numbers, and one for another node. -/
def replaced (given : Node → Option (Tensor R)) (t : Node) (x : Tensor (DualNumber R)) (n : Node) :
    Option (Tensor (DualNumber R)) :=
  if n.same t then some x else (given n).map (Tensor.map inl)

/-- The exact tensor of a node over dual numbers, the output of `t` replaced by its value plus `v`. -/
def dual (given : Node → Option (Tensor R)) (t : Node) (v : Index → R) (n : Node) : Tensor (DualNumber R) :=
  exact (replaced given t ((exact given t).moved v)) n

end Node

namespace Workspace.Exact
open Node (exact Fit dual)
variable {w : Workspace} {given : Node → Option (Tensor R)} {t n : Node} {v : Index → R}

theorem dual_self (t : Node) (v : Index → R) : dual given t v t = (exact given t).moved v :=
  Node.exact_given (if_pos (Node.same_iff.mpr rfl))

theorem dual_formed (readable : w.Exact) (fit : Fit given) (target : t ∈ w.graph.nodes)
    (own : n ∈ w.graph.nodes) {op : Operator} (formed : n.Formed op) (other : n ≠ t) :
    dual given t v n = op.tensor n.shape (n.inputs.map (dual given t v)) := by
  refine Node.exact_formed formed ?_
  have differ : ¬n.same t = true := fun same => other ((readable.ordered.arena.same_iff_eq own target).mp same)
  rw [Node.replaced, if_neg differ, fit.interior n formed.isLeaf, Option.map_none]

theorem dual_leaf (readable : w.Exact) (fit : Fit given) (target : t ∈ w.graph.nodes)
    (own : n ∈ w.graph.nodes) (isLeaf : n.isLeaf = true) (other : n ≠ t) :
    dual given t v n = (exact given n).map inl := by
  obtain ⟨x, found⟩ := fit.leaves n isLeaf
  have differ : ¬n.same t = true := fun same => other ((readable.ordered.arena.same_iff_eq own target).mp same)
  rw [Node.exact_given found]
  exact Node.exact_given (by rw [Node.replaced, if_neg differ, found, Option.map_some])

/-- Nodes that do not read the moved one stay where they are. -/
theorem dual_still (readable : w.Exact) (fit : Fit given) (target : t ∈ w.graph.nodes)
    (own : n ∈ w.graph.nodes) (apart : ¬n.Reaches t) :
    dual given t v n = (exact given n).map inl := by
  induction measure : sizeOf n using Nat.strongRecOn generalizing n with
  | ind size ih =>
    have other : n ≠ t := fun same => apart (same ▸ .self)
    cases readable.readable n own with
    | leaf isLeaf => exact readable.dual_leaf fit target own isLeaf other
    | interior op formed polynomial _ =>
      have inputs : n.inputs.map (dual given t v) = (n.inputs.map (exact given)).map (Tensor.map inl) := by
        rw [List.map_map]
        refine List.map_congr_left fun x input => ?_
        exact ih _ (measure ▸ Node.sizeOf_input input) (readable.ordered.inputs n own x input).1
          (fun path => apart (.input input path)) rfl
      rw [readable.dual_formed fit target own formed other, inputs, Node.exact_formed formed
        (fit.interior n formed.isLeaf)]
      exact (op.tensor_map (TrivSqZeroExt.inlHom R R) n.shape _).symm

/-- The values of dual numbers are the exact tensors. -/
theorem dual_value (readable : w.Exact) (fit : Fit given) (target : t ∈ w.graph.nodes)
    (own : n ∈ w.graph.nodes) : (dual given t v n).value = exact given n := by
  induction measure : sizeOf n using Nat.strongRecOn generalizing n with
  | ind size ih =>
    by_cases other : n = t
    · rw [other, dual_self, Tensor.moved_value]
    cases readable.readable n own with
    | leaf isLeaf =>
      rw [readable.dual_leaf fit target own isLeaf other]
      rfl
    | interior op formed polynomial _ =>
      have inputs : (n.inputs.map (dual given t v)).map Tensor.value = n.inputs.map (exact given) := by
        rw [List.map_map]
        refine List.map_congr_left fun x input => ?_
        exact ih _ (measure ▸ Node.sizeOf_input input) (readable.ordered.inputs n own x input).1 rfl
      rw [readable.dual_formed fit target own formed other, Operator.tensor_value, inputs,
        Node.exact_formed formed (fit.interior n formed.isLeaf)]

theorem dual_shape (readable : w.Exact) (fit : Fit given) (target : t ∈ w.graph.nodes)
    (own : n ∈ w.graph.nodes) : (dual given t v n).shape = n.shape := by
  have value := readable.dual_value (v := v) fit target own
  rw [← readable.exact_shape fit own, ← value]
  rfl

theorem tangent_still (readable : w.Exact) (fit : Fit given) (target : t ∈ w.graph.nodes)
    (own : n ∈ w.graph.nodes) (apart : ¬n.Reaches t) (g : Tensor R) :
    Tensor.dot g (dual given t v n).tangent = 0 := by
  rw [readable.dual_still fit target own apart]
  exact Finset.sum_eq_zero fun i _ => mul_zero _

end Workspace.Exact
end
end TensorDag
