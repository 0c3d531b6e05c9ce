import TensorDag.Operator.Application
import TensorDag.Proofs.Demanding
import TensorDag.Proofs.Regular

/-!
Nodes that kernels can compute. Rules accept a little more than kernels do: a kernel takes no extremum of no
elements, pads no scalar, and needs room for the features that windows slide over, with their margins.
-/
namespace TensorDag

/-- The kinds of operators that are asked for more than their rules ask for. -/
def Kind.demanding : List Kind := [.maxElement, .argmin, .softmax, .pad] ++ sliding

/-- What an operator is defined on: an extremum is taken of some elements, and some axes are padded. -/
def Operator.Admits (op : Operator) (types : List TensorType) : Prop :=
  let shape := (Kind.source types).shape
  match op with
  | .maxElement axes => Shape.volume (Shape.select shape axes) ≠ 0
  | .argmin axis => Shape.volume (Shape.select shape [axis]) ≠ 0
  | .softmax => Shape.volume (Shape.select shape [shape.length - 1]) ≠ 0
  | .pad _ _ => shape ≠ []
  | _ => True

/-- What kernels need on top of rules, where there is room for the inputs and for the result. -/
structure Operator.Suited [Memory] (op : Operator) (types : List TensorType) (result : Shape) : Prop where
  admits : op.Admits types
  afforded : op.kind ∈ Kind.sliding → op.afford types result = .ok ()

namespace Operator
variable {c : ConvolutionAttributes} {features result : Shape} {op : Operator} {types : List TensorType}

theorem suited_of_kind [Memory] (plain : op.kind ∉ Kind.demanding) : op.Suited types result := by
  cases op with
  | maxElement | argmin | softmax | pad | convolution | featuresGradient | filtersGradient =>
    exact absurd (by simp [Kind.demanding, Kind.sliding, kind]) plain
  | _ => exact ⟨trivial, fun slides => absurd (List.mem_append_right _ slides) plain⟩

theorem Admits.padded (admits : op.Admits types) (pads : op.kind = .pad) : (Kind.source types).shape ≠ [] := by
  cases op with
  | pad => exact admits
  | _ => cases pads

theorem windowFits_of_framed [Memory] {batch channels height width : Nat} (slides : Kind.Slides c)
    (four : features = [batch, channels, height, width]) (room : (c.windowing.framed features).room = .ok ()) :
    windowFits c = true := by
  obtain ⟨⟨upper, left⟩, down, right⟩ := slides
  have sides := (Shape.room_eq_ok.mp room).1.addressable
  rw [Shape.addressable, Bool.and_eq_true, List.all_eq_true] at sides
  have bounded : ∀ d ∈ [batch, channels, height + 2 * c.padding.1.toNat, width + 2 * c.padding.2.toNat],
      d < Shape.limit := fun d member => of_decide_eq_true (sides.2 d (four ▸ member))
  simp only [List.forall_mem_cons] at bounded
  obtain ⟨-, -, rows, columns, -⟩ := bounded
  simp only [windowFits, Bool.and_eq_true, decide_eq_true_eq]
  omega

end Operator

namespace Node
variable {n m x : Node} {op : Operator} {types : List TensorType}

theorem Formed.unique {other : Operator} (formed : n.Formed op) (again : n.Formed other) : op = other := by
  have kinds : op.kind = other.kind := Kind.name_injective (formed.named.symm.trans again.named)
  have read := formed.attributes
  rw [kinds] at read
  exact Except.ok.inj (read.symm.trans again.attributes)

/-- An interior node that its kernel can compute from tensors of the types of its inputs. -/
def Suited [Memory] (n : Node) : Prop := ∀ op, n.Formed op → op.Suited (n.inputs.map Node.type) n.shape

theorem Formed.suited [Memory] (formed : n.Formed op) (suited : op.Suited (n.inputs.map Node.type) n.shape) :
    n.Suited :=
  fun _ again => formed.unique again ▸ suited

/-- A node that can be computed, together with all nodes that it is computed from. -/
def Operable [Memory] (n : Node) : Prop := ∀ m, n.Reaches m → m.Suited

namespace Operable
variable [Memory]

theorem suited (operable : n.Operable) : n.Suited := operable n .self

theorem reaches (operable : n.Operable) (path : n.Reaches m) : m.Operable :=
  fun other further => operable other (path.trans further)

theorem made (suited : n.Suited) (inputs : ∀ x ∈ n.inputs, x.Operable) : n.Operable := by
  intro m path
  cases path with
  | self => exact suited
  | input member further => exact inputs _ member m further

theorem leaf (isLeaf : n.isLeaf = true) (bare : n.inputs = []) : n.Operable := by
  refine made (fun op formed => ?_) (by simp [bare])
  rw [Node.isLeaf, formed.named, Kind.name_interior] at isLeaf
  cases isLeaf

end Operable
end Node
end TensorDag
