import TensorDag.Proofs.Gathering

/-!
What gradient rules hand to the inputs of a node. Paired with tangents of the inputs the contributions
give what the gradient gives with the tangent of the node, one rule for each polynomial kind.
-/
namespace TensorDag
open Program (bind_eq_ok pure_eq_ok throw_eq_ok)
open Building (of_eq_ok)

namespace Gradient
variable {w w' : Workspace} {n x y : Node}

theorem oneInput_eq_ok (ran : oneInput n w = .ok x w') : n.inputs = [x] ∧ w = w' := by
  rcases inputs : n.inputs with _ | ⟨a, _ | ⟨_, _⟩⟩ <;> simp only [oneInput, inputs] at ran
  · cases throw_eq_ok ran
  · obtain ⟨rfl, rfl⟩ := pure_eq_ok.mp ran
    exact ⟨rfl, rfl⟩
  · cases throw_eq_ok ran

theorem twoInputs_eq_ok (ran : twoInputs n w = .ok (x, y) w') : n.inputs = [x, y] ∧ w = w' := by
  rcases inputs : n.inputs with _ | ⟨a, _ | ⟨b, _ | ⟨_, _⟩⟩⟩ <;> simp only [twoInputs, inputs] at ran
  · cases throw_eq_ok ran
  · cases throw_eq_ok ran
  · obtain ⟨same, rfl⟩ := pure_eq_ok.mp ran
    cases same
    exact ⟨rfl, rfl⟩
  · cases throw_eq_ok ran

theorem firstInput_eq_ok (ran : firstInput n w = .ok x w') : (∃ rest, n.inputs = x :: rest) ∧ w = w' := by
  rcases inputs : n.inputs with _ | ⟨a, rest⟩ <;> simp only [firstInput, inputs] at ran
  · cases throw_eq_ok ran
  · obtain ⟨rfl, rfl⟩ := pure_eq_ok.mp ran
    exact ⟨⟨rest, rfl⟩, rfl⟩

end Gradient

/-- A node of an operator among the nodes of a readable workspace, and the gradient that reached it. -/
structure Node.Reached (w : Workspace) (n g : Node) (op : Operator) : Prop where
  exact : w.Exact
  own : n ∈ w.graph.nodes
  formed : n.Formed op
  polynomial : op.kind ∈ Kind.polynomial
  axes : op.kind = .softmaxGradient → n.shape ≠ []
  gradient : g ∈ w.graph.nodes
  shape : g.shape = n.shape

section
open Node (exact Fit Reached)
open Tensor (dot)
variable {R : Type} [CommRing R]

/-- What a rule hands to the inputs of a node. -/
structure Workspace.Passes (given : Node → Option (Tensor R)) (w w' : Workspace) (n g : Node) (op : Operator)
    (contributions : Gradient.Contributions) : Prop where
  grows : w.Grows w'
  exact : w'.Exact
  pairs : ∃ nodes : List Node, contributions = nodes.map some ∧ (∀ c ∈ nodes, c ∈ w'.graph.nodes) ∧
    nodes.length = n.inputs.length ∧
    ∀ moved : Node → Tensor (DualNumber R), (∀ x ∈ n.inputs, (moved x).value = x.exact given) →
      dot (g.exact given) (op.tensor n.shape (n.inputs.map moved)).tangent =
        (List.zipWith (fun c x => dot (c.exact given) (moved x).tangent) nodes n.inputs).sum

variable {given : Node → Option (Tensor R)} {w w' : Workspace} {n g x y c d : Node} {op : Operator}

theorem Workspace.Passes.one (grows : w.Grows w') (exact : w'.Exact) (member : c ∈ w'.graph.nodes)
    (inputs : n.inputs = [x])
    (pairs : ∀ a : Tensor (DualNumber R), a.value = x.exact given →
      dot (g.exact given) (op.tensor n.shape [a]).tangent = dot (c.exact given) a.tangent) :
    w.Passes given w' n g op [some c] := by
  refine ⟨grows, exact, [c], rfl, by simpa using member, by rw [inputs]; rfl, fun moved values => ?_⟩
  rw [inputs] at values ⊢
  simpa using pairs (moved x) (values x (List.mem_singleton_self x))

theorem Workspace.Passes.two (grows : w.Grows w') (exact : w'.Exact) (first : c ∈ w'.graph.nodes)
    (second : d ∈ w'.graph.nodes) (inputs : n.inputs = [x, y])
    (pairs : ∀ a b : Tensor (DualNumber R), a.value = x.exact given → b.value = y.exact given →
      dot (g.exact given) (op.tensor n.shape [a, b]).tangent =
        dot (c.exact given) a.tangent + dot (d.exact given) b.tangent) :
    w.Passes given w' n g op [some c, some d] := by
  refine ⟨grows, exact, [c, d], rfl, by simp [first, second], by rw [inputs]; rfl, fun moved values => ?_⟩
  rw [inputs] at values ⊢
  simpa using pairs (moved x) (moved y) (values x (by simp)) (values y (by simp))

namespace Node.Reached

theorem input (reached : Reached w n g op) (member : x ∈ n.inputs) : x ∈ w.graph.nodes :=
  (reached.exact.ordered.inputs n reached.own x member).1

theorem shaped (reached : Reached w n g op) : op.Shaped (n.inputs.map Node.shape) n.shape :=
  reached.formed.shaped reached.polynomial

theorem gradient_shape (reached : Reached w n g op) (fit : Fit given) : (g.exact given).shape = n.shape :=
  (reached.exact.exact_shape fit reached.gradient).trans reached.shape

theorem value_shape (reached : Reached w n g op) (fit : Fit given) (member : x ∈ n.inputs)
    {a : Tensor (DualNumber R)} (value : a.value = x.exact given) : a.shape = x.shape := by
  rw [← reached.exact.exact_shape fit (reached.input member), ← value]
  rfl

theorem gathered_shape {w₁ w₂ : Workspace} {u m : Node} (reached : Reached w n g op)
    (gathers : w₁.Gathers given w₂ u m x.shape) (fit : Fit given) (member : x ∈ n.inputs)
    {a : Tensor (DualNumber R)} (value : a.value = x.exact given) : (u.exact given).shape = a.shape := by
  rw [gathers.exact_shape fit, reached.value_shape fit member value]

theorem stretches {kind : BinaryKind} (reached : Reached w n g (.binary kind)) (inputs : n.inputs = [x, y]) :
    Shape.Stretches x.shape g.shape ∧ Shape.Stretches y.shape g.shape := by
  have shaped := reached.shaped
  rw [inputs] at shaped
  obtain ⟨first, second, _⟩ := Shape.broadcast?_eq_some shaped
  exact reached.shape ▸ ⟨first, second⟩

end Node.Reached

namespace Gradient
variable {cs : Contributions}

theorem addRule_passes [Memory] (reached : Reached w n g (.binary .add)) (fit : Fit given)
    (ran : binaryRule .add n (.node g) w = .ok cs w') : w.Passes given w' n g (.binary .add) cs := by
  simp only [binaryRule, bind_eq_ok, pure_eq_ok] at ran
  obtain ⟨⟨a, b⟩, _, two, da, middle, left, db, _, right, rfl, rfl⟩ := ran
  obtain ⟨inputs, rfl⟩ := twoInputs_eq_ok two
  obtain ⟨first, second⟩ := reached.stretches inputs
  have gradient := reached.gradient_shape fit
  have left := reached.exact.gather fit reached.gradient first left
  have right := left.exact.gather fit (left.grows.nodes g reached.gradient) second right
  refine .two (left.grows.trans right.grows) right.exact (right.grows.nodes da left.member) right.member inputs
    fun x y atFirst atSecond => ?_
  rw [← gradient]
  refine Tensor.dot_tangent_add left.gathers ?_ right.gathers ?_
  · exact reached.gathered_shape left fit (by simp [inputs]) atFirst
  · exact reached.gathered_shape right fit (by simp [inputs]) atSecond

theorem subRule_passes [Memory] (reached : Reached w n g (.binary .sub)) (fit : Fit given)
    (ran : binaryRule .sub n (.node g) w = .ok cs w') : w.Passes given w' n g (.binary .sub) cs := by
  simp only [binaryRule, bind_eq_ok, pure_eq_ok] at ran
  obtain ⟨⟨a, b⟩, _, two, da, w₁, left, m, w₂, negated, db, _, right, rfl, rfl⟩ := ran
  obtain ⟨inputs, rfl⟩ := twoInputs_eq_ok two
  obtain ⟨first, second⟩ := reached.stretches inputs
  have gradient := reached.gradient_shape fit
  have left := reached.exact.gather fit reached.gradient first left
  have neg := left.exact.neg (left.grows.nodes g reached.gradient) negated
  have same : m.shape = g.shape := neg.shaped
  have right := neg.exact.gather fit neg.member (same ▸ second) right
  have grows := neg.grows.trans right.grows
  refine .two (left.grows.trans grows) right.exact (grows.nodes da left.member) right.member inputs
    fun x y atFirst atSecond => ?_
  have negative : m.exact given = (g.exact given).map (- ·) := neg.exact_eq fit
  rw [← gradient]
  refine Tensor.dot_tangent_sub left.gathers ?_ (negative ▸ right.gathers) ?_
  · exact reached.gathered_shape left fit (by simp [inputs]) atFirst
  · exact reached.gathered_shape right fit (by simp [inputs]) atSecond

theorem mulRule_passes [Memory] (reached : Reached w n g (.binary .mul)) (fit : Fit given)
    (ran : binaryRule .mul n (.node g) w = .ok cs w') : w.Passes given w' n g (.binary .mul) cs := by
  simp only [binaryRule, bind_eq_ok, pure_eq_ok] at ran
  obtain ⟨⟨a, b⟩, _, two, p, w₁, forward, da, w₂, left, q, w₃, backward, db, _, right, rfl, rfl⟩ := ran
  obtain ⟨inputs, rfl⟩ := twoInputs_eq_ok two
  obtain ⟨first, second⟩ := reached.stretches inputs
  have gradient := reached.gradient_shape fit
  have forward := reached.exact.times reached.gradient (reached.input (by simp [inputs])) forward
  have same : p.shape = g.shape := second.broadcast?_eq forward.shaped
  have left := forward.exact.gather fit forward.member (same ▸ first) left
  have grows := forward.grows.trans left.grows
  have backward := left.exact.times (grows.nodes g reached.gradient)
    (grows.nodes a (reached.input (by simp [inputs]))) backward
  have same' : q.shape = g.shape := first.broadcast?_eq backward.shaped
  have right := backward.exact.gather fit backward.member (same' ▸ second) right
  have later := backward.grows.trans right.grows
  refine .two (grows.trans later) right.exact (later.nodes da left.member) right.member inputs
    fun x y atFirst atSecond => ?_
  have sizes := reached.exact.exact_shape fit reached.gradient
  have product : p.exact given = Tensor.zipWith (· * ·) p.shape (g.exact given) (b.exact given) :=
    forward.exact_eq fit
  have product' : q.exact given = Tensor.zipWith (· * ·) q.shape (g.exact given) (a.exact given) :=
    backward.exact_eq fit
  rw [same, ← sizes, ← atSecond] at product
  rw [same', ← sizes, ← atFirst] at product'
  rw [← gradient]
  refine Tensor.dot_tangent_mul (product ▸ left.gathers) ?_ (product' ▸ right.gathers) ?_
  · exact reached.gathered_shape left fit (by simp [inputs]) atFirst
  · exact reached.gathered_shape right fit (by simp [inputs]) atSecond

theorem negRule_passes [Memory] (reached : Reached w n g (.unary .neg)) (fit : Fit given)
    (ran : unaryRule .neg n (.node g) w = .ok cs w') : w.Passes given w' n g (.unary .neg) cs := by
  simp only [unaryRule, bind_eq_ok, pure_eq_ok] at ran
  obtain ⟨c, _, made, rfl, rfl⟩ := ran
  have shaped := reached.shaped
  rcases inputs : n.inputs with _ | ⟨x, _ | ⟨_, _⟩⟩ <;> rw [inputs] at shaped
  · exact shaped.elim
  · have neg := reached.exact.neg reached.gradient made
    refine .one neg.grows neg.exact neg.member inputs fun a value => ?_
    have negative : c.exact given = (g.exact given).map (- ·) := neg.exact_eq fit
    rw [negative]
    exact Tensor.dot_tangent_neg
  · exact shaped.elim

theorem matmulRule_passes (reached : Reached w n g .matmul) (fit : Fit given)
    (ran : matmulRule n (.node g) w = .ok cs w') : w.Passes given w' n g .matmul cs := by
  simp only [matmulRule, bind_eq_ok, pure_eq_ok] at ran
  obtain ⟨⟨a, b⟩, _, two, q, w₁, turned, da, w₂, left, p, w₃, turned', db, _, right, rfl, rfl⟩ := ran
  obtain ⟨inputs, rfl⟩ := twoInputs_eq_ok two
  have shaped := reached.shaped
  rw [inputs] at shaped
  obtain ⟨rows, inner, columns, first, second, result⟩ := shaped
  have turned := reached.exact.transposeReversed (reached.input (by simp [inputs])) turned
  have left := turned.exact.matmul (turned.grows.nodes g reached.gradient) turned.member left
  have grows := turned.grows.trans left.grows
  have turned' := left.exact.transposeReversed (grows.nodes a (reached.input (by simp [inputs]))) turned'
  have right := turned'.exact.matmul turned'.member ((grows.trans turned'.grows).nodes g reached.gradient) right
  have later := turned'.grows.trans right.grows
  refine .two (grows.trans later) right.exact (later.nodes da left.member) right.member inputs
    fun x y atFirst atSecond => ?_
  have transposed : q.exact given = (b.exact given).transpose [1, 0] := by
    rw [turned.exact_eq fit, second]
    rfl
  have transposed' : p.exact given = (a.exact given).transpose [1, 0] := by
    rw [turned'.exact_eq fit, first]
    rfl
  have before : da.exact given = (g.exact given).matmul (q.exact given) := left.exact_eq fit
  have behind : db.exact given = (p.exact given).matmul (g.exact given) := right.exact_eq fit
  have rowsOf : x.shape = [rows, inner] := (reached.value_shape fit (by simp [inputs]) atFirst).trans first
  have columnsOf : y.shape = [inner, columns] := (reached.value_shape fit (by simp [inputs]) atSecond).trans second
  rw [before, behind, transposed, transposed', ← atFirst, ← atSecond]
  exact Tensor.dot_tangent_matmul rowsOf columnsOf ((reached.gradient_shape fit).trans result)

end Gradient
end
end TensorDag
