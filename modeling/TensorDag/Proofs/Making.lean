import TensorDag.Gradient.Reverse
import TensorDag.Proofs.Reading
import TensorDag.Proofs.Spelling

/-!
What the builders that gradient rules use make: nodes of known operators on known inputs, in workspaces
that stay readable.
-/
namespace TensorDag
open Program (bind_eq_ok pure_eq_ok)
open Building (entry)

namespace Workspace

/-- A builder that leads from one readable workspace to another and makes a node of an operator. -/
structure MakesNode (w w' : Workspace) (n : Node) (op : Operator) (inputs : List Node) : Prop where
  grows : w.Grows w'
  exact : w'.Exact
  member : n ∈ w'.graph.nodes
  reads : n.inputs = inputs
  formed : n.Formed op
  polynomial : op.kind ∈ Kind.polynomial

variable {w w' : Workspace} {n x a b : Node}

/-- A call of a polynomial kind. -/
theorem Exact.apply {es : Entries} (exact : w.Exact) (kind : Kind) (nodes : List Node)
    (polynomial : kind ∈ Kind.polynomial) (own : ∀ x ∈ nodes, x ∈ w.graph.nodes)
    (axes : kind = .softmaxGradient → ∀ x ∈ nodes, x.shape ≠ [])
    (made : Building.apply kind nodes es w = .ok n w') :
    ∃ op, op.kind = kind ∧ kind.spell (nodes.map Node.type) es = .ok op ∧ w.MakesNode w' n op nodes := by
  rw [Building.apply_eq_call] at made
  have inside : ∀ x : Node, .node x ∈ nodes.map Value.node → x.id.graph = w.graph.id → x ∈ w.graph.nodes := by
    intro x member _
    obtain ⟨y, input, same⟩ := List.mem_map.mp member
    cases same
    exact own _ input
  obtain ⟨regular, adds, nodes', es', op, split, reads, entered, named, spelled, formed⟩ :=
    exact.toRegular.call inside made
  have same : nodes = nodes' := List.map_injective_iff.mpr (fun _ _ => Value.node.inj) split
  subst same
  cases entered
  have kinds : op.kind = kind := Kind.name_injective named.symm
  rw [kinds] at spelled
  refine ⟨op, kinds, spelled, adds.toGrows, ⟨regular, ?_⟩, adds.member, reads, formed, kinds ▸ polynomial⟩
  intro m member
  rcases adds.only m member with old | rfl
  · exact exact.readable m old
  · refine .interior op formed (kinds ▸ polynomial) fun softmax => ?_
    have shaped := formed.shaped (kinds ▸ polynomial)
    cases op with
    | softmaxGradient =>
      rw [reads] at shaped
      match nodes, shaped, axes (kinds.symm.trans softmax) with
      | [_, y], shaped, ranked =>
        exact shaped.2 ▸ ranked y (List.mem_cons_of_mem _ (List.mem_singleton_self y))
    | _ => cases softmax

theorem MakesNode.shaped {op : Operator} {inputs : List Node} (makes : w.MakesNode w' n op inputs) :
    op.Shaped (inputs.map Node.shape) n.shape := by
  have shaped := makes.formed.shaped makes.polynomial
  rwa [makes.reads] at shaped

section
variable {S : Type} [Zero S] [Add S] [Sub S] [Mul S] [Neg S] {given : Node → Option (Tensor S)}

theorem MakesNode.exact_eq {op : Operator} {inputs : List Node} (makes : w.MakesNode w' n op inputs)
    (fit : Node.Fit given) : n.exact given = op.tensor n.shape (inputs.map (Node.exact given)) := by
  rw [Node.exact_formed makes.formed (fit.interior n makes.formed.isLeaf), makes.reads]

end

namespace Exact

theorem binary {op : BinaryKind} (exact : w.Exact) (polynomial : Kind.binary op ∈ Kind.polynomial)
    (first : a ∈ w.graph.nodes) (second : b ∈ w.graph.nodes) (made : Building.binary op a b w = .ok n w') :
    w.MakesNode w' n (.binary op) [a, b] := by
  obtain ⟨op', _, spelled, makes⟩ := exact.apply (.binary op) [a, b] polynomial (by simp [first, second]) nofun made
  cases spelled
  exact makes

theorem times [Memory] (exact : w.Exact) (first : a ∈ w.graph.nodes) (second : b ∈ w.graph.nodes)
    (made : Gradient.times (.node a) (.node b) w = .ok n w') : w.MakesNode w' n (.binary .mul) [a, b] :=
  exact.binary (by decide) first second made

theorem neg (exact : w.Exact) (own : x ∈ w.graph.nodes) (made : Building.neg x w = .ok n w') :
    w.MakesNode w' n (.unary .neg) [x] := by
  obtain ⟨op, _, spelled, makes⟩ := exact.apply (.unary .neg) [x] (by decide)
    (by simp [own]) nofun made
  cases spelled
  exact makes

theorem matmul (exact : w.Exact) (first : a ∈ w.graph.nodes) (second : b ∈ w.graph.nodes)
    (made : Building.on .matmul (.node a) [.node b] [] w = .ok n w') : w.MakesNode w' n .matmul [a, b] := by
  obtain ⟨op, _, spelled, makes⟩ := exact.apply .matmul [a, b] (by decide)
    (by simp [first, second]) nofun made
  cases spelled
  exact makes

theorem softmaxGradient (exact : w.Exact) (first : a ∈ w.graph.nodes) (second : b ∈ w.graph.nodes)
    (left : a.shape ≠ []) (right : b.shape ≠ [])
    (made : Building.softmaxGradient (.node a) b w = .ok n w') : w.MakesNode w' n .softmaxGradient [a, b] := by
  obtain ⟨op, _, spelled, makes⟩ := exact.apply .softmaxGradient [a, b] (by decide)
    (by simp [first, second]) (by simp [left, right]) made
  cases spelled
  exact makes

theorem sum {is : List Int} (exact : w.Exact) (own : x ∈ w.graph.nodes) (front : ∀ i ∈ is, 0 ≤ i)
    (made : Building.sum x is w = .ok n w') :
    ∃ axes, w.MakesNode w' n (.sum axes) [x] ∧ ∀ k, k ∈ axes ↔ k < x.shape.length ∧ Int.ofNat k ∈ is := by
  obtain ⟨op, _, spelled, makes⟩ := exact.apply .sum [x] (by decide)
    (by simp [own]) nofun made
  obtain ⟨axes, rfl, members⟩ := Kind.spell_sum front spelled
  exact ⟨axes, makes, members⟩

variable {v low high : Value} {s : Shape}

theorem reshape (exact : w.Exact) (own : x ∈ w.graph.nodes) (lists : v.Lists (s.map Int.ofNat))
    (made : Building.reshape (.node x) v w = .ok n w') : w.MakesNode w' n (.reshape s) [x] := by
  obtain ⟨op, _, spelled, makes⟩ := exact.apply .reshape [x] (by decide)
    (by simp [own]) nofun made
  cases (Kind.spell_reshape lists).symm.trans spelled
  exact makes

theorem broadcast (exact : w.Exact) (own : x ∈ w.graph.nodes)
    (made : Building.broadcast x s w = .ok n w') : w.MakesNode w' n (.broadcast s) [x] := by
  obtain ⟨op, _, spelled, makes⟩ := exact.apply .broadcast [x] (by decide)
    (by simp [own]) nofun made
  cases (Kind.spell_broadcast (Value.lists_dims s)).symm.trans spelled
  exact makes

theorem transposeReversed (exact : w.Exact) (own : x ∈ w.graph.nodes)
    (made : Building.transpose (.node x) .null w = .ok n w') :
    w.MakesNode w' n (.transpose ((List.range x.shape.length).reverse.map Int.ofNat)) [x] := by
  obtain ⟨op, _, spelled, makes⟩ := exact.apply .transpose [x] (by decide)
    (by simp [own]) nofun made
  cases Kind.spell_transpose_null.symm.trans spelled
  exact makes

theorem transpose {order : List Int} (exact : w.Exact) (own : x ∈ w.graph.nodes)
    (made : Building.transpose (.node x) (.ints order) w = .ok n w') : w.MakesNode w' n (.transpose order) [x] := by
  obtain ⟨op, _, spelled, makes⟩ := exact.apply .transpose [x] (by decide)
    (by simp [own]) nofun made
  cases (Kind.spell_transpose order).symm.trans spelled
  exact makes

variable {lows highs : List Int}

theorem slice (exact : w.Exact) (own : x ∈ w.graph.nodes) (first : low.Lists lows) (second : high.Lists highs)
    (made : Building.slice (.node x) low high w = .ok n w') : w.MakesNode w' n (.slice lows highs) [x] := by
  obtain ⟨op, _, spelled, makes⟩ := exact.apply .slice [x] (by decide)
    (by simp [own]) nofun made
  cases (Kind.spell_slice first second).symm.trans spelled
  exact makes

theorem pad (exact : w.Exact) (own : x ∈ w.graph.nodes) (first : low.Lists lows) (second : high.Lists highs)
    (made : Building.pad (.node x) low high w = .ok n w') : w.MakesNode w' n (.pad lows highs) [x] := by
  obtain ⟨op, _, spelled, makes⟩ := exact.apply .pad [x] (by decide)
    (by simp [own]) nofun made
  cases (Kind.spell_pad first second).symm.trans spelled
  exact makes

variable {c : ConvolutionAttributes}

theorem windowing_eq {c c' : ConvolutionAttributes} (padding : c'.padding = c.padding)
    (stride : c'.stride = c.stride) : c'.windowing = c.windowing := by
  rw [ConvolutionAttributes.windowing, ConvolutionAttributes.windowing, padding, stride]

theorem convolution (exact : w.Exact) (first : a ∈ w.graph.nodes) (second : b ∈ w.graph.nodes)
    (made : Building.convolution (.node a) (.node b) (Kind.window c) w = .ok n w') :
    ∃ c', w.MakesNode w' n (.convolution c') [a, b] ∧ c'.windowing = c.windowing := by
  obtain ⟨op, _, spelled, makes⟩ := exact.apply .convolution [a, b] (by decide)
    (by simp [first, second]) nofun made
  obtain ⟨c', rfl, padding, stride⟩ := Kind.spell_convolution spelled
  exact ⟨c', makes, windowing_eq padding stride⟩

theorem featuresGradient (exact : w.Exact) (first : a ∈ w.graph.nodes) (second : b ∈ w.graph.nodes)
    (made : Building.featuresGradient (.node a) (.node b) (.dims s) (Kind.window c) w = .ok n w') :
    ∃ c', w.MakesNode w' n (.featuresGradient c') [a, b] ∧ c'.windowing = c.windowing ∧ n.shape = s := by
  obtain ⟨op, _, spelled, makes⟩ := exact.apply .featuresGradient [a, b]
    (by decide) (by simp [first, second]) nofun made
  obtain ⟨c', rfl, padding, stride, features⟩ := Kind.spell_featuresGradient spelled
  have known := makes.shaped.1
  rw [features] at known
  exact ⟨c', makes, windowing_eq padding stride, (Option.some.inj known).symm⟩

theorem filtersGradient (exact : w.Exact) (first : a ∈ w.graph.nodes) (second : b ∈ w.graph.nodes)
    (made : Building.filtersGradient (.node a) (.node b) (.dims s) (Kind.window c) w = .ok n w') :
    ∃ c', w.MakesNode w' n (.filtersGradient c') [a, b] ∧ c'.windowing = c.windowing ∧ n.shape = s := by
  obtain ⟨op, _, spelled, makes⟩ := exact.apply .filtersGradient [a, b]
    (by decide) (by simp [first, second]) nofun made
  obtain ⟨c', rfl, padding, stride, filters⟩ := Kind.spell_filtersGradient spelled
  have known := makes.shaped.1
  rw [filters] at known
  exact ⟨c', makes, windowing_eq padding stride, (Option.some.inj known).symm⟩

end Exact
end Workspace
end TensorDag
