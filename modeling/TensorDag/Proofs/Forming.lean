import TensorDag.Proofs.Operating

/-!
Calls that form nodes. Where the kinds of the library have their rules, every node of such a kind carries an operator
that was spelled and typed, whatever other kinds are registered; so a call that means an operator returns a node of it.
-/
namespace TensorDag
open Program
variable [Memory]

namespace Workspace
open Building
variable {w v : Workspace} {n : Node}

theorem built_empty : Built ShapeRules.Lasting ⟨.standard, .empty 0 .null, .empty⟩ :=
  .empty 0 .null .standard .empty ShapeRules.standard_lasting

/-- Nodes of the kinds of the library are formed. -/
theorem Built.formed (built : w.Built ShapeRules.Lasting) :
    ∀ n ∈ w.graph.nodes, ∀ kind : Kind, n.kind = kind.name → ∃ op, op.kind = kind ∧ n.Formed op := by
  have leaf : ∀ {name : String} {kind : Kind}, leafKinds.contains name = true → name ≠ kind.name := by
    rintro _ kind isLeaf rfl
    rw [kind.name_interior] at isLeaf
    cases isLeaf
  induction built with
  | empty => simp [Graph.empty]
  | constant _ made ih =>
    obtain ⟨type, bytes, _, _, ⟨_, rfl⟩ | ⟨_, rfl, rfl⟩⟩ := constant_cases made
    · exact ih
    · intro m member kind named
      rcases Array.mem_push.mp member with old | rfl
      · exact ih m old kind named
      · exact absurd named (leaf rfl)
  | variableOf _ made ih =>
    obtain ⟨type, bytes, _, _, rfl, rfl⟩ := variableOf_cases made
    intro m member kind named
    rcases Array.mem_push.mp member with old | rfl
    · exact ih m old kind named
    · exact absurd named (leaf rfl)
  | placeholder _ made ih =>
    obtain ⟨type, _, rfl, rfl⟩ := placeholder_cases made
    intro m member kind named
    rcases Array.mem_push.mp member with old | rfl
    · exact ih m old kind named
    · exact absurd named (leaf rfl)
  | call before _ made ih =>
    obtain ⟨graph, applied, rfl⟩ := call_cases made
    obtain ⟨rule, nodes, es, ps, ruled, _, _, _, normal, interned⟩ := Graph.apply_cases applied
    rcases Graph.intern_cases interned with ⟨_, _, _, rfl⟩ | ⟨type, inferred, rfl, rfl⟩
    · exact ih
    · intro m member kind named
      rcases Array.mem_push.mp member with old | rfl
      · exact ih m old kind named
      · -- a new node of a kind of the library was made by the kind's own rule
        cases named
        cases (before.lasting.rules.builtin kind).symm.trans ruled
        obtain ⟨op, spelled, read⟩ := Kind.normalize_spells normal
        obtain ⟨op', read', typed⟩ := Result.bind_eq_ok.mp inferred
        cases read.symm.trans read'
        cases Operator.ofParams_kind read
        exact ⟨op, rfl, rfl, read, typed, es, spelled⟩
  | ruled _ _ _ ih => exact ih
  | stored _ _ _ ih => exact ih

/-- A program led to a node of a type, and left what was there. -/
structure Reaches (w v : Workspace) (n : Node) (type : TensorType) : Prop where
  built : v.Built ShapeRules.Lasting
  keeps : w.Keeps v
  member : n ∈ v.graph.nodes
  typed : n.type = type

theorem Reaches.after {u : Workspace} {type : TensorType} (reaches : v.Reaches u n type) (keeps : w.Keeps v) :
    w.Reaches u n type :=
  ⟨reaches.built, keeps.trans reaches.keeps, reaches.member, reaches.typed⟩

/-- A call led to a node of an operator on some nodes. -/
structure Forms (w v : Workspace) (n : Node) (op : Operator) (nodes : List Node) (type : TensorType) : Prop
    extends Reaches w v n type where
  inputs : n.inputs = nodes
  formed : n.Formed op

/-- A call that means an operator returns a node of the operator and of the type that it has. -/
theorem Built.forms {kind : Kind} {es : Entries} {op : Operator} {type : TensorType}
    (built : w.Built ShapeRules.Lasting) (nodes : List Node) (own : ∀ x ∈ nodes, x ∈ w.graph.nodes)
    (means : kind.Means (nodes.map Node.type) es op type) :
    ∃ n v, apply kind nodes es w = .ok n v ∧ w.Forms v n op nodes type := by
  have coherent := built.lasting
  obtain ⟨spelled, ps, normal, inferred⟩ := means
  obtain ⟨n, v, ran⟩ := apply_returns (coherent.rules.builtin kind) (fun x input => coherent.owns (own x input))
    normal inferred
  obtain ⟨_, keeps, member⟩ := coherent.applied own ran
  obtain ⟨ps', normal', inferred', named, inputs, read, _⟩ := coherent.apply own ran
  cases normal.symm.trans normal'
  have given : ∀ x : Node, .node x ∈ nodes.map Value.node → x.id.graph = w.graph.id → x ∈ w.graph.nodes := by
    intro x listed _
    obtain ⟨y, input, same⟩ := List.mem_map.mp listed
    cases same
    exact own x input
  have next : v.Built ShapeRules.Lasting := .call built given (apply_eq_call kind nodes es ▸ ran)
  -- the operator that the node was formed with is the one that this call means
  obtain ⟨op', same, formed⟩ := next.formed n member kind named
  have attributes := formed.attributes
  rw [same, read] at attributes
  obtain ⟨meant, spelled', read'⟩ := Kind.normalize_spells normal
  cases spelled.symm.trans spelled'
  cases attributes.symm.trans read'
  have typed : n.type = type := Except.ok.inj (inferred'.symm.trans inferred)
  exact ⟨n, v, ran, ⟨next, keeps, member, typed⟩, inputs, formed⟩

theorem Built.fills {type : TensorType} {data : Value} {bytes : Bytes} (built : w.Built ShapeRules.Lasting)
    (filled : leafBytes type data = .ok bytes) :
    ∃ n v, Building.constant (.dims type.shape) (.elementType type.elementType) data w = .ok n v ∧
      w.Reaches v n type ∧ v.graph.find? (.constant type bytes) = some n := by
  obtain ⟨n, v, made⟩ := constant_returns (w := w) type.ofValues_dims filled
  obtain ⟨_, keeps, member⟩ := built.lasting.constant made
  obtain ⟨bytes', typed, filled', found⟩ := built.lasting.constant_type made
  cases type.ofValues_dims.symm.trans typed
  cases filled.symm.trans filled'
  exact ⟨n, v, made, ⟨.constant built made, keeps, member, rfl⟩, found⟩

end Workspace
end TensorDag
