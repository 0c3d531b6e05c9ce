import TensorDag.Proofs.Keys
import TensorDag.Proofs.Memo

/-!
Nodes carry the parameters that were asked for. Whatever the rule of a kind makes of a call, the node
that the call returns has these parameters, whether it is found or made; only the sign of a zero may be
that of an earlier call.
-/
namespace TensorDag

namespace Params
variable {ps qs : Params}

theorem Agree.find?_eq (agree : ps.Agree qs) {name : String} {q : Param} (found : qs.find? name = some q)
    (signless : q.Every Atom.Signless) : ps.find? name = some q := by
  have here := agree name
  rw [found] at here
  generalize ps.find? name = p at here ⊢
  cases here with
  | some agrees => rw [agrees.eq signless]

end Params

namespace Workspace
variable {w v : Workspace} {n : Node}

theorem Coherent.found_carries {allowed : ShapeRules → Prop} (coherent : w.Coherent allowed) {kind : String}
    {nodes : List Node} {ps : Params} {key : MemoKey} (mine : ∀ x ∈ nodes, x ∈ w.graph.nodes)
    (keyed : Graph.key? kind nodes ps = some key) (found : w.graph.find? key = some n) :
    n ∈ w.graph.nodes ∧ n.isLeaf = false ∧ n.kind = kind ∧ n.inputs = nodes ∧ n.params.Agree ps := by
  obtain ⟨member, key⟩ := coherent.found found
  obtain ⟨keys, params, rfl⟩ := Option.map_eq_some_iff.mp keyed
  obtain ⟨interior, named, indices, alike⟩ := Node.of_key?_interior key
  have inputs := coherent.eq_of_indices (fun x input => (coherent.inputs n member x input).1) mine indices
  exact ⟨member, interior, named, inputs, Params.agree_of_key alike params⟩

theorem Built.carries [Memory] (built : w.Built ShapeRules.Proper) {kind : String} {inputs : List Value} {given : Value}
    (own : ∀ x : Node, .node x ∈ inputs → x.id.graph = w.graph.id → x ∈ w.graph.nodes)
    (made : Building.call kind inputs given w = .ok n v) :
    ∃ rule nodes es ps, w.rules.lookup kind = some rule ∧ inputs = nodes.map .node ∧ given.entries = .ok es ∧
      rule.normalize (nodes.map Node.type) es = .ok ps ∧ n.kind = kind ∧ n.inputs = nodes ∧ n.params.Agree ps ∧
        ∀ name p, ps.find? name = some p → p.Every Atom.Signless → n.params.find? name = some p := by
  have coherent := built.coherent fun _ => id
  obtain ⟨graph, applied, rfl⟩ := Building.call_cases made
  obtain ⟨rule, nodes, es, ps, ruled, rfl, here, entered, normal, interned⟩ := Graph.apply_cases applied
  refine ⟨rule, nodes, es, ps, ruled, rfl, entered, normal, ?_⟩
  have carried : n.kind = kind ∧ n.inputs = nodes ∧ n.params.Agree ps := by
    rcases Graph.intern_cases interned with ⟨key, keyed, found, rfl⟩ | ⟨type, _, rfl, rfl⟩
    · -- the key of the node that was found is the key of the call
      have mine : ∀ x ∈ nodes, x ∈ w.graph.nodes := fun x input => own x (List.mem_map_of_mem input) (here x input)
      exact (coherent.found_carries mine keyed found).2.2
    · exact ⟨rfl, rfl, .refl ps⟩
  obtain ⟨named, inputs, agree⟩ := carried
  exact ⟨named, inputs, agree, fun name p found signless => agree.find?_eq found signless⟩

end Workspace

/-! A sum of a variable with itself that is called with a zero. -/
namespace Sample

def addWithZero : Node := ⟨⟨0, 4⟩, "add", [x, x], [("t", .float .zero)], ⟨.float32, [2]⟩, none⟩

def addWithZeroWorkspace : Workspace where
  rules := .standard
  graph := ⟨0, .null, #[x, y, total, square, addWithZero],
    [(.interior "add" [0, 0] [("t", .float .zero)], addWithZero), (.interior "mul" [2, 2] [], square),
      (.interior "add" [0, 1] [], total)]⟩
  store := workspace.store

def doubleParams (t : Double) : Entries := [(.text "t", .float t)]

def addWith (t : Double) : Building Node := Building.call "add" [.node x, .node x] (.dictionary (doubleParams t))

theorem addWithZeroWorkspace_built : addWithZeroWorkspace.Built ShapeRules.Proper :=
  built_proper.call (by simp [mem_nodes]) (show addWith .zero workspace = .ok addWithZero addWithZeroWorkspace from rfl)

theorem carries_negativeZero : addWith .negativeZero addWithZeroWorkspace = .ok addWithZero addWithZeroWorkspace ∧
    ∃ rule nodes es ps, addWithZeroWorkspace.rules.lookup "add" = some rule ∧
      [.node x, .node x] = nodes.map Value.node ∧ (Value.dictionary (doubleParams .negativeZero)).entries = .ok es ∧
        rule.normalize (nodes.map Node.type) es = .ok ps ∧ addWithZero.kind = "add" ∧ addWithZero.inputs = nodes ∧
          addWithZero.params.Agree ps ∧
            ∀ name p, ps.find? name = some p → p.Every Atom.Signless → addWithZero.params.find? name = some p :=
  ⟨rfl, addWithZeroWorkspace_built.carries (by simp [addWithZeroWorkspace])
    (show addWith .negativeZero addWithZeroWorkspace = .ok addWithZero addWithZeroWorkspace from rfl)⟩

/-- A sum that is called with the negative zero is the one that was called with the positive zero. -/
theorem negativeZero_found : addWith .zero workspace = .ok addWithZero addWithZeroWorkspace ∧
    (Kind.binary .add).normalize [x.type, x.type] (doubleParams .negativeZero) = .ok [("t", .float .negativeZero)] ∧
      addWith .negativeZero addWithZeroWorkspace = .ok addWithZero addWithZeroWorkspace ∧
        addWithZero.params.find? "t" ≠ some (.float .negativeZero) :=
  ⟨rfl, rfl, rfl, by decide⟩

end Sample
end TensorDag
