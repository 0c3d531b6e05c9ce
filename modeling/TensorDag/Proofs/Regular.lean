import TensorDag.Proofs.Attributes
import TensorDag.Proofs.Building

/-!
Regular workspaces. With the rules that come with the library, every interior node carries the operator
that its call meant, typed by the rules, and the memo tells nodes apart by these operators: a call
returns a node of its operator on its inputs, whether it finds the node or makes it.
-/
namespace TensorDag
open Result (bind_eq_ok pure_eq_ok)

theorem Kind.name_interior (kind : Kind) : leafKinds.contains kind.name = false := by
  cases kind with
  | binary op => cases op <;> rfl
  | unary op => cases op <;> rfl
  | _ => rfl

theorem ShapeRules.lookup_standard {name : String} {rule : ShapeRule}
    (found : ShapeRules.standard.lookup name = some rule) :
    ∃ kind : Kind, name = kind.name ∧ rule = kind.rule := by
  obtain ⟨before, after, split, _⟩ := List.lookup_eq_some_iff.mp found
  have member : (name, rule) ∈ ShapeRules.standard := split ▸ by simp
  obtain ⟨kind, _, same⟩ := List.mem_map.mp member
  cases same
  exact ⟨kind, rfl, rfl⟩

/-- A node as a call makes it: with the attributes of an operator that was spelled and typed. -/
structure Node.Formed (n : Node) (op : Operator) : Prop where
  named : n.kind = op.kind.name
  attributes : Operator.ofParams op.kind n.params = .ok op
  typed : op.infer (n.inputs.map Node.type) = .ok n.type
  spelled : ∃ es, op.kind.spell (n.inputs.map Node.type) es = .ok op

/-- What the memo knows of a node by its key. -/
def Node.Known (store : Store) (n : Node) : MemoKey → Prop
  | .constant type bytes =>
    n.kind = "constant" ∧ n.type = type ∧ ∃ id, n.buffer = some id ∧ id < store.size ∧
      store.get id = ⟨bytes, true⟩
  | .interior kind inputs params =>
    n.kind = kind ∧ n.inputs.map (·.id.index) = inputs ∧ n.params.key? = some params
  | .unmatched kind inputs params index =>
    n.kind = kind ∧ n.inputs.map (·.id.index) = inputs ∧ n.params = params ∧ n.id.index = index

theorem Node.known_keyOf {store : Store} {n : Node} : n.Known store (Graph.keyOf n) := by
  unfold Graph.keyOf Graph.key?
  cases keyed : n.params.key? with
  | none => exact ⟨rfl, rfl, rfl, rfl⟩
  | some keys => exact ⟨rfl, rfl, keyed⟩

theorem Node.Known.later {store store' : Store} {n : Node} {key : MemoKey} (known : n.Known store key)
    (later : store.Later store') : n.Known store' key := by
  cases key with
  | constant type bytes =>
    obtain ⟨named, typed, id, own, inside, content⟩ := known
    refine ⟨named, typed, id, own, Nat.lt_of_lt_of_le inside later.grows, ?_⟩
    rw [later.sealed id inside (by rw [content]), content]
  | interior kind inputs params => exact known
  | unmatched kind inputs params index => exact known

namespace Workspace

/-- Workspaces in which nodes are formed and the memo is right. -/
structure Regular (w : Workspace) : Prop where
  rules : w.rules = .standard
  ordered : w.graph.Ordered
  formed : ∀ n ∈ w.graph.nodes, n.isLeaf = true ∨ ∃ op, n.Formed op
  known : ∀ entry ∈ w.graph.memo, entry.2.Known w.store entry.1

/-- Nodes and buffers stay where a workspace grows. -/
structure Grows (w w' : Workspace) : Prop where
  graph : w'.graph.id = w.graph.id
  nodes : ∀ n ∈ w.graph.nodes, n ∈ w'.graph.nodes
  store : w.store.Extends w'.store

theorem Grows.refl (w : Workspace) : w.Grows w := ⟨rfl, fun _ => id, .refl _⟩

theorem Grows.trans {w w' w'' : Workspace} (first : w.Grows w') (second : w'.Grows w'') : w.Grows w'' where
  graph := second.graph.trans first.graph
  nodes n member := second.nodes n (first.nodes n member)
  store := first.store.trans second.store

/-- A workspace grows by at most one node, which it returns. -/
structure Adds (w w' : Workspace) (n : Node) : Prop extends w.Grows w' where
  member : n ∈ w'.graph.nodes
  only : ∀ m ∈ w'.graph.nodes, m ∈ w.graph.nodes ∨ m = n

variable {w w' : Workspace} {n : Node}

theorem Adds.found (member : n ∈ w.graph.nodes) : w.Adds w n :=
  ⟨.refl w, member, fun _ => .inl⟩

theorem Adds.pushed {memo : List (MemoKey × Node)} {store : Store} (extended : w.store.Extends store) :
    w.Adds { w with graph := { w.graph with nodes := w.graph.nodes.push n, memo }, store } n :=
  ⟨⟨rfl, fun _ => Array.mem_push_of_mem _, extended⟩, Array.mem_push_self, fun _ => Array.mem_push.mp⟩

/-- A constant has the given bytes, whether it is found or made. -/
theorem Regular.constant [Memory] {shape elementType data : Value} (regular : w.Regular)
    (made : Building.constant shape elementType data w = .ok n w') :
    w'.Regular ∧ w.Adds w' n ∧ ∃ type bytes,
      TensorType.ofValues elementType shape = .ok type ∧ leafBytes type data = .ok bytes ∧
        n.Known w'.store (.constant type bytes) := by
  obtain ⟨type, bytes, typed, filled, ⟨found, rfl⟩ | ⟨_, rfl, rfl⟩⟩ := Building.constant_cases made
  · obtain ⟨before, after, split, _⟩ := List.lookup_eq_some_iff.mp found
    exact ⟨regular, .found (regular.ordered.found found), type, bytes, typed, filled,
      regular.known (.constant type bytes, n) (split ▸ by simp)⟩
  · have extended := Store.extends_insert w.store ⟨bytes, true⟩
    have known : Node.Known (w.store.insert ⟨bytes, true⟩).2
        ⟨⟨w.graph.id, w.graph.size⟩, "constant", [], [], type, some w.store.buffers.size⟩
        (.constant type bytes) :=
      ⟨rfl, rfl, _, rfl, by simp [Store.size, Store.insert], Store.get_insert_self ..⟩
    refine ⟨⟨regular.rules, ?_, ?_, ?_⟩, .pushed extended, type, bytes, typed, filled, known⟩
    · exact regular.ordered.appended rfl (by simp) fun entry member => by
        rcases List.mem_cons.mp member with same | old
        · exact .inl (by rw [same])
        · exact .inr old
    · intro m member
      rcases Array.mem_push.mp member with old | rfl
      · exact regular.formed m old
      · exact .inl rfl
    · intro entry member
      rcases List.mem_cons.mp member with rfl | old
      · exact known
      · exact (regular.known entry old).later extended.later

theorem Regular.leaf {kind : String} {type : TensorType} {store : Store} (regular : w.Regular)
    (isLeaf : leafKinds.contains kind) (later : w.store.Later store) (buffer : Option BufferId) :
    Regular { w with
      graph := { w.graph with
        nodes := w.graph.nodes.push ⟨⟨w.graph.id, w.graph.size⟩, kind, [], [], type, buffer⟩ }
      store } where
  rules := regular.rules
  ordered := regular.ordered.appended rfl (by simp) fun _ => .inr
  formed m member := by
    rcases Array.mem_push.mp member with old | rfl
    · exact regular.formed m old
    · exact .inl isLeaf
  known entry member := (regular.known entry member).later later

private theorem eq_of_map_eq {α β : Type} {f : α → β} : ∀ {as bs : List α},
    (∀ a ∈ as, ∀ b ∈ bs, f a = f b → a = b) → as.map f = bs.map f → as = bs
  | [], [], _, _ => rfl
  | a :: as, b :: bs, injective, same => by
    obtain ⟨head, tail⟩ := List.cons.inj same
    rw [injective a (List.mem_cons_self ..) b (List.mem_cons_self ..) head, eq_of_map_eq
      (fun a first b second => injective a (List.mem_cons_of_mem _ first) b (List.mem_cons_of_mem _ second)) tail]

/-- A call returns a node of the operator that it means on its inputs. -/
theorem Regular.intern {kind : Kind} {nodes : List Node} {es : Entries} {params : Params} {graph : Graph}
    (regular : w.Regular) (own : ∀ x ∈ nodes, x ∈ w.graph.nodes)
    (normal : kind.normalize (nodes.map Node.type) es = .ok params)
    (made : w.graph.intern kind.rule kind.name nodes params = .ok (n, graph)) :
    Regular { w with graph } ∧ w.Adds { w with graph } n ∧ n.inputs = nodes ∧
      ∃ op, op.kind = kind ∧ kind.spell (nodes.map Node.type) es = .ok op ∧ n.Formed op := by
  obtain ⟨op, spelled, read⟩ := Kind.normalize_spells normal
  have sort := Operator.ofParams_kind read
  subst sort
  rcases Graph.intern_cases made with ⟨key, keyed, found, rfl⟩ | ⟨type, inferred, rfl, rfl⟩
  · -- the node was found: the key tells its inputs and its operator
    have member := regular.ordered.found found
    obtain ⟨before, after, split, _⟩ := List.lookup_eq_some_iff.mp found
    have known := regular.known (key, n) (split ▸ by simp)
    obtain ⟨params', keyed', rfl⟩ := Option.map_eq_some_iff.mp keyed
    obtain ⟨named, inputs, keys⟩ := known
    have same : n.inputs = nodes := by
      refine eq_of_map_eq (fun a first b second index => ?_) inputs
      have there := regular.ordered.index_lt (regular.ordered.inputs n member a first).1
      rw [index, (regular.ordered.index_lt (own b second)).2] at there
      exact (Option.some.inj there.2).symm
    rcases regular.formed n member with isLeaf | ⟨op', formed⟩
    · rw [Node.isLeaf, named, Kind.name_interior] at isLeaf
      cases isLeaf
    · have kinds : op'.kind = op.kind := Kind.name_injective (formed.named.symm.trans named)
      have operator := formed.attributes
      rw [kinds, Params.ofParams_of_key keys keyed', read] at operator
      cases operator
      exact ⟨regular, .found member, same, op, rfl, spelled, formed⟩
  · have typed : op.infer (nodes.map Node.type) = .ok type := by
      obtain ⟨op', read', typed⟩ := bind_eq_ok.mp inferred
      cases read.symm.trans read'
      exact typed
    have formed : Node.Formed ⟨⟨w.graph.id, w.graph.size⟩, op.kind.name, nodes, params, type, none⟩ op :=
      ⟨rfl, read, typed, es, spelled⟩
    refine ⟨⟨regular.rules, ?_, ?_, ?_⟩, .pushed (.refl _), rfl, op, rfl, spelled, formed⟩
    · exact regular.ordered.appended rfl own fun _ => Graph.mem_remembering
    · intro m member
      rcases Array.mem_push.mp member with old | rfl
      · exact regular.formed m old
      · exact .inr ⟨op, formed⟩
    · intro entry member
      rcases List.mem_cons.mp member with rfl | old
      · exact Node.known_keyOf
      · exact regular.known entry old

theorem Regular.call {kind : String} {inputs : List Value} {params : Value} (regular : w.Regular)
    (own : ∀ x : Node, .node x ∈ inputs → x.id.graph = w.graph.id → x ∈ w.graph.nodes)
    (made : Building.call kind inputs params w = .ok n w') :
    w'.Regular ∧ w.Adds w' n ∧ ∃ nodes es op, inputs = nodes.map .node ∧
      n.inputs = nodes ∧ params.entries = .ok es ∧ kind = op.kind.name ∧
        op.kind.spell (nodes.map Node.type) es = .ok op ∧ n.Formed op := by
  obtain ⟨graph, applied, rfl⟩ := Building.call_cases made
  obtain ⟨rule, nodes, es, ps, found, rfl, same, entered, normal, interned⟩ := Graph.apply_cases applied
  rw [regular.rules] at found
  obtain ⟨kind, rfl, rfl⟩ := ShapeRules.lookup_standard found
  obtain ⟨regular, adds, inputs, op, rfl, spelled, formed⟩ := regular.intern
    (fun x input => own x (List.mem_map_of_mem input) (same x input)) normal interned
  exact ⟨regular, adds, nodes, es, op, rfl, inputs, entered, rfl, spelled, formed⟩

theorem Built.regular [Memory] (built : w.Built (· = .standard)) : w.Regular := by
  induction built with
  | empty id name rules store fit => exact ⟨fit, by constructor <;> simp [Graph.empty], by simp [Graph.empty],
      by simp [Graph.empty]⟩
  | constant _ made ih => exact (ih.constant made).1
  | variableOf _ made ih =>
    obtain ⟨type, bytes, _, _, rfl, rfl⟩ := Building.variableOf_cases made
    exact ih.leaf rfl (Store.extends_insert _ ⟨bytes, false⟩).later _
  | placeholder _ made ih =>
    obtain ⟨type, _, rfl, rfl⟩ := Building.placeholder_cases made
    exact ih.leaf rfl (Store.Extends.refl _).later _
  | call _ own made ih => exact (ih.call own made).1
  | ruled rules _ fit ih => exact ⟨fit, ih.ordered, ih.formed, ih.known⟩
  | stored store _ later ih =>
    exact ⟨ih.rules, ih.ordered, ih.formed, fun entry member => (ih.known entry member).later later⟩

end Workspace
end TensorDag
