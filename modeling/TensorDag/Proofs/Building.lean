import TensorDag.Graph.Building
import TensorDag.Proofs.Arena
import TensorDag.Proofs.Outcome
import TensorDag.Proofs.Stores

/-!
Workspaces that builder calls lead to. Every call finds a node or appends one whose inputs are there
already, so the nodes of a graph are an arena.
-/
namespace TensorDag
open Program

namespace Building
variable {α : Type} {w w' : Workspace} {n : Node}

theorem of_eq_ok {result : Result α} {a : α} :
    of result w = .ok a w' ↔ result = .ok a ∧ w = w' := by
  cases result with
  | error e => simp [of, throw_eq_ok]
  | ok b => simp [of, pure_eq_ok]

/-- A constant is found, or made with a read-only buffer of its own and remembered. -/
theorem constant_cases [Memory] {shape elementType data : Value}
    (made : constant shape elementType data w = .ok n w') :
    ∃ type bytes, TensorType.ofValues elementType shape = .ok type ∧ leafBytes type data = .ok bytes ∧
      (w.graph.find? (.constant type bytes) = some n ∧ w' = w ∨
        w.graph.find? (.constant type bytes) = none ∧
          n = ⟨⟨w.graph.id, w.graph.size⟩, "constant", [], [], type, some w.store.buffers.size⟩ ∧
          w' = { w with
            graph := { w.graph with
              nodes := w.graph.nodes.push n
              memo := (.constant type bytes, n) :: w.graph.memo }
            store := ⟨w.store.buffers.push ⟨bytes, true⟩⟩ }) := by
  simp only [constant, bind_eq_ok, of_eq_ok, get_eq_ok] at made
  obtain ⟨type, _, ⟨typed, rfl⟩, bytes, _, ⟨filled, rfl⟩, _, _, ⟨rfl, rfl⟩, made⟩ := made
  refine ⟨type, bytes, typed, filled, ?_⟩
  cases found : w.graph.find? (.constant type bytes) with
  | some m =>
    simp only [found, pure_eq_ok] at made
    exact .inl ⟨congrArg some made.1, made.2.symm⟩
  | none =>
    simp only [found, bind_eq_ok, set_eq_ok, pure_eq_ok] at made
    obtain ⟨_, _, rfl, rfl, rfl⟩ := made
    exact .inr ⟨rfl, rfl, rfl⟩

theorem variableOf_cases [Memory] {shape elementType data : Value}
    (made : variableOf shape elementType data w = .ok n w') :
    ∃ type bytes, TensorType.ofValues elementType shape = .ok type ∧ leafBytes type data = .ok bytes ∧
      n = ⟨⟨w.graph.id, w.graph.size⟩, "variable", [], [], type, some w.store.buffers.size⟩ ∧
      w' = { w with
        graph := { w.graph with nodes := w.graph.nodes.push n }
        store := ⟨w.store.buffers.push ⟨bytes, false⟩⟩ } := by
  simp only [variableOf, bind_eq_ok, of_eq_ok, get_eq_ok, set_eq_ok, pure_eq_ok] at made
  obtain ⟨type, _, ⟨typed, rfl⟩, bytes, _, ⟨filled, rfl⟩, _, _, ⟨rfl, rfl⟩, _, _, rfl, rfl, rfl⟩ := made
  exact ⟨type, bytes, typed, filled, rfl, rfl⟩

theorem placeholder_cases {shape elementType : Value}
    (made : placeholder shape elementType w = .ok n w') :
    ∃ type, TensorType.ofValues elementType shape = .ok type ∧
      n = ⟨⟨w.graph.id, w.graph.size⟩, "placeholder", [], [], type, none⟩ ∧
      w' = { w with graph := { w.graph with nodes := w.graph.nodes.push n } } := by
  simp only [placeholder, bind_eq_ok, of_eq_ok, get_eq_ok, set_eq_ok, pure_eq_ok] at made
  obtain ⟨type, _, ⟨typed, rfl⟩, _, _, ⟨rfl, rfl⟩, _, _, rfl, rfl, rfl⟩ := made
  exact ⟨type, typed, rfl, rfl⟩

end Building

namespace Graph
variable {g g' : Graph} {n : Node}

/-- The memo of a graph behind a call that made a node. -/
def remembering (g : Graph) (key : Option MemoKey) (n : Node) : List (MemoKey × Node) :=
  match key with
  | some key => (key, n) :: g.memo
  | none => g.memo

/-- An interior node is found, or made of the type that the rule infers and remembered under its key. -/
theorem intern_cases {rule : ShapeRule} {kind : String} {inputs : List Node} {params : Params}
    (made : g.intern rule kind inputs params = .ok (n, g')) :
    (∃ key, key? kind inputs params = some key ∧ g.find? key = some n ∧ g' = g) ∨
      ∃ type, rule.infer (inputs.map Node.type) params = .ok type ∧
        n = ⟨⟨g.id, g.size⟩, kind, inputs, params, type, none⟩ ∧
        g' = { g with
          nodes := g.nodes.push n
          memo := g.remembering (some (keyOf n)) n } := by
  unfold intern at made
  cases found : (key? kind inputs params).bind g.find? with
  | some m =>
    obtain ⟨key, keyed, here⟩ := Option.bind_eq_some_iff.mp found
    simp only [found, Except.ok.injEq, Prod.mk.injEq] at made
    exact .inl ⟨key, keyed, by rw [here, made.1], made.2.symm⟩
  | none =>
    simp only [found, Result.bind_eq_ok, Result.pure_eq_ok] at made
    obtain ⟨type, inferred, made⟩ := made
    obtain ⟨rfl, rfl⟩ := Prod.mk.inj made
    exact .inr ⟨type, inferred, rfl, rfl⟩

theorem ownNodes_eq_ok {kind : String} {inputs : List Value} {nodes : List Node} :
    g.ownNodes kind inputs = .ok nodes ↔
      inputs = nodes.map .node ∧ ∀ n ∈ nodes, n.id.graph = g.id := by
  induction inputs generalizing nodes with
  | nil =>
    simp only [ownNodes, Except.ok.injEq]
    exact ⟨by rintro rfl; simp, fun ⟨empty, _⟩ => by simpa [eq_comm] using empty⟩
  | cons v rest ih =>
    cases v with
    | node n =>
      rw [ownNodes]
      by_cases own : n.id.graph = g.id
      · simp only [own, if_true, Result.bind_eq_ok, Result.pure_eq_ok, ih]
        constructor
        · rintro ⟨others, ⟨rfl, all⟩, rfl⟩
          exact ⟨rfl, List.forall_mem_cons.mpr ⟨own, all⟩⟩
        · rintro ⟨split, all⟩
          cases nodes with
          | nil => simp at split
          | cons m others =>
            simp only [List.map_cons, List.cons.injEq, Value.node.injEq] at split
            exact ⟨others, ⟨split.2, fun x member => all x (List.mem_cons_of_mem _ member)⟩,
              by rw [split.1]⟩
      · simp only [own, if_false]
        refine ⟨by simp, fun ⟨split, all⟩ => ?_⟩
        cases nodes with
        | nil => simp at split
        | cons m others =>
          simp only [List.map_cons, List.cons.injEq, Value.node.injEq] at split
          exact absurd (split.1 ▸ all m (List.mem_cons_self ..)) own
    | _ =>
      refine ⟨by simp [ownNodes], fun ⟨split, _⟩ => ?_⟩
      cases nodes <;> simp at split

/-- A call takes nodes of its graph, and normalizes its entries before it looks for the node. -/
theorem apply_cases {rules : ShapeRules} {kind : String} {inputs : List Value}
    {entries : Result Entries} (made : g.apply rules kind inputs entries = .ok (n, g')) :
    ∃ rule nodes given params, rules.lookup kind = some rule ∧ inputs = nodes.map .node ∧
      (∀ m ∈ nodes, m.id.graph = g.id) ∧ entries = .ok given ∧
      rule.normalize (nodes.map Node.type) given = .ok params ∧
      g.intern rule kind nodes params = .ok (n, g') := by
  simp only [apply, Result.bind_eq_ok, ownNodes_eq_ok] at made
  obtain ⟨rule, found, nodes, ⟨split, own⟩, given, entered, params, normal, made⟩ := made
  refine ⟨rule, nodes, given, params, ?_, split, own, entered, normal, made⟩
  unfold ShapeRules.find at found
  cases known : rules.lookup kind with
  | none => simp [known] at found
  | some other =>
    simp only [known, Except.ok.injEq] at found
    rw [found]

end Graph

namespace Building
variable {w w' : Workspace} {n : Node}

theorem call_cases {kind : String} {inputs : List Value} {params : Value}
    (made : call kind inputs params w = .ok n w') :
    ∃ graph, w.graph.apply w.rules kind inputs params.entries = .ok (n, graph) ∧
      w' = { w with graph } := by
  simp only [call, bind_eq_ok, of_eq_ok, get_eq_ok, set_eq_ok, pure_eq_ok] at made
  obtain ⟨_, _, ⟨rfl, rfl⟩, ⟨_, graph⟩, _, ⟨applied, rfl⟩, _, _, rfl, rfl, rfl⟩ := made
  exact ⟨graph, applied, rfl⟩

theorem apply_eq_call (kind : Kind) (inputs : List Node) (entries : Entries) :
    apply kind inputs entries = call kind.name (inputs.map .node) (.dictionary entries) := rfl

end Building

/-- The workspaces that builder calls lead to while rules come and go and buffers change. Inputs
are nodes that earlier calls returned, or nodes of other graphs. -/
inductive Workspace.Built [Memory] (allowed : ShapeRules → Prop) : Workspace → Prop
  | empty (id : Nat) (name : Value) (rules : ShapeRules) (store : Store) (fit : allowed rules) :
    Built allowed ⟨rules, .empty id name, store⟩
  | constant {w w' : Workspace} {shape elementType data : Value} {n : Node} (built : Built allowed w)
    (made : Building.constant shape elementType data w = .ok n w') : Built allowed w'
  | variableOf {w w' : Workspace} {shape elementType data : Value} {n : Node} (built : Built allowed w)
    (made : Building.variableOf shape elementType data w = .ok n w') : Built allowed w'
  | placeholder {w w' : Workspace} {shape elementType : Value} {n : Node} (built : Built allowed w)
    (made : Building.placeholder shape elementType w = .ok n w') : Built allowed w'
  | call {w w' : Workspace} {kind : String} {inputs : List Value} {params : Value} {n : Node}
    (built : Built allowed w)
    (own : ∀ x : Node, .node x ∈ inputs → x.id.graph = w.graph.id → x ∈ w.graph.nodes)
    (made : Building.call kind inputs params w = .ok n w') : Built allowed w'
  | ruled {w : Workspace} (rules : ShapeRules) (built : Built allowed w) (fit : allowed rules) :
    Built allowed { w with rules }
  | stored {w : Workspace} (store : Store) (built : Built allowed w) (later : w.store.Later store) :
    Built allowed { w with store }

namespace Graph

/-- What holds of the nodes of a graph: each has the place that its identity tells, and stands behind
its inputs. The memo leads to nodes of the graph. -/
structure Ordered (g : Graph) : Prop where
  placed : ∀ (i : Nat) (n : Node), g.nodes[i]? = some n → n.id = ⟨g.id, i⟩
  inputs : ∀ n ∈ g.nodes, ∀ x ∈ n.inputs, x ∈ g.nodes ∧ x.id.index < n.id.index
  memo : ∀ entry ∈ g.memo, entry.2 ∈ g.nodes

namespace Ordered
variable {g : Graph}

theorem index_lt (ordered : g.Ordered) {n : Node} (member : n ∈ g.nodes) :
    n.id.index < g.size ∧ g.nodes[n.id.index]? = some n := by
  obtain ⟨i, inside, here⟩ := Array.mem_iff_getElem.mp member
  have found : g.nodes[i]? = some n := by rw [Array.getElem?_eq_getElem inside, here]
  have named := ordered.placed i n found
  rw [named]
  exact ⟨inside, found⟩

theorem arena (ordered : g.Ordered) : Arena (· ∈ g.nodes) where
  inputs own input := (ordered.inputs _ own _ input).1
  identity {a b} own other same := by
    have first := (ordered.index_lt own).2
    rw [same, (ordered.index_lt other).2] at first
    exact (Option.some.inj first).symm

theorem found (ordered : g.Ordered) {key : MemoKey} {n : Node} (found : g.find? key = some n) :
    n ∈ g.nodes := by
  obtain ⟨before, after, split, _⟩ := List.lookup_eq_some_iff.mp found
  exact ordered.memo (key, n) (split ▸ by simp)

/-- A node appended behind its inputs. -/
theorem appended (ordered : g.Ordered) {n : Node} {memo : List (MemoKey × Node)}
    (named : n.id = ⟨g.id, g.size⟩) (own : ∀ x ∈ n.inputs, x ∈ g.nodes)
    (known : ∀ entry ∈ memo, entry.2 = n ∨ entry ∈ g.memo) :
    Ordered { g with nodes := g.nodes.push n, memo } := by
  refine ⟨?_, ?_, ?_⟩
  · intro i m found
    rw [Array.getElem?_push] at found
    split at found
    · rename_i last
      simp only [Option.some.injEq] at found
      rw [← found, named, last]
      rfl
    · exact ordered.placed i m found
  · intro m member x input
    rcases Array.mem_push.mp member with old | same
    · obtain ⟨inside, earlier⟩ := ordered.inputs m old x input
      exact ⟨Array.mem_push.mpr (.inl inside), earlier⟩
    · subst same
      have inside := own x input
      refine ⟨Array.mem_push.mpr (.inl inside), ?_⟩
      rw [named]
      exact (ordered.index_lt inside).1
  · intro entry member
    refine Array.mem_push.mpr ?_
    rcases known entry member with same | old
    · exact .inr same
    · exact .inl (ordered.memo entry old)

end Ordered

theorem mem_remembering {g : Graph} {key : Option MemoKey} {n : Node} {entry : MemoKey × Node}
    (member : entry ∈ g.remembering key n) : entry.2 = n ∨ entry ∈ g.memo := by
  cases key with
  | none => exact .inr member
  | some key =>
    rcases List.mem_cons.mp member with same | old
    · exact .inl (by rw [same])
    · exact .inr old

end Graph

namespace Workspace
variable {allowed : ShapeRules → Prop} {w : Workspace}

/-- Graphs that were built are ordered. -/
theorem Built.ordered [Memory] (built : w.Built allowed) : w.graph.Ordered := by
  induction built with
  | empty id name rules store => constructor <;> simp [Graph.empty]
  | constant built made ih =>
    obtain ⟨type, bytes, _, _, ⟨_, rfl⟩ | ⟨_, rfl, rfl⟩⟩ := Building.constant_cases made
    · exact ih
    · exact ih.appended rfl (by simp) fun entry member => by
        rcases List.mem_cons.mp member with same | old
        · exact .inl (by rw [same])
        · exact .inr old
  | variableOf built made ih =>
    obtain ⟨type, bytes, _, _, rfl, rfl⟩ := Building.variableOf_cases made
    exact ih.appended rfl (by simp) fun _ => .inr
  | placeholder built made ih =>
    obtain ⟨type, _, rfl, rfl⟩ := Building.placeholder_cases made
    exact ih.appended rfl (by simp) fun _ => .inr
  | call built own made ih =>
    obtain ⟨graph, applied, rfl⟩ := Building.call_cases made
    obtain ⟨rule, nodes, given, params, _, rfl, same, _, _, interned⟩ := Graph.apply_cases applied
    rcases Graph.intern_cases interned with ⟨_, _, _, rfl⟩ | ⟨type, _, rfl, rfl⟩
    · exact ih
    · exact ih.appended rfl (fun x input => own x (List.mem_map_of_mem input) (same x input))
        fun _ => Graph.mem_remembering
  | ruled rules built fit ih => exact ih
  | stored store built later ih => exact ih

end Workspace

theorem Workspace.Built.mono [Memory] {allowed wider : ShapeRules → Prop} {w : Workspace} (built : w.Built allowed)
    (fits : ∀ rules, allowed rules → wider rules) : w.Built wider := by
  induction built with
  | empty id name rules store fit => exact .empty id name rules store (fits rules fit)
  | constant _ made ih => exact .constant ih made
  | variableOf _ made ih => exact .variableOf ih made
  | placeholder _ made ih => exact .placeholder ih made
  | call _ own made ih => exact .call ih own made
  | ruled rules _ fit ih => exact .ruled rules ih (fits rules fit)
  | stored store _ later ih => exact .stored store ih later

/-- Rules for kinds other than those of leaves, as `ShapeRules.register` leaves them. -/
def ShapeRules.Proper (rules : ShapeRules) : Prop := ∀ kind ∈ leafKinds, rules.lookup kind = none

theorem ShapeRules.Proper.register {rules rules' : ShapeRules} {kind : String} {rule : ShapeRule}
    (proper : rules.Proper) (registered : rules.register kind rule = .ok rules') : rules'.Proper := by
  unfold ShapeRules.register at registered
  split at registered
  · cases registered
  · rename_i interior
    cases registered
    intro other leaf
    rw [lookup_putNamed, if_neg, proper other leaf]
    rintro rfl
    exact interior (List.contains_iff_mem.mpr leaf)

theorem ShapeRules.standard_proper : ShapeRules.standard.Proper := by
  intro kind leaf
  simp only [leafKinds, List.mem_cons, List.not_mem_nil, or_false] at leaf
  rcases leaf with rfl | rfl | rfl <;> rfl

/-- A leaf has no inputs, and a value unless it is a placeholder; buffers are there. -/
structure Node.Furnished (store : Store) (n : Node) : Prop where
  bare : n.isLeaf → n.inputs = []
  given : n.isLeaf → n.kind = "placeholder" ∨ ∃ id, n.buffer = some id
  inside : ∀ id, n.buffer = some id → id < store.size
  sized : ∀ id, n.buffer = some id → (store.get id).size = n.byteSize

theorem Node.Furnished.later {store store' : Store} {n : Node} (furnished : n.Furnished store)
    (later : store.Later store') : n.Furnished store' where
  bare := furnished.bare
  given := furnished.given
  inside id own := Nat.lt_of_lt_of_le (furnished.inside id own) later.grows
  sized id own := (later.sizes id (furnished.inside id own)).trans (furnished.sized id own)

theorem size_leafBytes [Memory] {type : TensorType} {data : Value} {bytes : Bytes}
    (filled : leafBytes type data = .ok bytes) : bytes.size = type.byteSize := by
  unfold leafBytes at filled
  split at filled
  · obtain ⟨_, _, made⟩ := Result.bind_eq_ok.mp filled
    cases made
    exact Array.size_replicate ..
  · split at filled <;> cases filled
    assumption
  · split at filled <;> cases filled
    assumption
  · obtain ⟨words, _, filled⟩ := Result.bind_eq_ok.mp filled
    split at filled <;> cases filled
    rename_i count
    rw [Bytes.size_ofWords, count, TensorType.byteSize, Nat.mul_comm]
    rfl

theorem Node.Furnished.leaf [Memory] {store : Store} {id : NodeId} {kind : String} {type : TensorType} {data : Value}
    {bytes : Bytes} {flag : Bool} (filled : leafBytes type data = .ok bytes) :
    Node.Furnished (store.insert ⟨bytes, flag⟩).2 ⟨id, kind, [], [], type, some store.size⟩ where
  bare _ := rfl
  given _ := .inr ⟨_, rfl⟩
  inside id own := by
    cases own
    simp
  sized id own := by
    cases own
    rw [Store.get_insert_self]
    exact size_leafBytes filled

/-- The leaves of graphs that were built are furnished, whatever rules there are for other kinds. -/
theorem Workspace.Built.furnished [Memory] {w : Workspace} (built : w.Built ShapeRules.Proper) :
    w.rules.Proper ∧ ∀ n ∈ w.graph.nodes, n.Furnished w.store := by
  induction built with
  | empty id name rules store fit => exact ⟨fit, by simp [Graph.empty]⟩
  | constant built made ih =>
    obtain ⟨type, bytes, _, filled, ⟨_, rfl⟩ | ⟨_, rfl, rfl⟩⟩ := Building.constant_cases made
    · exact ih
    · refine ⟨ih.1, fun m member => ?_⟩
      rcases Array.mem_push.mp member with old | rfl
      · exact (ih.2 m old).later (Store.extends_insert ..).later
      · exact .leaf filled
  | variableOf built made ih =>
    obtain ⟨type, bytes, _, filled, rfl, rfl⟩ := Building.variableOf_cases made
    refine ⟨ih.1, fun m member => ?_⟩
    rcases Array.mem_push.mp member with old | rfl
    · exact (ih.2 m old).later (Store.extends_insert ..).later
    · exact .leaf filled
  | placeholder built made ih =>
    obtain ⟨type, _, rfl, rfl⟩ := Building.placeholder_cases made
    refine ⟨ih.1, fun m member => ?_⟩
    rcases Array.mem_push.mp member with old | rfl
    · exact ih.2 m old
    · exact ⟨fun _ => rfl, fun _ => .inl rfl, fun _ own => (by cases own), fun _ own => (by cases own)⟩
  | call built own made ih =>
    obtain ⟨graph, applied, rfl⟩ := Building.call_cases made
    obtain ⟨rule, nodes, given, params, found, rfl, same, _, _, interned⟩ := Graph.apply_cases applied
    rcases Graph.intern_cases interned with ⟨_, _, _, rfl⟩ | ⟨type, _, rfl, rfl⟩
    · exact ih
    · refine ⟨ih.1, fun m member => ?_⟩
      rcases Array.mem_push.mp member with old | rfl
      · exact ih.2 m old
      · have interior : ∀ isLeaf : leafKinds.contains _ = true, False := fun isLeaf => by
          rw [ih.1 _ (List.contains_iff_mem.mp isLeaf)] at found
          cases found
        exact ⟨fun isLeaf => (interior isLeaf).elim, fun isLeaf => (interior isLeaf).elim,
          fun _ own => (by cases own), fun _ own => (by cases own)⟩
  | ruled rules built fit ih => exact ⟨fit, ih.2⟩
  | stored store built later ih => exact ⟨ih.1, fun n member => (ih.2 n member).later later⟩

/-! A graph of a variable, a placeholder, their sum and its square. -/
namespace Sample

def x : Node := ⟨⟨0, 0⟩, "variable", [], [], ⟨.float32, [2]⟩, some 0⟩

def y : Node := ⟨⟨0, 1⟩, "placeholder", [], [], ⟨.float32, [2]⟩, none⟩

def total : Node := ⟨⟨0, 2⟩, "add", [x, y], [], ⟨.float32, [2]⟩, none⟩

def square : Node := ⟨⟨0, 3⟩, "mul", [total, total], [], ⟨.float32, [2]⟩, none⟩

def workspace : Workspace where
  rules := .standard
  graph := ⟨0, .null, #[x, y, total, square],
    [(.interior "mul" [2, 2] [], square), (.interior "add" [0, 1] [], total)]⟩
  store := ⟨#[⟨.zeros 8, false⟩]⟩

theorem mem_nodes {n : Node} :
    n ∈ workspace.graph.nodes ↔ n = x ∨ n = y ∨ n = total ∨ n = square := by
  simp only [workspace, List.mem_toArray, List.mem_cons, List.not_mem_nil, or_false]

theorem built : workspace.Built (· = .standard) := by
  let store : Store := ⟨#[⟨.zeros 8, false⟩]⟩
  have start : Workspace.Built (· = .standard) ⟨.standard, .empty 0 .null, .empty⟩ :=
    .empty 0 .null .standard .empty rfl
  have first : Building.variableOf (.list [.int 2]) (.elementType .float32) .null
      ⟨.standard, .empty 0 .null, .empty⟩ = .ok x ⟨.standard, ⟨0, .null, #[x], []⟩, store⟩ := rfl
  have second : Building.placeholder (.list [.int 2]) (.elementType .float32)
      ⟨.standard, ⟨0, .null, #[x], []⟩, store⟩ =
        .ok y ⟨.standard, ⟨0, .null, #[x, y], []⟩, store⟩ := rfl
  have third : Building.call "add" [.node x, .node y] .null
      ⟨.standard, ⟨0, .null, #[x, y], []⟩, store⟩ = .ok total
        ⟨.standard, ⟨0, .null, #[x, y, total], [(.interior "add" [0, 1] [], total)]⟩, store⟩ := rfl
  have fourth : Building.call "mul" [.node total, .node total] .null
      ⟨.standard, ⟨0, .null, #[x, y, total], [(.interior "add" [0, 1] [], total)]⟩, store⟩ =
        .ok square workspace := rfl
  exact ((((start.variableOf first).placeholder second).call (by simp) third).call (by simp) fourth)

theorem built_proper : workspace.Built ShapeRules.Proper :=
  built.mono fun _ same => same ▸ ShapeRules.standard_proper

end Sample
end TensorDag
