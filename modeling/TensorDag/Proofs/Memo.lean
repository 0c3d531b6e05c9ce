import Mathlib.Data.List.Basic
import TensorDag.Proofs.Building

/-!
What the memo of a graph knows. Constants and interior nodes have one key each and are found by it, no
two nodes share a key, and a key that was found once leads to the same node ever after.
-/
namespace TensorDag
open Program

/-- What becomes of a workspace while callers build on, rules come and go and buffers change. -/
inductive Workspace.Becomes [Memory] (allowed : ShapeRules → Prop) (w : Workspace) : Workspace → Prop
  | refl : Becomes allowed w w
  | constant {v v' : Workspace} {shape elementType data : Value} {n : Node} (path : Becomes allowed w v)
    (made : Building.constant shape elementType data v = .ok n v') : Becomes allowed w v'
  | variableOf {v v' : Workspace} {shape elementType data : Value} {n : Node} (path : Becomes allowed w v)
    (made : Building.variableOf shape elementType data v = .ok n v') : Becomes allowed w v'
  | placeholder {v v' : Workspace} {shape elementType : Value} {n : Node} (path : Becomes allowed w v)
    (made : Building.placeholder shape elementType v = .ok n v') : Becomes allowed w v'
  | call {v v' : Workspace} {kind : String} {inputs : List Value} {params : Value} {n : Node}
    (path : Becomes allowed w v)
    (own : ∀ x : Node, .node x ∈ inputs → x.id.graph = v.graph.id → x ∈ v.graph.nodes)
    (made : Building.call kind inputs params v = .ok n v') : Becomes allowed w v'
  | ruled {v : Workspace} (rules : ShapeRules) (path : Becomes allowed w v) (fit : allowed rules) :
    Becomes allowed w { v with rules }
  | stored {v : Workspace} (store : Store) (path : Becomes allowed w v) (later : v.store.Later store) :
    Becomes allowed w { v with store }

/-- What a node is found by: variables and placeholders are found by nothing. -/
def Node.key? (store : Store) (n : Node) : Option MemoKey :=
  if n.kind = "constant" then n.buffer.map fun id => .constant n.type (store.get id).bytes
  else if n.isLeaf then none
  else some (Graph.keyOf n)

theorem Graph.keyOf_eq {n : Node} {key : MemoKey} (keyed : key? n.kind n.inputs n.params = some key) :
    keyOf n = key := by
  rw [keyOf, keyed, Option.getD_some]

theorem Graph.keyOf_ne_constant {n : Node} {type : TensorType} {bytes : Bytes} : keyOf n ≠ .constant type bytes := by
  unfold keyOf key?
  cases n.params.key? <;> exact MemoKey.noConfusion

theorem Graph.keyOf_interior {n : Node} {kind : String} {inputs : List Nat} {params : Params}
    (keyed : keyOf n = .interior kind inputs params) :
    n.kind = kind ∧ n.inputs.map (·.id.index) = inputs ∧ n.params.key? = some params := by
  unfold keyOf key? at keyed
  cases found : n.params.key? with
  | none =>
    rw [found] at keyed
    cases keyed
  | some keys =>
    rw [found] at keyed
    obtain ⟨named, inputs, rfl⟩ := MemoKey.interior.inj keyed
    exact ⟨named, inputs, rfl⟩

theorem Graph.keyOf_unmatched {n m : Node} (unkeyed : key? n.kind n.inputs n.params = none) (same : keyOf m = keyOf n) :
    m.id.index = n.id.index := by
  rw [keyOf, keyOf, unkeyed] at same
  cases found : m.params.key? with
  | none =>
    rw [key?, found] at same
    exact (MemoKey.unmatched.inj same).2.2.2
  | some keys =>
    rw [key?, found] at same
    cases same

theorem Node.key?_interior {store : Store} {n : Node} (interior : n.isLeaf = false) :
    n.key? store = some (Graph.keyOf n) := by
  have other : n.kind ≠ "constant" := by
    intro same
    rw [Node.isLeaf, same] at interior
    cases interior
  rw [Node.key?, if_neg other, interior, if_neg Bool.false_ne_true]

theorem Node.of_key?_constant {store : Store} {n : Node} {type : TensorType} {bytes : Bytes}
    (keyed : n.key? store = some (.constant type bytes)) :
    n.kind = "constant" ∧ n.type = type ∧ ∃ id, n.buffer = some id ∧ (store.get id).bytes = bytes := by
  unfold Node.key? at keyed
  split at keyed
  · rename_i constant
    obtain ⟨id, held, key⟩ := Option.map_eq_some_iff.mp keyed
    obtain ⟨typed, content⟩ := MemoKey.constant.inj key
    exact ⟨constant, typed, id, held, content⟩
  · split at keyed
    · cases keyed
    · exact absurd (Option.some.inj keyed) Graph.keyOf_ne_constant

theorem Node.of_key? {store : Store} {n : Node} {key : MemoKey} (keyed : n.key? store = some key)
    (other : ∀ type bytes, key ≠ .constant type bytes) : n.isLeaf = false ∧ Graph.keyOf n = key := by
  unfold Node.key? at keyed
  split at keyed
  · obtain ⟨_, _, same⟩ := Option.map_eq_some_iff.mp keyed
    exact absurd same.symm (other _ _)
  · split at keyed
    · cases keyed
    · rename_i interior
      exact ⟨by simpa using interior, Option.some.inj keyed⟩

theorem Node.of_key?_interior {store : Store} {n : Node} {kind : String} {inputs : List Nat} {params : Params}
    (keyed : n.key? store = some (.interior kind inputs params)) :
    n.isLeaf = false ∧ n.kind = kind ∧ n.inputs.map (·.id.index) = inputs ∧ n.params.key? = some params := by
  obtain ⟨interior, same⟩ := Node.of_key? keyed fun _ _ => MemoKey.noConfusion
  exact ⟨interior, Graph.keyOf_interior same⟩

/-- The content of a constant cannot change any more. -/
def Node.Sealed (store : Store) (n : Node) : Prop :=
  n.kind = "constant" → ∃ id, n.buffer = some id ∧ id < store.size ∧ (store.get id).readonly = true

theorem Node.Sealed.later {store store' : Store} {n : Node} (fixed : n.Sealed store) (later : store.Later store') :
    n.Sealed store' := by
  intro constant
  obtain ⟨id, held, inside, readonly⟩ := fixed constant
  exact ⟨id, held, Nat.lt_of_lt_of_le inside later.grows, by rw [later.sealed id inside readonly, readonly]⟩

theorem Node.Sealed.key?_later {store store' : Store} {n : Node} (fixed : n.Sealed store)
    (later : store.Later store') : n.key? store' = n.key? store := by
  by_cases constant : n.kind = "constant"
  · obtain ⟨id, held, inside, readonly⟩ := fixed constant
    rw [Node.key?, Node.key?, if_pos constant, if_pos constant, held, Option.map_some, Option.map_some,
      later.sealed id inside readonly]
  · rw [Node.key?, Node.key?, if_neg constant, if_neg constant]

/-- Each interior node has the type that a rule of its kind inferred. -/
def Node.Typed (allowed : ShapeRules → Prop) (n : Node) : Prop :=
  n.isLeaf = false → ∃ rules rule, allowed rules ∧ rules.lookup n.kind = some rule ∧
    rule.infer (n.inputs.map Node.type) n.params = .ok n.type

theorem ShapeRules.Proper.interior {rules : ShapeRules} {rule : ShapeRule} {kind : String} (proper : rules.Proper)
    (found : rules.lookup kind = some rule) : leafKinds.contains kind = false := by
  cases leaf : leafKinds.contains kind with
  | false => rfl
  | true =>
    rw [proper kind (List.contains_iff_mem.mp leaf)] at found
    cases found

namespace Graph
variable {g : Graph} {key other : MemoKey} {n m : Node}

theorem find?_remembering_some : Graph.find? { g with memo := g.remembering (some key) n } key = some n := by
  simp [find?, remembering]

theorem find?_remembering_old (found : g.find? other = some m) {key : Option MemoKey}
    (fresh : ∀ k, key = some k → g.find? k = none) :
    Graph.find? { g with memo := g.remembering key n } other = some m := by
  cases key with
  | none => exact found
  | some k =>
    have differ : other ≠ k := by
      intro same
      rw [same, fresh k rfl] at found
      cases found
    simpa [find?, remembering, List.lookup_cons, beq_false_of_ne differ] using found

theorem find?_isSome_of_mem {entry : MemoKey × Node} (member : entry ∈ g.memo) :
    g.find? entry.1 ≠ none := by
  intro absent
  exact List.lookup_eq_none_iff.mp absent entry member |>.symm |> fun differ => by simp at differ

theorem Ordered.eq_of_indices (ordered : g.Ordered) {as bs : List Node} (first : ∀ x ∈ as, x ∈ g.nodes)
    (second : ∀ x ∈ bs, x ∈ g.nodes) (same : as.map (·.id.index) = bs.map (·.id.index)) : as = bs := by
  have places : ∀ nodes : List Node, (∀ x ∈ nodes, x ∈ g.nodes) →
      nodes.map some = (nodes.map (·.id.index)).map (g.nodes[·]?) := by
    intro nodes own
    rw [List.map_map]
    exact List.map_congr_left fun x member => (ordered.index_lt (own x member)).2.symm
  refine List.map_injective_iff.mpr (fun _ _ => Option.some.inj) ?_
  rw [places as first, places bs second, same]

theorem intern_found {g' : Graph} {rule : ShapeRule} {kind : String} {inputs : List Node} {params : Params}
    (keyed : key? kind inputs params = some key) (found : g.find? key = some m)
    (made : g.intern rule kind inputs params = .ok (n, g')) : m = n ∧ g = g' := by
  simp only [intern, keyed, Option.bind_some, found, Except.ok.injEq, Prod.mk.injEq] at made
  exact made

theorem mem_memo_of_find? (found : g.find? key = some n) : (key, n) ∈ g.memo := by
  obtain ⟨before, after, split, _⟩ := List.lookup_eq_some_iff.mp found
  exact split ▸ by simp

end Graph

namespace Workspace

/-- Workspaces in which the memo is right: nodes stand behind their inputs and have the types that rules
infer, each is found by its key, and the memo knows nothing else. -/
structure Coherent (allowed : ShapeRules → Prop) (w : Workspace) : Prop extends w.graph.Ordered where
  rules : allowed w.rules
  typed : ∀ n ∈ w.graph.nodes, n.Typed allowed
  fixed : ∀ n ∈ w.graph.nodes, n.Sealed w.store
  filed : ∀ n ∈ w.graph.nodes, ∀ key, n.key? w.store = some key → w.graph.find? key = some n
  known : ∀ entry ∈ w.graph.memo, entry.2.key? w.store = some entry.1
  single : (w.graph.memo.map Prod.fst).Nodup

/-- What stays of a workspace: its nodes where they are, and what its memo knows. -/
structure Keeps (w v : Workspace) : Prop where
  graph : v.graph.id = w.graph.id
  nodes : ∀ (i : Nat) (n : Node), w.graph.nodes[i]? = some n → v.graph.nodes[i]? = some n
  memo : ∀ key n, w.graph.find? key = some n → v.graph.find? key = some n

variable {allowed : ShapeRules → Prop} {w v u : Workspace} {n m : Node}

theorem Keeps.refl (w : Workspace) : w.Keeps w := ⟨rfl, fun _ _ => id, fun _ _ => id⟩

theorem Keeps.trans (first : w.Keeps v) (second : v.Keeps u) : w.Keeps u where
  graph := second.graph.trans first.graph
  nodes i n found := second.nodes i n (first.nodes i n found)
  memo key n found := second.memo key n (first.memo key n found)

theorem Keeps.mem (keeps : w.Keeps v) (member : n ∈ w.graph.nodes) : n ∈ v.graph.nodes := by
  obtain ⟨i, inside, here⟩ := Array.mem_iff_getElem.mp member
  exact Array.mem_of_getElem? (keeps.nodes i n (by rw [Array.getElem?_eq_getElem inside, here]))

theorem Keeps.pushed (key : Option MemoKey) {store : Store} (fresh : ∀ k, key = some k → w.graph.find? k = none) :
    w.Keeps { w with
      graph := { w.graph with nodes := w.graph.nodes.push n, memo := w.graph.remembering key n }, store } where
  graph := rfl
  nodes i m found := by
    have inside : i < w.graph.nodes.size := (Array.getElem?_eq_some_iff.mp found).1
    rw [Array.getElem?_push, if_neg (Nat.ne_of_lt inside), found]
  memo other m found := Graph.find?_remembering_old found fresh

namespace Coherent

theorem empty (id : Nat) (name : Value) (rules : ShapeRules) (store : Store) (fit : allowed rules) :
    Coherent allowed ⟨rules, .empty id name, store⟩ := by
  refine ⟨?_, fit, ?_, ?_, ?_, ?_, ?_⟩
  · constructor <;> simp [Graph.empty]
  all_goals simp [Graph.empty]

theorem stored (coherent : w.Coherent allowed) {store : Store} (later : w.store.Later store) :
    Coherent allowed { w with store } where
  toOrdered := coherent.toOrdered
  rules := coherent.rules
  typed := coherent.typed
  fixed m member := (coherent.fixed m member).later later
  filed m member key keyed := by
    rw [(coherent.fixed m member).key?_later later] at keyed
    exact coherent.filed m member key keyed
  known entry member := by
    rw [(coherent.fixed _ (coherent.memo entry member)).key?_later later]
    exact coherent.known entry member
  single := coherent.single

/-- A new node whose key led to none. -/
theorem pushed (coherent : w.Coherent allowed) {store : Store} (later : w.store.Later store)
    (named : n.id = ⟨w.graph.id, w.graph.size⟩) (own : ∀ x ∈ n.inputs, x ∈ w.graph.nodes)
    (typed : n.Typed allowed) (fixed : n.Sealed store)
    (fresh : ∀ key, n.key? store = some key → w.graph.find? key = none) :
    Coherent allowed { w with
      graph := { w.graph with
        nodes := w.graph.nodes.push n
        memo := w.graph.remembering (n.key? store) n }
      store } := by
  have before := coherent.stored later
  refine ⟨coherent.appended named own fun _ => Graph.mem_remembering, coherent.rules, ?_, ?_, ?_, ?_, ?_⟩
  · intro m member
    rcases Array.mem_push.mp member with old | rfl
    · exact coherent.typed m old
    · exact typed
  · intro m member
    rcases Array.mem_push.mp member with old | rfl
    · exact before.fixed m old
    · exact fixed
  · intro m member key keyed
    rcases Array.mem_push.mp member with old | rfl
    · exact Graph.find?_remembering_old (before.filed m old key keyed) fresh
    · simp only [keyed]
      exact Graph.find?_remembering_some
  · intro entry member
    cases keyed : n.key? store with
    | none =>
      rw [keyed] at member
      exact before.known entry member
    | some key =>
      rw [keyed] at member
      rcases List.mem_cons.mp member with rfl | old
      · exact keyed
      · exact before.known entry old
  · cases keyed : n.key? store with
    | none => exact coherent.single
    | some key =>
      refine List.nodup_cons.mpr ⟨?_, coherent.single⟩
      intro member
      obtain ⟨entry, old, same⟩ := List.mem_map.mp member
      exact Graph.find?_isSome_of_mem old (same ▸ fresh key keyed)

theorem eq_of_key (coherent : w.Coherent allowed) (first : n ∈ w.graph.nodes) (second : m ∈ w.graph.nodes)
    {key : MemoKey} (here : n.key? w.store = some key) (there : m.key? w.store = some key) : n = m := by
  have found := coherent.filed n first key here
  rw [coherent.filed m second key there] at found
  exact (Option.some.inj found).symm

theorem found (coherent : w.Coherent allowed) {key : MemoKey} (found : w.graph.find? key = some n) :
    n ∈ w.graph.nodes ∧ n.key? w.store = some key :=
  ⟨coherent.toOrdered.found found, coherent.known _ (Graph.mem_memo_of_find? found)⟩

/-- A node behind all others whose call found none is found by no key before it is added. -/
theorem fresh (coherent : w.Coherent allowed) (named : n.id.index = w.graph.size)
    (absent : ∀ key, Graph.key? n.kind n.inputs n.params = some key → w.graph.find? key = none) :
    w.graph.find? (Graph.keyOf n) = none := by
  cases keyed : Graph.key? n.kind n.inputs n.params with
  | some key => rw [Graph.keyOf_eq keyed, absent key keyed]
  | none =>
    cases found : w.graph.find? (Graph.keyOf n) with
    | none => rfl
    | some m =>
      obtain ⟨member, here⟩ := coherent.found found
      have behind := Graph.keyOf_unmatched keyed (Node.of_key? here fun _ _ => Graph.keyOf_ne_constant).2
      have before := (coherent.toOrdered.index_lt member).1
      rw [behind, named] at before
      exact absurd before (Nat.lt_irrefl _)

theorem constant [Memory] {shape elementType data : Value} (coherent : w.Coherent allowed)
    (made : Building.constant shape elementType data w = .ok n v) :
    v.Coherent allowed ∧ w.Keeps v ∧ n ∈ v.graph.nodes := by
  obtain ⟨type, bytes, _, _, ⟨found, rfl⟩ | ⟨absent, rfl, rfl⟩⟩ := Building.constant_cases made
  · exact ⟨coherent, .refl v, (coherent.found found).1⟩
  · have content : (Store.get ⟨w.store.buffers.push ⟨bytes, true⟩⟩ w.store.buffers.size) = ⟨bytes, true⟩ :=
      Store.get_insert_self w.store ⟨bytes, true⟩
    have keyed : Node.key? ⟨w.store.buffers.push ⟨bytes, true⟩⟩
        ⟨⟨w.graph.id, w.graph.size⟩, "constant", [], [], type, some w.store.buffers.size⟩ =
          some (.constant type bytes) := by
      rw [Node.key?, if_pos rfl, Option.map_some, content]
    have fresh : ∀ key, some (.constant type bytes) = some key → w.graph.find? key = none := by
      intro key same
      cases same
      exact absent
    have next := coherent.pushed (Store.extends_insert w.store ⟨bytes, true⟩).later rfl (by simp)
      (fun interior => by cases interior)
      (fun _ => ⟨_, rfl, by simp [Store.size, Store.insert], congrArg Buffer.readonly content⟩)
      (fun key same => fresh key (keyed.symm.trans same))
    rw [show (w.store.insert ⟨bytes, true⟩).2 = ⟨w.store.buffers.push ⟨bytes, true⟩⟩ from rfl, keyed] at next
    exact ⟨next, .pushed _ fresh, Array.mem_push_self⟩

theorem variableOf [Memory] {shape elementType data : Value} (coherent : w.Coherent allowed)
    (made : Building.variableOf shape elementType data w = .ok n v) :
    v.Coherent allowed ∧ w.Keeps v ∧ n ∈ v.graph.nodes := by
  obtain ⟨type, bytes, _, _, rfl, rfl⟩ := Building.variableOf_cases made
  refine ⟨coherent.pushed (Store.extends_insert w.store ⟨bytes, false⟩).later rfl (by simp) ?_ ?_ ?_,
    Keeps.pushed none nofun, Array.mem_push_self⟩
  · exact fun interior => by cases interior
  · exact fun constant => absurd constant (by simp)
  · exact fun key keyed => by cases keyed

theorem placeholder {shape elementType : Value} (coherent : w.Coherent allowed)
    (made : Building.placeholder shape elementType w = .ok n v) :
    v.Coherent allowed ∧ w.Keeps v ∧ n ∈ v.graph.nodes := by
  obtain ⟨type, _, rfl, rfl⟩ := Building.placeholder_cases made
  refine ⟨coherent.pushed (Store.Extends.refl _).later rfl (by simp) ?_ ?_ ?_,
    Keeps.pushed none nofun, Array.mem_push_self⟩
  · exact fun interior => by cases interior
  · exact fun constant => absurd constant (by simp)
  · exact fun key keyed => by cases keyed

theorem call {kind : String} {inputs : List Value} {params : Value} (coherent : w.Coherent allowed)
    (proper : ∀ rules, allowed rules → rules.Proper)
    (own : ∀ x : Node, .node x ∈ inputs → x.id.graph = w.graph.id → x ∈ w.graph.nodes)
    (made : Building.call kind inputs params w = .ok n v) :
    v.Coherent allowed ∧ w.Keeps v ∧ n ∈ v.graph.nodes := by
  obtain ⟨graph, applied, rfl⟩ := Building.call_cases made
  obtain ⟨rule, nodes, given, ps, ruled, rfl, same, _, _, interned⟩ := Graph.apply_cases applied
  have interior := (proper _ coherent.rules).interior ruled
  by_cases known : ∃ key m, Graph.key? kind nodes ps = some key ∧ w.graph.find? key = some m
  · obtain ⟨key, m, keyed, found⟩ := known
    obtain ⟨rfl, rfl⟩ := Graph.intern_found keyed found interned
    exact ⟨coherent, .refl _, (coherent.found found).1⟩
  · have absent : ∀ key, Graph.key? kind nodes ps = some key → w.graph.find? key = none := by
      intro key keyed
      cases found : w.graph.find? key with
      | none => rfl
      | some m => exact absurd ⟨key, m, keyed, found⟩ known
    rcases Graph.intern_cases interned with ⟨key, keyed, found, _⟩ | ⟨type, inferred, rfl, rfl⟩
    · exact absurd ⟨key, n, keyed, found⟩ known
    · have fresh := coherent.fresh (n := ⟨⟨w.graph.id, w.graph.size⟩, kind, nodes, ps, type, none⟩) rfl absent
      have keyed : Node.key? w.store ⟨⟨w.graph.id, w.graph.size⟩, kind, nodes, ps, type, none⟩ =
          some (Graph.keyOf ⟨⟨w.graph.id, w.graph.size⟩, kind, nodes, ps, type, none⟩) :=
        Node.key?_interior interior
      have next := coherent.pushed (Store.Extends.refl _).later
        (n := ⟨⟨w.graph.id, w.graph.size⟩, kind, nodes, ps, type, none⟩) rfl
        (fun x input => own x (List.mem_map_of_mem input) (same x input))
        (fun _ => ⟨w.rules, rule, coherent.rules, ruled, inferred⟩)
        (fun constant => by
          rw [show kind = "constant" from constant] at interior
          cases interior)
        (fun key here => by rwa [← Option.some.inj (keyed.symm.trans here)])
      rw [keyed] at next
      exact ⟨next, .pushed _ fun key here => by rwa [← Option.some.inj here], Array.mem_push_self⟩

end Coherent

/-- Whatever becomes of a workspace, its memo stays right and what it knows stays. -/
theorem Becomes.coherent [Memory] (path : w.Becomes allowed v) (proper : ∀ rules, allowed rules → rules.Proper)
    (coherent : w.Coherent allowed) : v.Coherent allowed ∧ w.Keeps v := by
  induction path with
  | refl => exact ⟨coherent, .refl w⟩
  | constant _ made ih =>
    obtain ⟨next, keeps, _⟩ := ih.1.constant made
    exact ⟨next, ih.2.trans keeps⟩
  | variableOf _ made ih =>
    obtain ⟨next, keeps, _⟩ := ih.1.variableOf made
    exact ⟨next, ih.2.trans keeps⟩
  | placeholder _ made ih =>
    obtain ⟨next, keeps, _⟩ := ih.1.placeholder made
    exact ⟨next, ih.2.trans keeps⟩
  | call _ own made ih =>
    obtain ⟨next, keeps, _⟩ := ih.1.call proper own made
    exact ⟨next, ih.2.trans keeps⟩
  | ruled rules _ fit ih => exact ⟨{ ih.1 with rules := fit }, ih.2.trans ⟨rfl, fun _ _ => id, fun _ _ => id⟩⟩
  | stored store _ later ih => exact ⟨ih.1.stored later, ih.2.trans ⟨rfl, fun _ _ => id, fun _ _ => id⟩⟩

theorem Built.becomes [Memory] (built : w.Built allowed) :
    ∃ start, Coherent allowed start ∧ start.Becomes allowed w := by
  induction built with
  | empty id name rules store fit => exact ⟨_, .empty id name rules store fit, .refl⟩
  | constant _ made ih => exact ih.imp fun _ ⟨start, path⟩ => ⟨start, .constant path made⟩
  | variableOf _ made ih => exact ih.imp fun _ ⟨start, path⟩ => ⟨start, .variableOf path made⟩
  | placeholder _ made ih => exact ih.imp fun _ ⟨start, path⟩ => ⟨start, .placeholder path made⟩
  | call _ own made ih => exact ih.imp fun _ ⟨start, path⟩ => ⟨start, .call path own made⟩
  | ruled rules _ fit ih => exact ih.imp fun _ ⟨start, path⟩ => ⟨start, .ruled rules path fit⟩
  | stored store _ later ih => exact ih.imp fun _ ⟨start, path⟩ => ⟨start, .stored store path later⟩

theorem Built.coherent [Memory] (built : w.Built allowed) (proper : ∀ rules, allowed rules → rules.Proper) :
    w.Coherent allowed := by
  obtain ⟨start, coherent, path⟩ := built.becomes
  exact (path.coherent proper coherent).1

end Workspace
end TensorDag
