import Mathlib.Data.List.Nodup
import TensorDag.Proofs.Order
import TensorDag.Proofs.Owning

/-!
The life of a graph. Whatever callers ask of it, and whether or not that fails, its nodes stay in place behind
their inputs, each of the type that its rule infers, and the memo knows the constants and the interior nodes by
their keys, each once, and nothing else.
-/
namespace TensorDag
open Program
open Building (Careful)

namespace Calls

/-- Arguments hold the nodes that were given by position; defaults hold none. -/
theorem mem_arguments {α : Type} {f : Callable α} {args values : List Value}
    (bare : ∀ p ∈ f.parameters, p.default = none ∨ p.default = some .null)
    (taken : f.arguments args [] = .ok values) : ∀ n, .node n ∈ values → .node n ∈ args := by
  intro n member
  unfold Callable.arguments at taken
  dsimp only at taken
  split at taken
  · cases taken
  split at taken
  · simp only [Result.bind_eq_ok, Result.pure_eq_ok] at taken
    obtain ⟨others, filled, rfl⟩ := taken
    rcases List.mem_append.mp member with given | other
    · exact given
    obtain ⟨p, listed, found⟩ := Result.mem_of_mapM filled _ other
    simp only [Callable.fill, List.lookup_nil, Option.none_or] at found
    split at found
    · rename_i default
      cases found
      rcases bare p (List.mem_of_mem_drop listed) with none | null
      · cases default.symm.trans none
      · cases default.symm.trans null
    · cases found
  · cases taken

theorem method_cases {name : String} {f : Node → Callable (Building Node)} (named : method? name = some f) :
    ∃ kind inputs attributes, ∀ n, (∀ p ∈ (f n).parameters, p.default = none ∨ p.default = some .null) ∧
      ∀ values, (f n).run values = (ofKind kind ("" :: inputs) (plainly attributes)).run (.node n :: values) := by
  unfold method? at named
  split at named
  · cases named
    exact ⟨.reshape, [], [needed "shape"], fun n => ⟨by simp [ofKind, plainly, needed], fun _ => rfl⟩⟩
  · cases named
    exact ⟨.transpose, [], [optional "order"], fun n => ⟨by simp [ofKind, plainly, optional], fun _ => rfl⟩⟩
  · cases named
    exact ⟨.sum, [], [optional "axes"], fun n => ⟨by simp [ofKind, plainly, optional], fun _ => rfl⟩⟩
  · cases named
    exact ⟨.broadcast, [], [needed "shape"], fun n => ⟨by simp [ofKind, plainly, needed], fun _ => rfl⟩⟩
  · cases named
    exact ⟨.matmul, ["other"], [], fun n => ⟨by simp [ofKind, plainly, needed], fun _ => rfl⟩⟩
  · cases named

theorem careful_ofKind {rules : ShapeRules} (proper : rules.Proper) {held : Node → Prop} (kind : Kind)
    (inputs : List String) (attributes : List (Parameter × String)) {values : List Value}
    (given : ∀ n, .node n ∈ values → held n) :
    Careful rules held .node ((ofKind kind inputs attributes).run values) := by
  have taken : ∀ v ∈ values.take inputs.length, ∀ n, v = .node n → held n := by
    intro v member n same
    exact given n (same ▸ List.mem_of_mem_take member)
  simp only [ofKind]
  split
  · exact .throw _
  · rename_i first others split
    rw [split] at taken
    obtain ⟨here, later⟩ := List.forall_mem_cons.mp taken
    exact .on proper kind _ here fun n member => later _ member n rfl

end Calls

/-- A method of a node, with arguments by position. -/
def Calls.onNode (n : Node) (name : String) (args : List Value) : Building Node :=
  match method? name with
  | some f => do (f n).run (← Building.of ((f n).arguments args []))
  | none => throw (.fault .noAttribute)

theorem Calls.careful_onNode {rules : ShapeRules} (proper : rules.Proper) {held : Node → Prop} {n : Node}
    {name : String} {args : List Value} (own : held n) (given : ∀ m, .node m ∈ args → held m) :
    Careful rules held .node (onNode n name args) := by
  unfold onNode
  split
  · rename_i f named
    obtain ⟨kind, inputs, attributes, same⟩ := method_cases named
    obtain ⟨bare, same⟩ := same n
    refine .of_bind fun values taken => ?_
    rw [same]
    refine careful_ofKind proper kind _ _ fun m member => ?_
    rcases List.mem_cons.mp member with here | other
    · exact Value.node.inj here ▸ own
    · exact given m (mem_arguments bare taken m other)
  · exact .throw _

/-- What callers ask of a graph. -/
inductive Request
  | constant (shape elementType data : Value)
  | variableOf (shape elementType data : Value)
  | placeholder (shape elementType : Value)
  | call (kind : String) (inputs : List Value) (params : Value)
  | operator (op : BinaryKind) (a b : Value)
  | negative (v : Value)
  | matrixOperator (a b : Value)
  | method (n : Node) (name : String) (args : List Value)
  | gradient (rules : Gradient.Rules) (objective targets : Value)

namespace Request

def run [Memory] : Request → Building (List Node)
  | constant shape elementType data => return [← Building.constant shape elementType data]
  | variableOf shape elementType data => return [← Building.variableOf shape elementType data]
  | placeholder shape elementType => return [← Building.placeholder shape elementType]
  | call kind inputs params => return [← Building.call kind inputs params]
  | operator op a b => return [← Building.operator op a b]
  | negative v => return [← Building.negative v]
  | matrixOperator a b => return [← Building.matrixOperator a b]
  | method n name args => return [← Calls.onNode n name args]
  | gradient rules objective targets => Gradient.ofValues rules objective targets

def isPlain : Request → Bool
  | constant .. | variableOf .. | placeholder .. | call .. => true
  | _ => false

/-- Nodes in a request are nodes that a caller can have: those of the graph are there. Gradients are asked for
objectives of the graph, and their rules build with care. -/
def Fits (shapes : ShapeRules) (w : Workspace) : Request → Prop
  | call _ inputs _ => ∀ n, .node n ∈ inputs → w.Owns n
  | operator _ a b => a.Held w.Owns ∧ b.Held w.Owns
  | negative v => ∀ n, v = .node n → w.Owns n
  | matrixOperator a b => (∀ n, a = .node n → w.Owns n) ∧ ∀ n, b = .node n → w.Owns n
  | method n _ args => w.Owns n ∧ ∀ m, .node m ∈ args → w.Owns m
  | gradient rules objective _ => rules.Careful shapes ∧ ∀ n, objective = .node n → n ∈ w.graph.nodes
  | _ => True

variable {shapes : ShapeRules} {w : Workspace}

theorem careful_one {held : Node → Prop} {x : Building Node} (careful : Careful shapes held .node x) :
    Careful shapes held .several (do return [← x]) :=
  careful.bind fun _ => .pure fun _ => .inr

theorem careful [Memory] (proper : shapes.Proper) (coherent : w.Coherent (· = shapes)) {r : Request}
    (fit : r.Fits shapes w) : Careful shapes w.Owns .several r.run := by
  cases r with
  | constant shape elementType data => exact careful_one (.constant ..)
  | variableOf shape elementType data => exact careful_one (.variableOf ..)
  | placeholder shape elementType => exact careful_one (.placeholder ..)
  | call kind inputs params => exact careful_one (.call proper params fit)
  | operator op a b => exact careful_one (.operator proper op fit.1 fit.2)
  | negative v => exact careful_one (.negative proper fit)
  | matrixOperator a b => exact careful_one (.matrixOperator proper fit.1 fit.2)
  | method n name args => exact careful_one (Calls.careful_onNode proper fit.1 fit.2)
  | gradient rules objective targets =>
    refine Gradient.careful_ofValues proper fit.1 targets fun n same m member => ?_
    have mine := Node.order_own coherent.arena (by simpa using fit.2 n same) m member
    exact ⟨fun _ => mine, fun x input _ => coherent.arena.inputs mine input⟩

theorem advances [Memory] (proper : shapes.Proper) (coherent : w.Coherent (· = shapes)) {r : Request}
    (fit : r.Fits shapes w) : w.Advances shapes (final r.run w) := by
  have spec := (careful proper coherent fit).advances w coherent fun _ => id
  unfold final
  cases ran : r.run w with
  | ok nodes v => exact (spec.of_ok ran).1
  | error e v => exact spec.of_error ran

theorem unchanged [Memory] {r : Request} (plain : r.isPlain = true) {e : Error} {v : Workspace}
    (ran : r.run w = .error e v) : v = w := by
  have one : ∀ {x : Building Node}, Ensures x w (fun _ _ => True) (fun v => v = w) →
      Ensures (do return [← x]) w (fun _ _ => True) (fun v => v = w) := fun spec =>
    .bind (spec.weaken (fun _ _ _ => .pure trivial) fun _ => id)
  have spec : Ensures r.run w (fun _ _ => True) (fun v => v = w) := by
    cases r with
    | constant shape elementType data => exact one (Building.constant_unchanged ..)
    | variableOf shape elementType data => exact one (Building.variableOf_unchanged ..)
    | placeholder shape elementType => exact one (Building.placeholder_unchanged ..)
    | call kind inputs params => exact one (Building.call_unchanged ..)
    | _ => cases plain
  exact spec.of_error ran

end Request

/-- Graphs with what callers have asked of them so far, while buffers change in between. -/
inductive Workspace.Lives [Memory] (shapes : ShapeRules) : Workspace → Prop
  | empty (id : Nat) (name : Value) (store : Store) : Lives shapes ⟨shapes, .empty id name, store⟩
  | asked {w : Workspace} (life : Lives shapes w) (r : Request) (fit : r.Fits shapes w) :
    Lives shapes (final r.run w)
  | stored {w : Workspace} (life : Lives shapes w) (store : Store) (later : w.store.Later store) :
    Lives shapes { w with store }

/-- Graphs whose nodes stand behind their inputs and have the types that the rules infer, and whose memo knows the
constants by type and content, the interior nodes by their keys, and nothing else. -/
structure Graph.Invariant (shapes : ShapeRules) (store : Store) (g : Graph) : Prop where
  placed : ∀ (i : Nat) (n : Node), g.nodes[i]? = some n → n.id = ⟨g.id, i⟩
  inputs : ∀ n ∈ g.nodes, ∀ x ∈ n.inputs, x ∈ g.nodes ∧ x.id.index < n.id.index
  typed : ∀ n ∈ g.nodes, n.isLeaf = false → ∃ rule, shapes.lookup n.kind = some rule ∧
    rule.infer (n.inputs.map Node.type) n.params = .ok n.type
  constants : ∀ n ∈ g.nodes, n.kind = "constant" → ∃ id, n.buffer = some id ∧
    g.find? (.constant n.type (store.get id).bytes) = some n
  interiors : ∀ n ∈ g.nodes, n.isLeaf = false → g.find? (Graph.keyOf n) = some n
  entries : ∀ entry ∈ g.memo, entry.2 ∈ g.nodes ∧ entry.2.key? store = some entry.1
  others : ∀ entry ∈ g.memo, entry.2.kind ≠ "variable" ∧ entry.2.kind ≠ "placeholder"
  keys : (g.memo.map Prod.fst).Nodup
  values : (g.memo.map Prod.snd).Nodup
  apart : ∀ n ∈ g.nodes, ∀ m ∈ g.nodes, ∀ key, n.key? store = some key → m.key? store = some key → n = m

namespace Workspace
variable {shapes : ShapeRules} {w : Workspace}

theorem Coherent.satisfied (coherent : w.Coherent (· = shapes)) : w.graph.Invariant shapes w.store where
  placed := coherent.placed
  inputs := coherent.inputs
  typed n member interior := by
    obtain ⟨rules, rule, same, ruled, inferred⟩ := coherent.typed n member interior
    exact ⟨rule, same ▸ ruled, inferred⟩
  constants n member constant := by
    obtain ⟨id, held, _⟩ := coherent.fixed n member constant
    refine ⟨id, held, coherent.filed n member _ ?_⟩
    rw [Node.key?, if_pos constant, held, Option.map_some]
  interiors n member interior := coherent.filed n member _ (Node.key?_interior interior)
  entries entry member := ⟨coherent.memo entry member, coherent.known entry member⟩
  others entry member := by
    have keyed := coherent.known entry member
    constructor
    all_goals
      intro kind
      simp [Node.key?, Node.isLeaf, leafKinds, kind] at keyed
  keys := coherent.single
  values := by
    -- entries of one node have one key
    refine List.Nodup.map_on (fun entry member other member' same => ?_) (.of_map _ coherent.single)
    have key := coherent.known entry member
    rw [same, coherent.known other member'] at key
    exact Prod.ext (Option.some.inj key).symm same
  apart _ first _ second _ := coherent.eq_of_key first second

theorem Lives.coherent [Memory] (proper : shapes.Proper) (life : w.Lives shapes) : w.Coherent (· = shapes) := by
  induction life with
  | empty id name store => exact .empty id name shapes store rfl
  | asked _ r fit ih => exact (Request.advances proper ih fit).coherent
  | stored _ store later ih => exact ih.stored later

/-- Whatever was asked of a graph before, failing requests included, its nodes and its memo are right; whatever
is asked next leaves the nodes that are there as they are, and if it asks for one node and fails, it leaves the
whole graph. -/
theorem Lives.invariant [Memory] (proper : shapes.Proper) (life : w.Lives shapes) :
    w.graph.Invariant shapes w.store ∧ ∀ r : Request, r.Fits shapes w →
      (∀ (i : Nat) (n : Node), w.graph.nodes[i]? = some n → (final r.run w).graph.nodes[i]? = some n) ∧
        w.store.Extends (final r.run w).store ∧
          (r.isPlain = true → ∀ e v, r.run w = .error e v → v.graph = w.graph) := by
  have coherent := life.coherent proper
  refine ⟨coherent.satisfied, fun r fit => ?_⟩
  have next := Request.advances proper coherent fit
  refine ⟨next.keeps.nodes, next.store, fun plain e v ran => ?_⟩
  rw [Request.unchanged plain ran]

end Workspace

namespace Sample

/-- A variable, a sum of it with what is no node, and its double. -/
theorem invariant_doubled :
    let first := final (Request.variableOf (.list [.int 2]) (.elementType .float32) .null).run
      ⟨.standard, .empty 0 .null, .empty⟩
    let second := final (Request.call "add" [.node x, .int 3] .null).run first
    let w := final (Request.operator .mul (.node x) (.int 2)).run second
    w.graph.Invariant .standard w.store ∧ ∀ r : Request, r.Fits .standard w →
      (∀ (i : Nat) (n : Node), w.graph.nodes[i]? = some n → (final r.run w).graph.nodes[i]? = some n) ∧
        w.store.Extends (final r.run w).store ∧
          (r.isPlain = true → ∀ e v, r.run w = .error e v → v.graph = w.graph) := by
  intro first second w
  have here : ∀ n : Node, Value.node x = .node n → first.Owns n ∧ second.Owns n := by
    intro n same
    cases same
    exact ⟨fun _ => Array.mem_singleton.mpr rfl, fun _ => Array.mem_singleton.mpr rfl⟩
  have life : first.Lives .standard := .asked (.empty 0 .null .empty) (.variableOf _ _ _) trivial
  have life : second.Lives .standard := .asked life (.call "add" _ _) fun n member => by
    rcases List.mem_pair.mp member with same | same
    · exact (here n same.symm).1
    · cases same
  refine Workspace.Lives.invariant ShapeRules.standard_proper (.asked life (.operator .mul _ _) ⟨?_, ?_⟩)
  · intro n inside
    rcases inside with same | ⟨_, _, same, _⟩
    · exact (here n same).2
    · cases same
  · intro n inside
    rcases inside with same | ⟨_, _, same, _⟩
    · cases same
    · cases same

end Sample
end TensorDag
