import TensorDag.Proofs.Constants
import TensorDag.Proofs.Drawing

/-!
Independent samples. Graphs and plans share one table of streams, and callers build, write, execute and release
in any order. What a node of samples draws depends on its seed, its shape and the number of its earlier draws, and
on nothing else that happens.
-/
namespace TensorDag
open Program

/-- Each node has the place that its identity tells. -/
def Graph.Placed (g : Graph) : Prop := ∀ (i : Nat) (n : Node), g.nodes[i]? = some n → n.id = ⟨g.id, i⟩

theorem Graph.Placed.pushed {g : Graph} (placed : g.Placed) {n : Node} (named : n.id = ⟨g.id, g.size⟩)
    (memo : List (MemoKey × Node)) : Placed { g with nodes := g.nodes.push n, memo } := by
  intro i m found
  rw [Array.getElem?_push] at found
  split at found
  · rename_i last
    rw [← Option.some.inj found, named, last]
    rfl
  · exact placed i m found

namespace Workspace
variable {w w' : Workspace}

/-- A workspace that has grown, its nodes in their places. -/
structure Extends (w w' : Workspace) : Prop extends w.Grows w' where
  placed : w.graph.Placed → w'.graph.Placed

theorem Extends.refl (w : Workspace) : w.Extends w := ⟨.refl w, id⟩

theorem Extends.pushed {n : Node} {memo : List (MemoKey × Node)} {store : Store}
    (named : n.id = ⟨w.graph.id, w.graph.size⟩) (extended : w.store.Extends store) :
    w.Extends { w with graph := { w.graph with nodes := w.graph.nodes.push n, memo }, store } :=
  ⟨⟨rfl, fun _ => Array.mem_push_of_mem _, extended⟩, fun placed => placed.pushed named memo⟩

theorem Extends.trans {w'' : Workspace} (first : w.Extends w') (second : w'.Extends w'') : w.Extends w'' :=
  ⟨first.toGrows.trans second.toGrows, fun placed => second.placed (first.placed placed)⟩

theorem Leads.extends [Memory] (leads : w.Leads w') : w.Extends w' := by
  induction leads with
  | refl => exact .refl _
  | constant _ made ih =>
    obtain ⟨type, bytes, _, _, ⟨_, rfl⟩ | ⟨_, rfl, rfl⟩⟩ := Building.constant_cases made
    · exact ih
    · exact ih.trans (.pushed rfl (Store.extends_insert ..))
  | call _ made ih =>
    obtain ⟨graph, applied, rfl⟩ := Building.call_cases made
    obtain ⟨rule, nodes, given, params, _, _, _, _, _, interned⟩ := Graph.apply_cases applied
    rcases Graph.intern_cases interned with ⟨_, _, _, rfl⟩ | ⟨type, _, rfl, rfl⟩
    · exact ih
    · exact ih.trans (.pushed rfl (.refl _))

end Workspace

theorem BuilderCall.grows_final [Memory] (c : BuilderCall) (w : Workspace) : w.Extends (final c.run w) := by
  cases c.leaves_final w with
  | leads path => exact path.extends
  | variableOf made =>
    obtain ⟨type, bytes, _, _, named, left⟩ := Building.variableOf_cases made
    rw [left]
    exact .pushed (congrArg Node.id named) (Store.extends_insert ..)
  | placeholder made =>
    obtain ⟨type, _, named, left⟩ := Building.placeholder_cases made
    rw [left]
    exact .pushed (congrArg Node.id named) (.refl _)

namespace Realm
open Execution
variable {r : Realm} {n : Node} {log : List Call}

/-- Nodes of the graphs that there are. -/
def Has (r : Realm) (n : Node) : Prop := ∃ g ∈ r.graphs, n ∈ g.nodes

/-- The realms that callers lead to, with the calls of kernels that all executions made so far, failed ones
included. Plans, compiled or edited, run nodes of the graphs. -/
inductive Recorded [Memory] : List Call → Realm → Prop
  | opening (store : Store) : Recorded [] (opening store [])
  | founded {log : List Call} {r : Realm} (recorded : Recorded log r) (id : Nat) (name : Value)
    (fresh : ∀ g ∈ r.graphs, g.id ≠ id) : Recorded log { r with graphs := r.graphs ++ [.empty id name] }
  | built {log : List Call} {r : Realm} (recorded : Recorded log r) {i : Nat} {g : Graph}
    (here : r.graphs[i]? = some g) (rules : ShapeRules) (c : BuilderCall) :
    Recorded log (r.grown i (final c.run (r.workspace rules g)))
  | stored {log : List Call} {r : Realm} (recorded : Recorded log r) (store : Store) : Recorded log { r with store }
  | joined {log : List Call} {r : Realm} (recorded : Recorded log r) {m : Member}
    (own : ∀ step ∈ m.plan.steps, r.Has step.node) : Recorded log { r with members := r.members ++ [m] }
  | executed {log : List Call} {r : Realm} (recorded : Recorded log r) {i : Nat} {m : Member}
    (here : r.members[i]? = some m) (profiled : Bool) (bindings : List (Value × Value))
    (supplied : Option (List Value)) :
    Recorded (log ++ calls profiled m.plan bindings supplied (r.state m))
      (r.behind i m (final (run profiled m.plan bindings supplied) (r.state m)))
  | released {log : List Call} {r : Realm} (recorded : Recorded log r) {i : Nat} {m : Member}
    (here : r.members[i]? = some m) :
    Recorded log { r with members := r.members.set i { m with storage := [] } }

/-- Identities tell nodes apart, and plans run nodes of the graphs. -/
structure Settled (r : Realm) : Prop where
  apart : (r.graphs.map Graph.id).Nodup
  placed : ∀ g ∈ r.graphs, g.Placed
  members : ∀ m ∈ r.members, ∀ step ∈ m.plan.steps, r.Has step.node

theorem Settled.identity (settled : r.Settled) {m : Node} (one : r.Has n) (other : r.Has m) (same : n.id = m.id) :
    n = m := by
  obtain ⟨g, listed, member⟩ := one
  obtain ⟨g', listed', member'⟩ := other
  obtain ⟨i, found⟩ := Array.mem_iff_getElem?.mp member
  obtain ⟨j, found'⟩ := Array.mem_iff_getElem?.mp member'
  rw [settled.placed g listed i n found, settled.placed g' listed' j m found'] at same
  obtain ⟨graph, place⟩ := NodeId.mk.inj same
  obtain rfl := List.inj_on_of_nodup_map settled.apart listed listed' graph
  exact Option.some.inj (found.symm.trans (place ▸ found'))

theorem Has.grown {i : Nat} {g : Graph} (here : r.graphs[i]? = some g) {rules : ShapeRules} {w : Workspace}
    (extended : (r.workspace rules g).Extends w) (has : r.Has n) : (r.grown i w).Has n := by
  obtain ⟨g', listed, member⟩ := has
  obtain ⟨j, there⟩ := List.mem_iff_getElem?.mp listed
  by_cases same : i = j
  · subst same
    cases Option.some.inj (here.symm.trans there)
    have inside : i < r.graphs.length := (List.getElem?_eq_some_iff.mp here).1
    exact ⟨w.graph, List.mem_of_getElem? (List.getElem?_set_self inside), extended.nodes n member⟩
  · exact ⟨g', List.mem_of_getElem? ((List.getElem?_set_ne same).trans there), member⟩

theorem Settled.grown (settled : r.Settled) {i : Nat} {g : Graph} (here : r.graphs[i]? = some g) {rules : ShapeRules}
    {w : Workspace} (extended : (r.workspace rules g).Extends w) : (r.grown i w).Settled where
  apart := by
    have names : (r.graphs.set i w.graph).map Graph.id = r.graphs.map Graph.id := by
      refine List.ext_getElem? fun j => ?_
      rw [List.getElem?_map, List.getElem?_map]
      by_cases same : i = j
      · subst same
        rw [List.getElem?_set_self (List.getElem?_eq_some_iff.mp here).1, here]
        exact congrArg some extended.graph
      · rw [List.getElem?_set_ne same]
    exact (congrArg List.Nodup names).mpr settled.apart
  placed g' listed := by
    rcases List.mem_or_eq_of_mem_set listed with old | rfl
    · exact settled.placed g' old
    · exact extended.placed (settled.placed g (List.mem_of_getElem? here))
  members m listed step member := (settled.members m listed step member).grown here extended

theorem Settled.replaced (settled : r.Settled) {i : Nat} {m : Member} (here : r.members[i]? = some m) (store : Store)
    (streams : Streams) (storage : Storage) (profile : Profile) :
    Settled { r with store, streams, members := r.members.set i { m with storage, profile } } where
  apart := settled.apart
  placed := settled.placed
  members m₁ listed := by
    rcases List.mem_or_eq_of_mem_set listed with old | rfl
    · exact settled.members m₁ old
    · exact settled.members m (List.mem_of_getElem? here)

theorem Recorded.settled [Memory] (recorded : r.Recorded log) : r.Settled := by
  induction recorded with
  | opening store => exact ⟨List.nodup_nil, fun _ listed => (List.not_mem_nil listed).elim,
      fun _ listed => (List.not_mem_nil listed).elim⟩
  | founded _ id name fresh ih =>
    refine ⟨?_, fun g listed => ?_, fun m listed step member => ?_⟩
    · rw [List.map_append]
      refine ih.apart.append (List.nodup_singleton _) fun id old new => ?_
      obtain ⟨g, listed, rfl⟩ := List.mem_map.mp old
      exact fresh g listed (List.mem_singleton.mp new)
    · rcases List.mem_append.mp listed with old | new
      · exact ih.placed g old
      · cases List.mem_singleton.mp new
        exact fun i n found => by simp [Graph.empty] at found
    · obtain ⟨g, there, own⟩ := ih.members m listed step member
      exact ⟨g, List.mem_append_left _ there, own⟩
  | built _ here rules c ih => exact ih.grown here (c.grows_final _)
  | stored _ store ih => exact ⟨ih.apart, ih.placed, ih.members⟩
  | joined _ own ih =>
    refine ⟨ih.apart, ih.placed, fun m listed => ?_⟩
    rcases List.mem_append.mp listed with old | new
    · exact ih.members m old
    · cases List.mem_singleton.mp new
      exact own
  | executed _ here _ _ _ ih => exact ih.replaced here _ _ _ _
  | released _ here ih => exact ih.replaced here _ _ _ _

/-- In the log, each draw takes the next samples of its node, as far as the nodes of all graphs are told apart. -/
theorem Recorded.faithful [Memory] (recorded : r.Recorded log) {family : Node → Prop}
    (arena : ∀ n m, family n → family m → n.id = m.id → n = m) (all : ∀ n, r.Has n → family n) :
    Faithful family log r.streams := by
  -- the family stays the same while the graphs grow into it
  induction recorded with
  | opening store => exact faithful_nil family
  | founded _ id name _ ih =>
    exact ih fun n ⟨g, listed, member⟩ => all n ⟨g, List.mem_append_left _ listed, member⟩
  | built _ here rules c ih => exact ih fun n has => all n (has.grown here (c.grows_final _))
  | stored _ store ih => exact ih all
  | joined _ own ih => exact ih all
  | @executed log r recorded i m here profiled bindings supplied ih =>
    have own := recorded.settled.members m (List.mem_of_getElem? here)
    exact Faithful.executed arena (fun step member => all _ (own step member)) (s := r.state m) (ih all) bindings
      supplied
  | released _ here ih => exact ih all

/-- What a draw writes is told by the seed and the shape of its node and by the number of the node's earlier draws,
whatever else happened; it writes unless its buffer does not fit or there is no room for its samples. So two draws of
one number replay each other, of any two nodes of one seed and one shape, and in any two histories. -/
theorem Recorded.samples_alone [Memory] (recorded : r.Recorded log) {i : Nat} {c : Call} (here : log[i]? = some c)
    (drawing : c.kernel = .host .uniform) {s : Shape} {seed : Nat} (formed : c.node.Formed (.uniform s seed)) :
    (∀ written, c.outcome = .ok written → written = some (drawn seed s (draws c.node (log.take i)))) ∧
      (c.output.size = c.node.byteSize → c.output.readonly = false → s.room 8 = .ok () →
        c.outcome = .ok (some (drawn seed s (draws c.node (log.take i))))) ∧
      ∀ {log' : List Call} {r' : Realm}, r'.Recorded log' → ∀ (j : Nat) (d : Call), log'[j]? = some d →
        d.kernel = .host .uniform → d.node.Formed (.uniform s seed) →
          draws d.node (log'.take j) = draws c.node (log.take i) → ∀ written written', c.outcome = .ok written →
            d.outcome = .ok written' → written = written' := by
  have law : ∀ {log : List Call} {r : Realm}, r.Recorded log → ∀ {i : Nat} {c : Call}, log[i]? = some c →
      c.kernel = .host .uniform → c.outcome = c.node.samplesAt (draws c.node (log.take i)) c.output :=
    fun recorded _ _ here drawing =>
      (recorded.faithful (fun _ _ => recorded.settled.identity) fun _ => id).lawful _ _ here drawing
  have own := formed.samplesAt (draws c.node (log.take i)) c.output
  rw [law recorded here drawing]
  refine ⟨own.1, own.2, fun recorded' j d there drawing' formed' same written written' one other => ?_⟩
  rw [law recorded' there drawing', same] at other
  exact (own.1 written one).trans ((formed'.samplesAt _ _).1 written' other).symm

end Realm

namespace Sample
open Building Execution

def uniformPair (graph : Nat) : Node :=
  ⟨⟨graph, 0⟩, "uniform", [], [("shape", .dims [2]), ("seed", .int 7)], ⟨.float32, [2]⟩, none⟩

theorem uniformPair_formed (graph : Nat) : (uniformPair graph).Formed (.uniform [2] 7) :=
  ⟨rfl, rfl, rfl, [entry "shape" (.list [.int 2]), entry "seed" (.int 7)], rfl⟩

def drawPlan (n : Node) : Plan :=
  ⟨[n], [⟨n, .host, .host .uniform, [], 0⟩], [], [⟨0, 8, .output⟩], [0], ⟨[n.name], 1, 1, 0, 0, 0, 8⟩⟩

def uniformCall : BuilderCall :=
  .call "uniform" [] (.dictionary [entry "shape" (.list [.int 2]), entry "seed" (.int 7)])

/-- Two graphs of one node each, and a plan for each of them. -/
def twoGraphs : Realm where
  store := .empty
  streams := []
  graphs := [0, 1].map fun id => (final uniformCall.run ⟨.standard, .empty id .null, .empty⟩).graph
  members := [0, 1].map fun graph => ⟨drawPlan (uniformPair graph), [], .empty⟩

theorem twoGraphs_has : twoGraphs.Has (uniformPair 0) ∧ twoGraphs.Has (uniformPair 1) :=
  ⟨⟨_, .head _, Array.mem_singleton.mpr rfl⟩, ⟨_, .tail _ (.head _), Array.mem_singleton.mpr rfl⟩⟩

theorem twoGraphs_recorded : twoGraphs.Recorded [] := by
  have one := (Realm.Recorded.opening .empty).founded 0 .null fun g listed => (List.not_mem_nil listed).elim
  have two := one.founded 1 .null (by decide)
  have filled := (two.built (i := 0) rfl .standard uniformCall).built (i := 1) rfl .standard uniformCall
  have joined := filled.joined (m := ⟨drawPlan (uniformPair 0), [], .empty⟩) fun step member => by
    rw [List.mem_singleton.mp member]
    exact twoGraphs_has.1
  exact joined.joined (m := ⟨drawPlan (uniformPair 1), [], .empty⟩) fun step member => by
    rw [List.mem_singleton.mp member]
    exact twoGraphs_has.2

/-- Both nodes throw the same. -/
theorem samples_alone_twoGraphs : ∃ (log : List Call) (r : Realm) (c d : Call), r.Recorded log ∧
    (log[0]? = some c ∧ c.kernel = .host .uniform ∧ c.node = uniformPair 0 ∧ c.outcome = .ok (some (drawn 7 [2] 0))) ∧
      log[1]? = some d ∧ d.kernel = .host .uniform ∧ d.node = uniformPair 1 ∧ d.outcome = .ok (some (drawn 7 [2] 0)) ∧
        ∀ written written', c.outcome = .ok written → d.outcome = .ok written' → written = written' := by
  have thrown := (twoGraphs_recorded.executed (i := 0) rfl false [] none).released (i := 0) rfl
  have recorded := thrown.executed (i := 1) rfl true [] none
  have room : Shape.room [2] 8 = .ok () := rfl
  have squareEnsemble := recorded.samples_alone (i := 0) rfl rfl (uniformPair_formed 0)
  have replayed := squareEnsemble.2.2 recorded 1 _ rfl rfl (uniformPair_formed 1) rfl
  have other := recorded.samples_alone (i := 1) rfl rfl (uniformPair_formed 1)
  exact ⟨_, _, _, _, recorded, ⟨rfl, rfl, rfl, squareEnsemble.2.1 rfl rfl room⟩, rfl, rfl, rfl,
    other.2.1 rfl rfl room, replayed⟩

end Sample
end TensorDag
