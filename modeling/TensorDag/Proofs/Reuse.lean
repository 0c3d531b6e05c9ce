import TensorDag.Proofs.Frame
import TensorDag.Proofs.History

/-!
Compiled plans that are executed again and again. Whatever happened to such a plan before, an execution
of it comes to what recursive evaluation comes to.
-/
namespace TensorDag
open Execution

namespace Plan
variable [Memory] {w : Workspace} {outputs : List Node} {p : Plan}

/-- Interior nodes that some outputs need are of the kinds of the library other than that of samples. -/
def Deterministic (outputs : List Node) : Prop :=
  ∀ n, Node.Needed outputs n → n.isLeaf = false → ∃ kind : Kind, kind ≠ .uniform ∧ n.kind = kind.name

/-- A plan of the host for some outputs of a graph. -/
structure HostPlan (w : Workspace) (outputs : List Node) (p : Plan) : Prop where
  built : w.Built ShapeRules.Proper
  own : ∀ o ∈ outputs, o ∈ w.graph.nodes
  kinds : Deterministic outputs
  made : ofOutputs .standard .host [] outputs = .ok p

namespace HostPlan

theorem laid (host : HostPlan w outputs p) :
    LaidOut (Node.order outputs) outputs (.ofOrder (Node.order outputs) outputs) p :=
  (ofOutputs_eq_ok host.made).1

theorem sound (host : HostPlan w outputs p) : Assignment.Sound outputs (Node.order outputs).reverse []
    (.ofOrder (Node.order outputs) outputs) :=
  (Assignment.ofOrder_sound host.built.ordered.arena host.own).1

theorem valid (host : HostPlan w outputs p) : p.Valid :=
  ofOutputs_valid host.built.ordered.arena host.own host.made

theorem mem_order (host : HostPlan w outputs p) {n : Node} :
    n ∈ Node.order outputs ↔ Node.Needed outputs n :=
  Node.mem_order_iff host.built.ordered.arena host.own

theorem needed_own (host : HostPlan w outputs p) {n : Node} (need : Node.Needed outputs n) :
    n ∈ w.graph.nodes :=
  host.built.ordered.arena.needed host.own need

theorem hosted (host : HostPlan w outputs p) : p.Hosted where
  steps step member := by
    obtain ⟨listed, interior⟩ := host.laid.mem_nodes member
    obtain ⟨kind, different, named⟩ := host.kinds step.node (host.mem_order.mp listed) interior
    have found := (ofOutputs_eq_ok host.made).2 step member
    rw [kernelOf, named] at found
    exact ⟨interior, kind, different, named, Except.ok.inj (found.symm.trans (find_host kind))⟩
  leaves leaf member := (host.laid.mem_leaves.mp member).2.1

theorem within (host : HostPlan w outputs p) : p.Within (· ∈ w.graph.nodes) where
  steps _ member := host.needed_own (host.mem_order.mp (host.laid.mem_nodes member).1)
  leaves _ member := host.needed_own (host.mem_order.mp (host.laid.mem_leaves.mp member).1)
  outputs n member := host.own n (host.laid.requested ▸ member)

theorem slot (host : HostPlan w outputs p) {n : Node} (need : Node.Needed outputs n) :
    (⟨(Assignment.ofOrder (Node.order outputs) outputs).slotOf n, n.byteSize,
      Assignment.roleOf outputs n⟩ : Slot) ∈ p.slots :=
  mem_of_slotAt (host.laid.fits host.sound (host.mem_order.mpr need))

theorem shared (host : HostPlan w outputs p) : ∀ place ∈ p.outputSlots, Public p place :=
  (ofOutputs_orderly host.built.ordered.arena host.own host.made).shared

/-- Every place that the plan names gets a buffer, if the placeholders do. -/
theorem supplied (host : HostPlan w outputs p) {bindings : List (Value × Value)}
    (placeholders : ∀ n, Node.Needed outputs n → n.kind = "placeholder" → bindingOf n bindings ≠ none)
    {key : Int} (member : key ∈ p.places) : Supplied p bindings key := by
  have placed : ∀ n, Node.Needed outputs n →
      Supplied p bindings ((Assignment.ofOrder (Node.order outputs) outputs).slotOf n) := by
    intro n need
    cases leaf : n.isLeaf with
    | true =>
      refine .inr ⟨⟨n, _⟩, host.laid.mem_leaves.mpr ⟨host.mem_order.mpr need, leaf, rfl⟩, rfl, ?_⟩
      rcases (host.built.furnished.2 n (host.needed_own need)).given leaf with kind | ⟨id, own⟩
      · exact .inl (placeholders n need kind)
      · exact .inr (by simp [own])
    | false =>
      refine .inl ⟨_, host.slot need, rfl, ?_⟩
      rw [Assignment.roleOf, leaf, if_neg Bool.false_ne_true]
      split <;> simp
  have input : ∀ n x, Node.Needed outputs n → x ∈ n.inputs → Node.Needed outputs x := by
    rintro n x ⟨o, requested, path⟩ input
    exact ⟨o, requested, path.trans (.input input .self)⟩
  simp only [places, List.mem_append, List.mem_map, List.mem_flatMap, List.mem_cons] at member
  rcases member with (⟨leaf, listed, rfl⟩ | ⟨step, listed, rfl | reads⟩) | output
  · obtain ⟨ordered, _, place⟩ := host.laid.mem_leaves.mp listed
    exact place ▸ placed _ (host.mem_order.mp ordered)
  · rw [(host.laid.steps step listed).output]
    exact placed _ (host.mem_order.mp (host.laid.mem_nodes listed).1)
  · rw [(host.laid.steps step listed).inputs] at reads
    obtain ⟨x, read, rfl⟩ := List.mem_map.mp reads
    exact placed x (input _ x (host.mem_order.mp (host.laid.mem_nodes listed).1) read)
  · rw [host.laid.outputSlots] at output
    obtain ⟨n, requested, rfl⟩ := List.mem_map.mp output
    exact placed n ⟨n, requested, .self⟩

end HostPlan
end Plan

namespace Execution
open Program Plan
variable [Memory] {w : Workspace} {outputs : List Node} {p : Plan} {session : Session}
  {bindings : List (Value × Value)}

/-- Bindings as an execution needs them: of leaves, to values of their sizes that callers hold, and of
all placeholders. A key with the identity of a node is that node. -/
structure Session.Binds (session : Session) (outputs : List Node) (bindings : List (Value × Value)) :
    Prop where
  keys : ∀ pair ∈ bindings, ∃ n : Node, pair.1 = .node n ∧ n.isLeaf
  same : ∀ n v, (.node n, v) ∈ bindings → ∀ m, Node.Needed outputs m → n.id = m.id → n = m
  hands : ∀ pair ∈ bindings, session.MayHand pair.2
  sizes : ∀ n v, (.node n, v) ∈ bindings →
    ∃ bytes, boundBytes session.state.store n v = .ok bytes ∧ bytes.size = n.byteSize
  placeholders : ∀ n, Node.Needed outputs n → n.kind = "placeholder" → bindingOf n bindings ≠ none

theorem Session.Binds.setting (binds : session.Binds outputs bindings) (host : HostPlan w outputs p)
    (sound : session.Sound p) : Setting (· ∈ w.graph.nodes) p session.state bindings where
  arena := host.built.ordered.arena
  within := host.within
  valid := host.valid
  hosted := host.hosted
  kept := sound.kept
  keys n v listed leaf member := binds.same n v listed leaf.node
    (host.mem_order.mp (host.laid.mem_leaves.mp member).1)
  bound _ id content member := sound.visible id (binds.hands _ member id content rfl)
  leaves leaf member id own := sound.visible id (sound.leaves leaf member id own)
  clear leaf member bare unbound := by
    obtain ⟨ordered, isLeaf, _⟩ := host.laid.mem_leaves.mp member
    have need := host.mem_order.mp ordered
    rcases (host.built.furnished.2 leaf.node (host.needed_own need)).given isLeaf with kind | ⟨id, own⟩
    · exact absurd unbound (binds.placeholders leaf.node need kind)
    · cases bare.symm.trans own

theorem Session.Binds.within (binds : session.Binds outputs bindings) (sound : session.Sound p) :
    ∀ pair ∈ bindings, pair.2.Within session.state.store := by
  rintro ⟨key, v⟩ member
  cases v with
  | buffer id content => exact (sound.visible id (binds.hands _ member id content rfl)).1
  | _ => trivial

theorem Session.Binds.accepted (binds : session.Binds outputs bindings) (host : HostPlan w outputs p)
    (sound : session.Sound p) : ¬Refused p bindings session.state := by
  have within := binds.within sound
  rintro (⟨e, s', failed⟩ | ⟨bound, s', e, returned, failed⟩)
  · exact (bindAll_returns binds.keys within binds.sizes).of_error failed
  · obtain ⟨_, _, agrees⟩ := (bindAll_spec within (Nat.le_refl _)).of_ok returned
    have bounds := agrees (binds.setting host sound).keys
    refine absurd (failed.symm.trans (checkBound_returns fun leaf member kind => ?_)) (by simp)
    have need := host.mem_order.mp (host.laid.mem_leaves.mp member).1
    obtain ⟨v, given⟩ := Option.ne_none_iff_exists'.mp (binds.placeholders leaf.node need kind)
    have last := bounds leaf member
    simp only [given] at last
    obtain ⟨id, found, _⟩ := last
    exact ⟨id, found⟩

/-- Such bindings give every leaf its bytes. -/
theorem Session.Binds.given (binds : session.Binds outputs bindings) (host : HostPlan w outputs p)
    {n : Node} (need : Node.Needed outputs n) (leaf : n.isLeaf) :
    (∃ v, givenBytes session.state.store bindings n = .ok v) ∧ n.inputs = [] := by
  have furnished := host.built.furnished.2 n (host.needed_own need)
  refine ⟨?_, furnished.bare leaf⟩
  unfold givenBytes
  cases found : bindingOf n bindings with
  | some v =>
    obtain ⟨m, same, listed⟩ := mem_of_bindingOf found
    obtain ⟨bytes, content, _⟩ := binds.sizes m v listed
    rw [binds.same m v listed n need same] at content
    exact ⟨bytes, content⟩
  | none =>
    rcases furnished.given leaf with kind | ⟨id, own⟩
    · exact absurd found (binds.placeholders n need kind)
    · rw [own]
      exact ⟨_, rfl⟩

theorem not_roomy {leaf : Node → Result Bytes} {n : Node} (interior : n.isLeaf = false)
    {kind : Kind} (different : kind ≠ .uniform) (named : n.kind = kind.name) (full : Bytes.room n.byteSize ≠ .ok ())
    (v : Bytes) : Node.evaluate leaf n ≠ .ok v := by
  intro evaluated
  rw [Node.evaluate_interior interior, Result.bind_eq_ok] at evaluated
  obtain ⟨args, _, computed⟩ := evaluated
  rw [Node.compute, named, find_host] at computed
  exact full (Kernel.fresh_returns different computed).1

/-- An execution of a compiled plan comes to what recursive evaluation comes to. -/
theorem Session.Binds.outcome (binds : session.Binds outputs bindings) (host : HostPlan w outputs p)
    (sound : session.Sound p) (profiled : Bool) :
    Ensures (run profiled p bindings none) session.state
      (fun ids s' => (∀ n, Node.Needed outputs n →
          ¬Node.Faulty (givenBytes session.state.store bindings) n) ∧
        List.Forall₂ (fun o id => Node.evaluate (givenBytes session.state.store bindings) o =
          .ok (s'.store.get id).bytes) outputs ids)
      (fun _ => ∃ n, Node.Needed outputs n ∧
        Node.Faulty (givenBytes session.state.store bindings) n) := by
  have returns : ∀ n, Node.Needed outputs n →
      ((∃ v, Node.evaluate (givenBytes session.state.store bindings) n = .ok v) ↔
        ∀ m, Node.Reaches n m → ¬Node.Faulty (givenBytes session.state.store bindings) m) := by
    rintro n ⟨o, requested, path⟩
    exact Node.evaluate_returns_iff fun m further leaf =>
      binds.given host ⟨o, requested, path.trans further⟩ leaf
  refine (run_evaluates (binds.setting host sound) profiled).weaken ?_ ?_
  · rintro ids s' ⟨_, values⟩
    rw [host.laid.requested, host.laid.outputSlots, ← List.map_prod_left_eq_zip,
      List.forall₂_map_left_iff] at values
    refine ⟨?_, values⟩
    rintro n ⟨o, requested, path⟩ faulty
    obtain ⟨i, inside, rfl⟩ := List.mem_iff_getElem.mp requested
    have value := values.get inside (values.length_eq ▸ inside)
    exact (returns _ ⟨_, requested, .self⟩).mp ⟨_, value⟩ n path faulty
  · rintro s' failure
    cases failure with
    | refused cause => exact absurd cause (binds.accepted host sound)
    | room slot member role full =>
      obtain ⟨n, ordered, interior, size⟩ := host.laid.sized host.sound member role
      have need := host.mem_order.mp ordered
      obtain ⟨kind, different, named⟩ := host.kinds n need interior
      have fails : ¬∃ v, Node.evaluate (givenBytes session.state.store bindings) n = .ok v := by
        rintro ⟨v, evaluated⟩
        refine not_roomy interior different named (fun room => full ?_) v evaluated
        rw [Roomy, size]
        exact ⟨Int.natCast_nonneg _, room⟩
      simp only [returns n need, not_forall, not_not, exists_prop] at fails
      obtain ⟨m, path, faulty⟩ := fails
      obtain ⟨o, requested, above⟩ := need
      exact ⟨m, ⟨o, requested, above.trans path⟩, faulty⟩
    | empty key member missing => exact absurd (host.supplied binds.placeholders member) missing
    | kernel step member faulty =>
      exact ⟨step.node, host.mem_order.mp (host.laid.mem_nodes member).1, faulty⟩

/-- A plan that was compiled for the host computes its outputs whatever happened to it before: an
execution fails if and only if a kernel fails on the values of its inputs, and else returns the values
of the outputs, in order. -/
theorem run_of_compiled (built : w.Built ShapeRules.Proper) {settings : Settings} {device v : Value}
    (requests : Requests v outputs) (some : outputs ≠ []) (own : ∀ o ∈ outputs, o ∈ w.graph.nodes)
    (kinds : Deterministic outputs)
    (chosen : Device.ofValue (match device with | .null => settings.defaultDevice | v => v) = .ok .host) :
    ∃ p, compile settings .standard device [] v = .ok p ∧
      ∀ (streams : Streams) (profile : Profile) (session : Session),
        Session.History p (.fresh w.store streams profile) session → ∀ bindings, session.Binds outputs bindings →
          ∀ profiled,
            ((∃ e s', run profiled p bindings none session.state = .error e s') ↔
              ∃ n, Node.Needed outputs n ∧ Node.Faulty (givenBytes session.state.store bindings) n) ∧
            ∀ ids s', run profiled p bindings none session.state = .ok ids s' →
              List.Forall₂ (fun o id => Node.evaluate (givenBytes session.state.store bindings) o =
                .ok (s'.store.get id).bytes) outputs ids := by
  have known : ∀ n, Node.Needed outputs n → ¬n.isLeaf →
      ∃ kernel, kernelOf .standard .host [] n = .ok kernel := by
    intro n need interior
    obtain ⟨kind, _, named⟩ := kinds n need (by simpa using interior)
    exact ⟨.host kind, by rw [kernelOf, named]; exact find_host kind⟩
  obtain ⟨p, made, compiled⟩ := compile_returns built requests some own chosen
    (show resolveDevices [] = .ok [] from rfl) known
  have host : HostPlan w outputs p := ⟨built, own, kinds, made⟩
  refine ⟨p, compiled, fun streams profile session history bindings binds profiled => ?_⟩
  have start : Session.Sound p (.fresh w.store streams profile) := by
    refine Session.fresh_sound streams profile fun leaf member id held => ?_
    have need := host.mem_order.mp (host.laid.mem_leaves.mp member).1
    exact (built.furnished.2 leaf.node (host.needed_own need)).inside id held
  have outcome := binds.outcome host (start.history host.valid host.shared history) profiled
  refine ⟨⟨?_, ?_⟩, fun ids s' ran => (outcome.of_ok ran).2⟩
  · rintro ⟨e, s', failed⟩
    exact outcome.of_error failed
  · rintro ⟨n, need, faulty⟩
    cases ran : run profiled p bindings none session.state with
    | ok ids s' => exact absurd faulty ((outcome.of_ok ran).1 n need)
    | error e s' => exact ⟨e, s', rfl⟩

end Execution

/-! The plan of the square and the variable. -/
namespace Sample
open Execution Plan

def squarePlan : Plan where
  outputs := [square, x]
  steps := [⟨total, .host, .host (.binary .add), [0, 1], 2⟩, ⟨square, .host, .host (.binary .mul), [2, 2], 3⟩]
  leaves := [⟨x, 0⟩, ⟨y, 1⟩]
  slots := [⟨0, 8, .leaf⟩, ⟨1, 8, .leaf⟩, ⟨2, 8, .scratch⟩, ⟨3, 8, .output⟩]
  outputSlots := [3, 0]
  statistics := ⟨["variable_0", "placeholder_1", "add_2", "mul_3"], 2, 4, 1, 0, 8, 32⟩

theorem order_square : Node.order [square, x] = [x, y, total, square] := by
  rw [Node.order_eq]
  rfl

theorem compile_square :
    compile .standard .standard .null [] (.list [.node square, .node x]) = .ok squarePlan := by
  have made : ofOutputs .standard .host [] [square, x] = .ok squarePlan := by
    rw [ofOutputs, order_square]
    rfl
  exact compile_standard rfl made

theorem own_square : ∀ o ∈ squarePlan.outputs, o ∈ workspace.graph.nodes := by
  intro o member
  rcases List.mem_pair.mp member with same | same
  · exact mem_nodes.mpr (.inr (.inr (.inr same)))
  · exact mem_nodes.mpr (.inl same)

/-- The placeholder is bound to the buffer of the variable. -/
def sharedBinding : List (Value × Value) := [(.node y, .buffer 0 oneTwo)]

/-- Behind one execution, and a change of the variable. -/
def changedSession : Session :=
  let before : Session := .fresh workspace.store [] .empty
  let after := Program.final (run false squarePlan sharedBinding none) before.state
  ⟨{ after with store := after.store.overwrite 0 oneTwo.bytes }, fun id => before.known id ∨ id ∈ [2, 3]⟩

theorem changedSession_history : Session.History squarePlan (.fresh workspace.store [] .empty) changedSession := by
  let before : Session := .fresh workspace.store [] .empty
  let after := Program.final (run false squarePlan sharedBinding none) before.state
  have given : ∀ pair ∈ sharedBinding, before.MayHand pair.2 := by
    intro pair member id content same
    cases List.mem_singleton.mp member
    cases same
    exact Nat.zero_lt_one
  have ran : run false squarePlan sharedBinding none before.state = .ok [2, 3] after := rfl
  have first : Session.Happens squarePlan before ⟨after, fun id => before.known id ∨ id ∈ [2, 3]⟩ :=
    .executed given (fun vs none => by cases none) ran
  have made : after.store.update 0 (fun _ => .ok oneTwo) = .ok (after.store.overwrite 0 oneTwo.bytes) := rfl
  exact .tail (.tail .refl first) (.changed (.inl Nat.zero_lt_one) made)

theorem run_of_compiled_square : ∃ ids s', run false squarePlan sharedBinding none changedSession.state = .ok ids s' ∧
    List.Forall₂ (fun o id => Node.evaluate (givenBytes changedSession.state.store sharedBinding) o =
      .ok (s'.store.get id).bytes) [square, x] ids := by
  have own : ∀ o ∈ [square, x], o ∈ workspace.graph.nodes := own_square
  have needed : ∀ n, Node.Needed [square, x] n → n = x ∨ n = y ∨ n = total ∨ n = square := fun n need =>
    mem_nodes.mp (built.ordered.arena.needed own need)
  have kinds : Deterministic [square, x] := by
    intro n need interior
    rcases needed n need with rfl | rfl | rfl | rfl
    · cases interior
    · cases interior
    · exact ⟨.binary .add, by decide, rfl⟩
    · exact ⟨.binary .mul, by decide, rfl⟩
  have binds : changedSession.Binds [square, x] sharedBinding := by
    constructor
    case keys => exact fun pair member => ⟨y, by rw [List.mem_singleton.mp member], rfl⟩
    case same =>
      intro n v member m need same
      cases List.mem_singleton.mp member
      rcases needed m need with rfl | rfl | rfl | rfl
      all_goals first | rfl | cases same
    case hands =>
      intro pair member id content same
      cases List.mem_singleton.mp member
      cases same
      exact .inl Nat.zero_lt_one
    case sizes =>
      intro n v member
      cases List.mem_singleton.mp member
      exact ⟨_, rfl, rfl⟩
    case placeholders =>
      intro n need kind
      rcases needed n need with rfl | rfl | rfl | rfl
      · exact absurd kind (by decide)
      · simp [sharedBinding, bindingOf]
      · exact absurd kind (by decide)
      · exact absurd kind (by decide)
  obtain ⟨p, compiled, reused⟩ : ∃ p, compile .standard .standard .null []
      (.list [.node square, .node x]) = .ok p ∧ _ :=
    run_of_compiled built_proper (.several rfl) (List.cons_ne_nil _ _) own kinds rfl
  cases compiled.symm.trans compile_square
  have ran : ∃ ids s', run false squarePlan sharedBinding none changedSession.state = .ok ids s' := ⟨_, _, rfl⟩
  obtain ⟨ids, s', ran⟩ := ran
  exact ⟨ids, s', ran, (reused [] .empty changedSession changedSession_history sharedBinding binds false).2 ids s' ran⟩

end Sample
end TensorDag
