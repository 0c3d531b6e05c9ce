import TensorDag.Proofs.Progress

/-!
Gradients of what was computed. An execution shows that its outputs are operable, so that their gradients are there
and can be computed with the same bindings, as soon as the placeholders that the gradients add are bound.
-/
namespace TensorDag

namespace Execution
open Program Plan
variable {full : Prop} {p q : Plan} {w v : Workspace} {s s' : State} {bindings others : List (Value × Value)}
  {profiled : Bool}

/-- Bindings of leaves, to values of their sizes, where keys that name nodes of a graph are nodes of it. -/
structure Binds (g : Graph) (store : Store) (bindings : List (Value × Value)) : Prop where
  keys : ∀ pair ∈ bindings, ∃ n : Node, pair.1 = .node n ∧ n.isLeaf
  known : ∀ n u, (.node n, u) ∈ bindings → n.id.graph = g.id → n ∈ g.nodes
  within : ∀ pair ∈ bindings, pair.2.Within store
  sizes : ∀ n u, (.node n, u) ∈ bindings → ∃ bytes, boundBytes store n u = .ok bytes ∧ bytes.size = n.byteSize

namespace Binds

theorem of_run [Memory] {supplied : Option (List Value)} {ids : List BufferId} {g : Graph}
    (returned : run profiled p bindings supplied s = .ok ids s')
    (known : ∀ n u, (.node n, u) ∈ bindings → n.id.graph = g.id → n ∈ g.nodes)
    (within : ∀ pair ∈ bindings, pair.2.Within s.store) : Binds g s.store bindings := by
  obtain ⟨_, _, bound, _⟩ := bind_eq_ok.mp returned
  have accepted := (bindAll_accepts within).of_ok bound
  refine ⟨fun pair member => ?_, known, within, fun n u member => ?_⟩
  · obtain ⟨n, key, isLeaf, _⟩ := accepted pair member
    exact ⟨n, key, isLeaf⟩
  · obtain ⟨_, key, _, content⟩ := accepted _ member
    cases key
    exact content

/-- Bindings serve a graph that has grown, whatever was written to their buffers since. -/
theorem later (binds : Binds w.graph s.store bindings) (grows : w.Grows v) {store : Store}
    (later : s.store.Later store) : Binds v.graph store bindings where
  keys := binds.keys
  known n u member same := grows.nodes n (binds.known n u member (same.trans grows.graph))
  within pair member := by
    have inside := binds.within pair member
    cases given : pair.2 with
    | buffer id content =>
      rw [given] at inside
      exact Nat.lt_of_lt_of_le inside later.grows
    | _ => trivial
  sizes n u member := by
    obtain ⟨bytes, content, size⟩ := binds.sizes n u member
    cases u with
    | buffer id other =>
      cases content
      exact ⟨_, rfl, (later.sizes id (binds.within _ member)).trans size⟩
    | _ => exact ⟨bytes, content, size⟩

theorem append {g : Graph} {store : Store} (binds : Binds g store bindings) (more : Binds g store others) :
    Binds g store (bindings ++ others) where
  keys := List.forall_mem_append.mpr ⟨binds.keys, more.keys⟩
  known n u member := (List.mem_append.mp member).elim (binds.known n u) (more.known n u)
  within := List.forall_mem_append.mpr ⟨binds.within, more.within⟩
  sizes n u member := (List.mem_append.mp member).elim (binds.sizes n u) (more.sizes n u)

theorem suits {store : Store} (binds : Binds w.graph store bindings) (arena : Arena (· ∈ w.graph.nodes))
    (owns : ∀ {n}, n ∈ w.graph.nodes → n.id.graph = w.graph.id) (leaves : ∀ leaf ∈ q.leaves, leaf.node ∈ w.graph.nodes)
    (bound : ∀ n ∈ q.placeholders, bindingOf n bindings ≠ none) : Suits q store bindings where
  keys := binds.keys
  same n u member leaf listed same := by
    have here := leaves leaf listed
    have graph : n.id.graph = w.graph.id := same ▸ owns here
    exact arena.identity (binds.known n u member graph) here same
  within := binds.within
  sizes := binds.sizes
  placeholders := bound

end Binds

/-- What a plan has computed is operable. -/
theorem operable_of_run [Memory] (bounded : w.Bounded full) {settings : Settings} {device outputs : Value}
    {overrides : List (Value × Value)} (compiled : compile settings .standard device overrides outputs = .ok p)
    (own : ∀ o ∈ p.outputs, o ∈ w.graph.nodes)
    {supplied : Option (List Value)} {ids : List BufferId}
    (returned : run profiled p bindings supplied s = .ok ids s') : ∀ o ∈ p.outputs, o.Operable := by
  obtain ⟨outputs, standard, devices, made⟩ := compile_eq_ok compiled
  have laid := (ofOutputs_eq_ok made).1
  rw [laid.requested] at own ⊢
  intro o requested m path op formed
  have need : Node.Needed outputs m := ⟨o, requested, path⟩
  have interior : m.isLeaf = false := by rw [Node.isLeaf, formed.named, Kind.name_interior]
  have computed : m ∈ p.steps.map Step.node := by
    rw [laid.nodes, List.mem_filter, interior]
    exact ⟨(Node.mem_order_iff bounded.coherent.arena own).mpr need, rfl⟩
  obtain ⟨step, member, rfl⟩ := List.mem_map.mp computed
  obtain ⟨_, _, _, _, ran⟩ := run_ran returned step member
  have result := ran.kernel
  rw [step_kernel made member formed] at result
  exact formed.suited_of_run result

/-- A plan of nodes that are operable is there and executes, with any bindings that bind its placeholders. -/
theorem run_of_operable [Memory] (bounded : w.Bounded full) {settings : Settings} {device u : Value}
    {outputs : List Node} (requests : Requests u outputs) (some : outputs ≠ []) (own : ∀ o ∈ outputs, o ∈ w.graph.nodes)
    (able : ∀ o ∈ outputs, o.Operable)
    (chosen : Device.ofValue (match device with | .null => settings.defaultDevice | v => v) = .ok .host) :
    ∃ q, compile settings .standard device [] u = .ok q ∧
      ∀ t bindings profiled, t.storage = [] → w.store.Later t.store → Binds w.graph t.store bindings →
        (∀ n ∈ q.placeholders, bindingOf n bindings ≠ none) →
          ∃ ids t', run profiled q bindings none t = .ok ids t' ∧ ids.length = outputs.length := by
  have coherent := bounded.coherent
  have arena := coherent.arena
  have known : ∀ n, Node.Needed outputs n → ¬n.isLeaf → ∃ kernel, kernelOf .standard .host [] n = .ok kernel := by
    intro n need interior
    obtain ⟨op, formed⟩ := (bounded.built.regular.formed n (arena.needed own need)).resolve_left interior
    exact ⟨_, by rw [kernelOf, formed.named]; exact find_host op.kind⟩
  have none : resolveDevices [] = .ok [] := rfl
  obtain ⟨q, made, compiled⟩ := compile_returns bounded.built requests some own chosen none known
  refine ⟨q, compiled, fun t bindings profiled empty later binds bound => ?_⟩
  have laid := (ofOutputs_eq_ok made).1
  obtain ⟨furnishes, housed⟩ := ofOutputs_furnishes bounded own made later
  have leaves : ∀ leaf ∈ q.leaves, leaf.node ∈ w.graph.nodes :=
    fun leaf member => Node.order_own arena own _ (laid.mem_leaves.mp member).1
  rw [← laid.requested]
  exact run_progresses (ofOutputs_valid arena own made) (ofOutputs_seated bounded own made)
    (ofOutputs_able bounded own able made) empty furnishes housed (binds.suits arena coherent.owns leaves bound)
    profiled

end Execution

namespace Gradient
open Execution Plan
variable {w : Workspace} {objective : Node} {wrt : Value} {targets : List Node}

/-- What was executed can be differentiated, where the rules answer to the nodes between it and the targets, and its
gradients can be executed, with it or without it, with the same bindings and some for the placeholders that were not
bound yet. Axes may be empty. -/
theorem ofValues_runs [Memory] (built : w.Built (· = .standard)) (limited : ∀ n ∈ w.graph.nodes, n.shape.Limited)
    (own : objective ∈ w.graph.nodes) (floating : objective.elementType = .float32)
    (single : objective.type.volume = 1) (targeted : ∀ t ∈ targets, t ∈ w.graph.nodes)
    (asks : GradientRequest wrt targets)
    (answered : ∀ n, objective.Reaches n → (∃ t ∈ targets, n.Reaches t) → n.Answered)
    {settings : Settings} {device outputs : Value} {overrides : List (Value × Value)} {p : Plan}
    (compiled : compile settings .standard device overrides outputs = .ok p) (only : p.outputs = [objective])
    {s s' : State} {bindings : List (Value × Value)} {supplied : Option (List Value)} {profiled : Bool}
    {ids : List BufferId} (executed : run profiled p bindings supplied s = .ok ids s')
    (known : ∀ n u, (.node n, u) ∈ bindings → n.id.graph = w.graph.id → n ∈ w.graph.nodes)
    (within : ∀ pair ∈ bindings, pair.2.Within s.store) (earlier : s.store.Later w.store)
    {settings' : Settings} {device' : Value}
    (chosen : Device.ofValue (match device' with | .null => settings'.defaultDevice | v => v) = .ok .host) :
    ∃ ds v, ofValues .standard (.node objective) wrt w = .ok ds v ∧
      List.Forall₂ (fun t d => d ∈ v.graph.nodes ∧ d.type = t.type) targets ds ∧
      ∀ u wanted, Requests u wanted → wanted ≠ [] → (∀ o ∈ wanted, o = objective ∨ o ∈ ds) →
        ∃ q, compile settings' .standard device' [] u = .ok q ∧
          ∀ t more profiled', t.storage = [] → v.store.Later t.store → Binds v.graph t.store more →
            (∀ n ∈ q.placeholders, bindingOf n (bindings ++ more) ≠ none) →
              ∃ ids' t', run profiled' q (bindings ++ more) none t = .ok ids' t' ∧ ids'.length = wanted.length := by
  have bounded : w.Bounded False := ⟨built, fun n member => ⟨⟨limited n member, False.elim⟩, False.elim⟩⟩
  have able : objective.Operable :=
    operable_of_run bounded compiled (by simpa [only] using own) executed objective (by simp [only])
  obtain ⟨ds, v, ran, bounded', grows, typed, able'⟩ := ofValues_yields False True bounded own floating single targeted
    asks (fun n path target op formed _ => answered n path target op formed) fun _ => able
  have made : ∀ d ∈ ds, d ∈ v.graph.nodes := by
    intro d member
    obtain ⟨i, inside, rfl⟩ := List.mem_iff_getElem.mp member
    exact (typed.get (typed.length_eq ▸ inside) inside).1
  refine ⟨ds, v, ran, typed, fun u wanted requests some among => ?_⟩
  have own' : ∀ o ∈ wanted, o ∈ v.graph.nodes := fun o member =>
    (among o member).elim (fun same => same ▸ grows.nodes objective own) (made o)
  have operable : ∀ o ∈ wanted, o.Operable := fun o member =>
    (among o member).elim (fun same => same ▸ able) (able' trivial o)
  obtain ⟨q, compiled', runs⟩ := run_of_operable bounded' requests some own' operable chosen
  refine ⟨q, compiled', fun t more profiled' empty later binds bound => ?_⟩
  have before : s.store.Later t.store := (earlier.trans grows.store.later).trans later
  exact runs t _ profiled' empty later (((Binds.of_run executed known within).later grows before).append binds) bound

end Gradient

/-! A variable without cells, whose product with a placeholder is added up, and which is padded and added up. -/
namespace Sample
open Execution Plan

def emptyVariable : Node := ⟨⟨0, 0⟩, "variable", [], [], ⟨.float32, [0]⟩, some 0⟩
def factor : Node := ⟨⟨0, 1⟩, "placeholder", [], [], ⟨.float32, [1]⟩, none⟩
def emptyProduct : Node := ⟨⟨0, 2⟩, "mul", [emptyVariable, factor], [], ⟨.float32, [0]⟩, none⟩
def emptySum : Node := ⟨⟨0, 3⟩, "sum", [emptyProduct], [("axes", .dims [0])], ⟨.float32, []⟩, none⟩
def paddedEmpty : Node := ⟨⟨0, 4⟩, "pad", [emptyVariable], [("before", .ints [1]), ("after", .ints [1])],
    ⟨.float32, [2]⟩, none⟩
def paddedSum : Node := ⟨⟨0, 5⟩, "sum", [paddedEmpty], [("axes", .dims [0])], ⟨.float32, []⟩, none⟩

def emptyAxisWorkspace : Workspace where
  rules := .standard
  graph := ⟨0, .null, #[emptyVariable, factor, emptyProduct, emptySum, paddedEmpty, paddedSum],
    [(.interior "sum" [4] [("axes", .dims [0])], paddedSum),
      (.interior "pad" [0] [("after", .ints [1]), ("before", .ints [1])], paddedEmpty),
      (.interior "sum" [2] [("axes", .dims [0])], emptySum), (.interior "mul" [0, 1] [], emptyProduct)]⟩
  store := ⟨#[⟨.zeros 0, false⟩]⟩

theorem mem_emptyAxisWorkspace {n : Node} : n ∈ emptyAxisWorkspace.graph.nodes ↔
    n = emptyVariable ∨ n = factor ∨ n = emptyProduct ∨ n = emptySum ∨ n = paddedEmpty ∨ n = paddedSum := by
  simp only [emptyAxisWorkspace, List.mem_toArray, List.mem_cons, List.not_mem_nil, or_false]

theorem emptyAxisWorkspace_built : emptyAxisWorkspace.Built (· = .standard) := by
  let store : Store := ⟨#[⟨.zeros 0, false⟩]⟩
  have first : Building.variableOf (.list [.int 0]) (.elementType .float32) .null
      ⟨.standard, .empty 0 .null, .empty⟩ = .ok emptyVariable ⟨.standard, ⟨0, .null, #[emptyVariable], []⟩,
        store⟩ := rfl
  have second : Building.placeholder (.list [.int 1]) (.elementType .float32)
      ⟨.standard, ⟨0, .null, #[emptyVariable], []⟩, store⟩ =
        .ok factor ⟨.standard, ⟨0, .null, #[emptyVariable, factor], []⟩, store⟩ := rfl
  have third : Building.call "mul" [.node emptyVariable, .node factor] .null
    ⟨.standard, ⟨0, .null, #[emptyVariable, factor], []⟩, store⟩ =
      .ok emptyProduct ⟨.standard, ⟨0, .null, #[emptyVariable, factor, emptyProduct],
        [(.interior "mul" [0, 1] [], emptyProduct)]⟩, store⟩ := rfl
  have fourth : Building.call "sum" [.node emptyProduct] .null
      ⟨.standard, ⟨0, .null, #[emptyVariable, factor, emptyProduct],
        [(.interior "mul" [0, 1] [], emptyProduct)]⟩, store⟩ =
        .ok emptySum ⟨.standard, ⟨0, .null, #[emptyVariable, factor, emptyProduct, emptySum],
          [(.interior "sum" [2] [("axes", .dims [0])], emptySum), (.interior "mul" [0, 1] [], emptyProduct)]⟩,
            store⟩ := rfl
  have fifth : Building.call "pad" [.node emptyVariable] (.dictionary [(.text "before", .ints [1]),
    (.text "after", .ints [1])]) ⟨.standard, ⟨0, .null, #[emptyVariable, factor, emptyProduct, emptySum],
        [(.interior "sum" [2] [("axes", .dims [0])], emptySum), (.interior "mul" [0, 1] [], emptyProduct)]⟩, store⟩ =
      .ok paddedEmpty ⟨.standard, ⟨0, .null, #[emptyVariable, factor, emptyProduct, emptySum, paddedEmpty],
        [(.interior "pad" [0] [("after", .ints [1]), ("before", .ints [1])], paddedEmpty),
          (.interior "sum" [2] [("axes", .dims [0])], emptySum), (.interior "mul" [0, 1] [], emptyProduct)]⟩,
            store⟩ := rfl
  have sixth : Building.call "sum" [.node paddedEmpty] .null
      ⟨.standard, ⟨0, .null, #[emptyVariable, factor, emptyProduct, emptySum, paddedEmpty],
        [(.interior "pad" [0] [("after", .ints [1]), ("before", .ints [1])], paddedEmpty),
          (.interior "sum" [2] [("axes", .dims [0])], emptySum), (.interior "mul" [0, 1] [], emptyProduct)]⟩, store⟩ =
      .ok paddedSum emptyAxisWorkspace := rfl
  have start : Workspace.Built (· = .standard) ⟨.standard, .empty 0 .null, .empty⟩ :=
    .empty 0 .null .standard .empty rfl
  have middle := ((start.variableOf first).placeholder second).call (by simp) third
  exact ((middle.call (by simp) fourth).call (by simp) fifth).call (by simp) sixth

theorem order_emptySum : Node.order [emptySum] = [emptyVariable, factor, emptyProduct, emptySum] := by
  rw [Node.order_eq]
  rfl

theorem order_paddedSum : Node.order [paddedSum] = [emptyVariable, paddedEmpty, paddedSum] := by
  rw [Node.order_eq]
  rfl

def emptySumPlan : Plan where
  outputs := [emptySum]
  steps := [⟨emptyProduct, .host, .host (.binary .mul), [0, 1], 2⟩, ⟨emptySum, .host, .host .sum, [2], 3⟩]
  leaves := [⟨emptyVariable, 0⟩, ⟨factor, 1⟩]
  slots := [⟨0, 0, .leaf⟩, ⟨1, 4, .leaf⟩, ⟨2, 0, .scratch⟩, ⟨3, 4, .output⟩]
  outputSlots := [3]
  statistics := ⟨["variable_0", "placeholder_1", "mul_2", "sum_3"], 2, 4, 1, 0, 0, 8⟩

theorem compile_emptySum : compile .standard .standard .null [] (.node emptySum) = .ok emptySumPlan := by
  have made : ofOutputs .standard .host [] [emptySum] = .ok emptySumPlan := by
    rw [ofOutputs, order_emptySum]
    rfl
  exact compile_standard rfl made

def factorBinding : List (Value × Value) := [(.node factor, .list [.int 3])]

theorem ofValues_runs_emptySum :
    ∃ ids s', run false emptySumPlan factorBinding none ⟨emptyAxisWorkspace.store, [], [], .empty⟩ = .ok ids s' ∧
    ∃ ds v, Gradient.ofValues .standard (.node emptySum) (.list
      [.node emptyVariable, .node factor]) emptyAxisWorkspace = .ok ds v ∧
      List.Forall₂ (fun t d => d ∈ v.graph.nodes ∧ d.type = t.type) [emptyVariable, factor] ds ∧
      ∀ u wanted, Requests u wanted → wanted ≠ [] → (∀ o ∈ wanted, o = emptySum ∨ o ∈ ds) →
        ∃ q, compile .standard .standard .null [] u = .ok q ∧
          ∀ t more profiled', t.storage = [] → v.store.Later t.store → Binds v.graph t.store more →
            (∀ n ∈ q.placeholders, bindingOf n (factorBinding ++ more) ≠ none) →
              ∃ ids' t', run profiled' q (factorBinding ++ more) none t = .ok ids' t' ∧
                ids'.length = wanted.length := by
  have executed : ∃ ids s', run false emptySumPlan factorBinding none ⟨emptyAxisWorkspace.store, [], [], .empty⟩ =
    .ok ids s' := ⟨_, _, rfl⟩
  obtain ⟨ids, s', executed⟩ := executed
  refine ⟨ids, s', executed, ?_⟩
  refine Gradient.ofValues_runs emptyAxisWorkspace_built ?_ (by simp [mem_emptyAxisWorkspace]) rfl rfl
    (by simp [mem_emptyAxisWorkspace]) (.inr rfl) ?_
    compile_emptySum rfl executed ?_ ?_ (Store.Extends.refl _).later rfl
  · intro n member
    rcases mem_emptyAxisWorkspace.mp member with rfl | rfl | rfl | rfl | rfl | rfl <;> exact ⟨by decide, by decide⟩
  · intro n path _
    have here : n ∈ Node.order [emptySum] := by
      have arena := (emptyAxisWorkspace_built.mono fun _ standard =>
        standard ▸ ShapeRules.standard_proper).ordered.arena
      exact (Node.mem_order_iff arena (by simp [mem_emptyAxisWorkspace])).mpr ⟨emptySum, by simp, path⟩
    rw [order_emptySum] at here
    refine Node.answered_of_kind ?_
    simp only [List.mem_cons, List.not_mem_nil, or_false] at here
    rcases here with rfl | rfl | rfl | rfl <;> decide
  · intro n u member _
    cases List.mem_singleton.mp member
    exact mem_emptyAxisWorkspace.mpr (.inr (.inl rfl))
  · intro pair member
    rw [List.mem_singleton.mp member]
    trivial

def paddedSumPlan : Plan where
  outputs := [paddedSum]
  steps := [⟨paddedEmpty, .host, .host .pad, [0], 1⟩, ⟨paddedSum, .host, .host .sum, [1], 2⟩]
  leaves := [⟨emptyVariable, 0⟩]
  slots := [⟨0, 0, .leaf⟩, ⟨1, 8, .scratch⟩, ⟨2, 4, .output⟩]
  outputSlots := [2]
  statistics := ⟨["variable_0", "pad_4", "sum_5"], 2, 3, 1, 0, 8, 12⟩

theorem compile_paddedSum : compile .standard .standard .null [] (.node paddedSum) = .ok paddedSumPlan := by
  have made : ofOutputs .standard .host [] [paddedSum] = .ok paddedSumPlan := by
    rw [ofOutputs, order_paddedSum]
    rfl
  exact compile_standard rfl made

/-- What was executed need not have gradients where the rule of its kind does not answer: no slice takes the empty
axis between its margins out again. -/
theorem padding_refused :
    emptyAxisWorkspace.Built (· = .standard) ∧ (paddedSum ∈ emptyAxisWorkspace.graph.nodes ∧
      emptyVariable ∈ emptyAxisWorkspace.graph.nodes) ∧
      paddedSum.type = ⟨.float32, []⟩ ∧ compile .standard .standard .null [] (.node paddedSum) = .ok paddedSumPlan ∧
      (∃ ids s', run false paddedSumPlan [] none ⟨emptyAxisWorkspace.store, [], [], .empty⟩ = .ok ids s') ∧
      ∃ v, Gradient.ofValues .standard (.node paddedSum) (.list [.node emptyVariable]) emptyAxisWorkspace =
        .error (.shape (.sliceBounds 1 1 2)) v := by
  refine ⟨emptyAxisWorkspace_built, by simp [mem_emptyAxisWorkspace], rfl, compile_paddedSum, ⟨_, _, rfl⟩, ?_⟩
  have built : Gradient.ofValues .standard (.node paddedSum) (.list [.node emptyVariable]) emptyAxisWorkspace =
      Gradient.build .standard paddedSum [emptyVariable] emptyAxisWorkspace := rfl
  rw [built, Gradient.build, order_paddedSum]
  exact ⟨_, rfl⟩

end Sample
end TensorDag
