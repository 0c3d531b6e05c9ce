import Mathlib.Data.List.Nodup
import TensorDag.Plan.Compilation
import TensorDag.Proofs.Allocation
import TensorDag.Proofs.Building
import TensorDag.Proofs.Validity

/-!
Compiled plans are valid. Their steps and leaves are the nodes of an order in the slots that the
assignment gave them, so that the holders before a step are read off the nodes before it.
-/
namespace TensorDag

theorem Node.Held.split {slot : Node → Nat} {done : List Node} {x : Node} (held : Held slot done x) :
    ∃ newer older, done = newer ++ x :: older ∧ ∀ m ∈ newer, slot m ≠ slot x := by
  obtain ⟨front, back, split, apart⟩ := List.lookup_eq_some_iff.mp held
  obtain ⟨newer, rest, rfl, rfl, tail⟩ := List.map_eq_append_iff.mp split
  obtain ⟨y, older, rfl, here, _⟩ := List.map_eq_cons_iff.mp tail
  obtain ⟨_, rfl⟩ := Prod.mk.inj here
  exact ⟨newer, older, rfl, fun m member equal =>
    bne_iff_ne.mp (apart (slot m, m) (List.mem_map_of_mem member)) equal.symm⟩

theorem Node.Held.of_mem {slot : Node → Nat} {done : List Node} {x : Node} (member : x ∈ done)
    (alone : ∀ m ∈ done, slot m = slot x → m = x) : Held slot done x := by
  induction done with
  | nil => simp at member
  | cons head rest ih =>
    by_cases same : slot head = slot x
    · rw [alone head (List.mem_cons_self ..) same]
      exact .self ..
    · rcases List.mem_cons.mp member with equal | member
      · exact absurd (congrArg slot equal.symm) same
      · exact (ih member fun m inside => alone m (List.mem_cons_of_mem _ inside)).cons same

theorem Node.Flows.append {slot : Node → Nat} {done front later : List Node}
    (flows : Flows slot done (front ++ later)) : Flows slot (front.reverse ++ done) later := by
  induction front generalizing done with
  | nil => exact flows
  | cons head rest ih => simpa using ih flows.2

namespace Plan
open Result
variable {family : Node → Prop} {kernels : Kernels} {device : Device} {devices : Devices}
  {outputs : List Node} {p : Plan} {a : Assignment}

def kernelOf (kernels : Kernels) (device : Device) (devices : Devices) (n : Node) : Result Kernel :=
  kernels.find n.kind ((devices.lookup n.id).getD device)

/-- The step of a node with the slots of an assignment. -/
structure Places (a : Assignment) (step : Step) : Prop where
  inputs : step.inputSlots = step.node.inputs.map fun x => (a.slotOf x : Int)
  output : step.outputSlot = a.slotOf step.node

theorem compileSteps_eq_ok {nodes : List Node} {steps : List Step}
    (compiled : compileSteps kernels device devices a nodes = .ok steps) :
    steps.map Step.node = nodes.filter (!·.isLeaf) ∧
      ∀ step ∈ steps, Places a step ∧
        kernelOf kernels device devices step.node = .ok step.kernel := by
  induction nodes generalizing steps with
  | nil =>
    simp only [compileSteps, Except.ok.injEq] at compiled
    simp [← compiled]
  | cons n rest ih =>
    rw [compileSteps] at compiled
    cases leaf : n.isLeaf with
    | true =>
      rw [leaf, if_pos rfl] at compiled
      simpa [leaf] using ih compiled
    | false =>
      simp only [leaf, Bool.false_eq_true, if_false, compileStep, bind_eq_ok, pure_eq_ok] at compiled
      obtain ⟨_, ⟨kernel, found, rfl⟩, others, inner, rfl⟩ := compiled
      obtain ⟨nodes, placed⟩ := ih inner
      exact ⟨by simp [leaf, nodes], List.forall_mem_cons.mpr ⟨⟨⟨rfl, rfl⟩, found⟩, placed⟩⟩

theorem compileSteps_returns {nodes : List Node}
    (known : ∀ n ∈ nodes, ¬n.isLeaf → ∃ kernel, kernelOf kernels device devices n = .ok kernel) :
    ∃ steps, compileSteps kernels device devices a nodes = .ok steps := by
  induction nodes with
  | nil => exact ⟨[], rfl⟩
  | cons n rest ih =>
    obtain ⟨steps, compiled⟩ := ih fun m member => known m (List.mem_cons_of_mem _ member)
    rw [compileSteps]
    cases leaf : n.isLeaf with
    | true => exact ⟨steps, compiled⟩
    | false =>
      obtain ⟨kernel, found⟩ := known n (List.mem_cons_self ..) (by simp [leaf])
      simp only [Bool.false_eq_true, if_false, compileStep, bind_eq_ok, pure_eq_ok]
      exact ⟨_, _, ⟨kernel, found, rfl⟩, steps, compiled, rfl⟩

/-- A plan of the nodes of an order in the slots of an assignment. -/
structure LaidOut (order outputs : List Node) (a : Assignment) (p : Plan) : Prop where
  requested : p.outputs = outputs
  nodes : p.steps.map Step.node = order.filter (!·.isLeaf)
  steps : ∀ step ∈ p.steps, Places a step
  leaves : p.leaves = (order.filter Node.isLeaf).map fun n => ⟨n, a.slotOf n⟩
  slots : p.slots = a.slots
  outputSlots : p.outputSlots = outputs.map fun n => (a.slotOf n : Int)

theorem ofOutputs_eq_ok : ofOutputs kernels device devices outputs = .ok p →
    LaidOut (Node.order outputs) outputs (.ofOrder (Node.order outputs) outputs) p ∧
      ∀ step ∈ p.steps, kernelOf kernels device devices step.node = .ok step.kernel := by
  intro made
  simp only [ofOutputs, bind_eq_ok, pure_eq_ok] at made
  obtain ⟨steps, compiled, rfl⟩ := made
  obtain ⟨nodes, placed⟩ := compileSteps_eq_ok compiled
  exact ⟨⟨rfl, nodes, fun step member => (placed step member).1, rfl, rfl, rfl⟩,
    fun step member => (placed step member).2⟩

theorem ofOutputs_returns (known : ∀ n ∈ Node.order outputs, ¬n.isLeaf →
    ∃ kernel, kernelOf kernels device devices n = .ok kernel) :
    ∃ p, ofOutputs kernels device devices outputs = .ok p := by
  obtain ⟨steps, compiled⟩ :=
    compileSteps_returns (a := .ofOrder (Node.order outputs) outputs) known
  simp only [ofOutputs, bind_eq_ok, pure_eq_ok]
  exact ⟨_, steps, compiled, rfl⟩

namespace LaidOut
variable {order : List Node}

theorem mem_leaves (laid : LaidOut order outputs a p) {leaf : LeafSlot} :
    leaf ∈ p.leaves ↔ leaf.node ∈ order ∧ leaf.node.isLeaf ∧ leaf.slot = a.slotOf leaf.node := by
  rw [laid.leaves, List.mem_map]
  constructor
  · rintro ⟨n, member, rfl⟩
    obtain ⟨member, isLeaf⟩ := List.mem_filter.mp member
    exact ⟨member, isLeaf, rfl⟩
  · rintro ⟨member, isLeaf, place⟩
    exact ⟨leaf.node, List.mem_filter.mpr ⟨member, isLeaf⟩, by rw [← place]⟩

theorem mem_nodes (laid : LaidOut order outputs a p) {step : Step} (member : step ∈ p.steps) :
    step.node ∈ order ∧ step.node.isLeaf = false := by
  have listed : step.node ∈ p.steps.map Step.node := List.mem_map_of_mem member
  rw [laid.nodes, List.mem_filter] at listed
  exact ⟨listed.1, by simpa using listed.2⟩

theorem split (laid : LaidOut order outputs a p) {before after : List Step} {step : Step}
    (split : p.steps = before ++ step :: after) :
    ∃ front back, order = front ++ step.node :: back ∧
      front.filter (!·.isLeaf) = before.map Step.node := by
  have nodes := laid.nodes
  rw [split, List.map_append, List.map_cons, eq_comm, List.filter_eq_append_iff] at nodes
  obtain ⟨first, rest, rfl, front, back⟩ := nodes
  obtain ⟨skipped, later, rfl, leaves, _, _⟩ := List.filter_eq_cons_iff.mp back
  refine ⟨first ++ skipped, later, by simp, ?_⟩
  rw [List.filter_append, front, List.filter_eq_nil_iff.mpr leaves, List.append_nil]

/-- A node that is held among the first nodes of an order is the holder of its slot behind their
steps. -/
theorem lookup (laid : LaidOut order outputs a p) (sound : Assignment.Sound outputs order.reverse [] a)
    {front back : List Node} (whole : order = front ++ back) {before : List Step}
    (placed : ∀ step ∈ before, Places a step)
    (nodes : front.filter (!·.isLeaf) = before.map Step.node) {x : Node}
    (held : Node.Held a.slotOf front.reverse x) :
    (written before p.leafHolders).lookup (a.slotOf x : Int) = some x := by
  have steps : (before.map fun step => (step.outputSlot, step.node)) =
      (front.filter (!·.isLeaf)).map fun n => ((a.slotOf n : Int), n) := by
    rw [nodes, List.map_map]
    exact List.map_congr_left fun step member => by simp [(placed step member).output]
  obtain ⟨newer, older, split, apart⟩ := held.split
  have member : x ∈ front.reverse := split ▸ by simp
  have listed : x ∈ order.reverse := by
    rw [whole, List.reverse_append]
    exact List.mem_append_right _ member
  rw [written, steps, ← List.map_reverse, ← List.filter_reverse, List.lookup_append,
    Option.or_eq_some_iff]
  cases leaf : x.isLeaf with
  | false =>
    refine .inl (List.lookup_eq_some_iff.mpr
      ⟨(newer.filter (!·.isLeaf)).map fun n => ((a.slotOf n : Int), n),
        (older.filter (!·.isLeaf)).map fun n => ((a.slotOf n : Int), n), ?_, ?_⟩)
    · rw [split, List.filter_append, List.filter_cons_of_pos (by simp [leaf]), List.map_append,
        List.map_cons]
    · rintro entry present
      obtain ⟨m, inside, rfl⟩ := List.mem_map.mp present
      have differ := apart m (List.mem_filter.mp inside).1
      exact bne_iff_ne.mpr fun equal => differ (Int.ofNat.inj equal.symm)
  | true =>
    have special : Assignment.roleOf outputs x ≠ .scratch := by simp [Assignment.roleOf, leaf]
    have alone := sound.dedicated x listed special
    refine .inr ⟨List.lookup_eq_none_iff.mpr ?_, ?_⟩
    · rintro entry present
      obtain ⟨m, inside, rfl⟩ := List.mem_map.mp present
      obtain ⟨inside, interior⟩ := List.mem_filter.mp inside
      rw [bne_iff_ne]
      intro same
      have here : m ∈ order.reverse := by
        rw [whole, List.reverse_append]
        exact List.mem_append_right _ inside
      rw [alone m here (Int.ofNat.inj same.symm), leaf] at interior
      simp at interior
    · have held : Node.Held a.slotOf (order.filter Node.isLeaf).reverse x := by
        refine .of_mem (by simpa [leaf] using listed) fun m present => alone m ?_
        rw [← List.filter_reverse] at present
        exact (List.mem_filter.mp present).1
      obtain ⟨newer, older, split, apart⟩ := held.split
      rw [leafHolders, laid.leaves, List.map_map, ← List.map_reverse, split]
      refine List.lookup_eq_some_iff.mpr ⟨_, _, by rw [List.map_append, List.map_cons]; rfl, ?_⟩
      rintro entry present
      obtain ⟨m, inside, rfl⟩ := List.mem_map.mp present
      exact bne_iff_ne.mpr fun equal => apart m inside (Int.ofNat.inj equal.symm)

theorem fits (laid : LaidOut order outputs a p) (sound : Assignment.Sound outputs order.reverse [] a)
    {n : Node} (member : n ∈ order) :
    p.slotAt (a.slotOf n) = .ok ⟨a.slotOf n, n.byteSize, Assignment.roleOf outputs n⟩ := by
  refine slotAt_of_getElem? ?_
  rw [laid.slots]
  exact sound.spec n (List.mem_reverse.mpr member)

theorem sized (laid : LaidOut order outputs a p) (sound : Assignment.Sound outputs order.reverse [] a) {slot : Slot}
    (member : slot ∈ p.slots) (role : slot.role ≠ .leaf) :
    ∃ n ∈ order, n.isLeaf = false ∧ slot.size = n.byteSize := by
  rw [laid.slots] at member
  obtain ⟨i, inside, here⟩ := List.mem_iff_getElem.mp member
  obtain ⟨n, placed, same⟩ := sound.used i inside
  have spec := sound.spec n placed
  rw [same, List.getElem?_eq_getElem inside, here, Option.some.injEq] at spec
  refine ⟨n, List.mem_reverse.mp placed, ?_, by rw [spec]⟩
  cases leaf : n.isLeaf with
  | true =>
    rw [spec, Assignment.roleOf, if_pos leaf] at role
    exact absurd rfl role
  | false => rfl

/-- Places of a plan that was laid out are counted from the front, so that two of them are two slots. -/
theorem places_nonneg (laid : LaidOut order outputs a p) : ∀ place ∈ p.places, 0 ≤ place := by
  intro place member
  simp only [places, List.mem_append, List.mem_map, List.mem_flatMap, List.mem_cons] at member
  rcases member with (⟨leaf, present, rfl⟩ | ⟨step, present, rfl | input⟩) | output
  · rw [(laid.mem_leaves.mp present).2.2]
    exact Int.natCast_nonneg _
  · rw [(laid.steps step present).output]
    exact Int.natCast_nonneg _
  · rw [(laid.steps step present).inputs] at input
    obtain ⟨x, _, rfl⟩ := List.mem_map.mp input
    exact Int.natCast_nonneg _
  · rw [laid.outputSlots] at output
    obtain ⟨n, _, rfl⟩ := List.mem_map.mp output
    exact Int.natCast_nonneg _

/-- A plan that was laid out soundly is valid. -/
theorem valid (laid : LaidOut order outputs a p) (own : ∀ o ∈ outputs, o ∈ order)
    (settled : Node.Settled order.reverse) (sound : Assignment.Sound outputs order.reverse [] a)
    (flows : Node.Flows a.slotOf [] order) : p.Valid := by
  have once : order.Nodup := List.nodup_reverse.mp settled.nodup
  have closed : ∀ n ∈ order, ∀ x ∈ n.inputs, x ∈ order := fun n member x input =>
    List.mem_reverse.mp (settled.reaches (.input input .self) (List.mem_reverse.mpr member))
  have apart : ∀ n ∈ order, Assignment.roleOf outputs n ≠ .scratch → ∀ m ∈ order,
      (a.slotOf m : Int) = a.slotOf n → m = n := fun n member special m present same =>
    sound.dedicated n (List.mem_reverse.mpr member) special m (List.mem_reverse.mpr present)
      (Int.ofNat.inj same)
  have known : ∀ step ∈ p.steps, p.slotAt step.outputSlot =
      .ok ⟨step.outputSlot, step.node.byteSize, Assignment.roleOf outputs step.node⟩ := by
    intro step member
    rw [(laid.steps step member).output]
    exact laid.fits sound (laid.mem_nodes member).1
  have stepsOnce : p.steps.Nodup := .of_map Step.node (laid.nodes ▸ once.filter _)
  constructor
  case table => simpa [laid.slots] using sound.table
  case leafSizes =>
    intro leaf member
    obtain ⟨present, _, place⟩ := laid.mem_leaves.mp member
    exact ⟨_, place ▸ laid.fits sound present, rfl⟩
  case stepSizes => exact fun step member => ⟨_, known step member, rfl⟩
  case readSizes =>
    intro step member read reads
    rw [(laid.steps step member).inputs, ← List.map_prod_right_eq_zip] at reads
    obtain ⟨x, input, rfl⟩ := List.mem_map.mp reads
    exact ⟨_, laid.fits sound (closed _ (laid.mem_nodes member).1 x input), rfl⟩
  case leavesApart =>
    rw [laid.leaves, List.map_map]
    refine (once.filter _).map_on fun n first m second same => ?_
    obtain ⟨first, leaf⟩ := List.mem_filter.mp first
    exact (apart n first (by simp [Assignment.roleOf, leaf]) m (List.mem_filter.mp second).1
      same.symm).symm
  case leafRoles =>
    intro leaf member
    obtain ⟨present, isLeaf, place⟩ := laid.mem_leaves.mp member
    exact ⟨_, place ▸ laid.fits sound present, by simp [Assignment.roleOf, isLeaf]⟩
  case stepRoles =>
    refine fun step member => ⟨_, known step member, ?_⟩
    rw [Assignment.roleOf, (laid.mem_nodes member).2, if_neg Bool.false_ne_true]
    split <;> simp
  case writtenOnce =>
    refine (stepsOnce.filter _).map_on fun step first other second same => ?_
    obtain ⟨first, output⟩ := List.mem_filter.mp first
    obtain ⟨second, _⟩ := List.mem_filter.mp second
    have role : Assignment.roleOf outputs step.node = .output := by
      simpa [writtenRole?, known step first, Except.toOption] using output
    rw [(laid.steps step first).output, (laid.steps other second).output] at same
    have node := apart step.node (laid.mem_nodes first).1 (by simp [role]) other.node
      (laid.mem_nodes second).1 same.symm
    exact List.inj_on_of_nodup_map (laid.nodes ▸ once.filter _) first second node.symm
  case flow =>
    intro before step after split
    have member : step ∈ p.steps := split ▸ by simp
    obtain ⟨front, back, whole, nodes⟩ := laid.split split
    obtain ⟨reads, _⟩ := (whole ▸ flows).append
    rw [List.append_nil] at reads
    have places := laid.steps step member
    refine ⟨by simp [places.inputs], fun read inside => ?_, ?_⟩
    · rw [places.inputs, ← List.map_prod_right_eq_zip] at inside
      obtain ⟨x, input, rfl⟩ := List.mem_map.mp inside
      exact ⟨x, laid.lookup sound whole (fun other earlier => laid.steps other (split ▸ by simp [earlier]))
        nodes (reads x input).1, rfl⟩
    · rw [places.inputs, places.output]
      intro inside
      obtain ⟨x, input, same⟩ := List.mem_map.mp inside
      exact (reads x input).2 (Int.ofNat.inj same.symm)
  case outputs =>
    rw [laid.requested, laid.outputSlots, ← List.map_prod_left_eq_zip]
    intro output member
    obtain ⟨n, requested, rfl⟩ := List.mem_map.mp member
    have present := own n requested
    refine ⟨n, laid.lookup sound (List.append_nil _).symm laid.steps laid.nodes.symm ?_, rfl⟩
    refine .of_mem (List.mem_reverse.mpr present) fun m listed same => ?_
    refine apart n present ?_ m (List.mem_reverse.mp listed) (congrArg Int.ofNat same)
    have role := Node.isIn_of_mem requested
    simp only [Assignment.roleOf, role, if_true]
    split <;> simp

end LaidOut

theorem ofOutputs_valid (arena : Arena family) (own : ∀ o ∈ outputs, family o)
    (made : ofOutputs kernels device devices outputs = .ok p) : p.Valid := by
  obtain ⟨sound, flows⟩ := Assignment.ofOrder_sound arena own
  exact (ofOutputs_eq_ok made).1.valid (fun o => Node.mem_order_of_mem arena own)
    (Node.order_settled arena own) sound flows

/-- Every output has a place: a leaf in its leaf slot, any other node in an output slot. -/
structure Orderly (p : Plan) : Prop where
  valid : p.Valid
  paired : p.outputs.length = p.outputSlots.length
  apart : ∀ entry ∈ p.outputs.zip p.outputSlots, ∀ other ∈ p.outputs.zip p.outputSlots,
    entry.2 = other.2 ∨ entry.1.id = other.1.id → entry = other
  leaves : ∀ entry ∈ p.outputs.zip p.outputSlots, entry.1.isLeaf → ⟨entry.1, entry.2⟩ ∈ p.leaves
  interior : ∀ entry ∈ p.outputs.zip p.outputSlots, entry.1.isLeaf = false →
    ∃ slot ∈ p.slots, slot.index = entry.2 ∧ slot.role = .output
  requested : ∀ step ∈ p.steps, p.writtenRole? step = some .output →
    (step.node, step.outputSlot) ∈ p.outputs.zip p.outputSlots ∧ step.node.isLeaf = false

/-- The plan of some outputs of an arena is orderly. -/
theorem ofOutputs_orderly (arena : Arena family) (own : ∀ o ∈ outputs, family o)
    (made : ofOutputs kernels device devices outputs = .ok p) : p.Orderly := by
  have laid := (ofOutputs_eq_ok made).1
  have sound := (Assignment.ofOrder_sound arena own).1
  have zipped : p.outputs.zip p.outputSlots =
      outputs.map fun n => (n, ((Assignment.ofOrder (Node.order outputs) outputs).slotOf n : Int)) := by
    rw [laid.requested, laid.outputSlots, ← List.map_prod_left_eq_zip]
  constructor
  case valid => exact ofOutputs_valid arena own made
  case paired => rw [laid.requested, laid.outputSlots, List.length_map]
  case apart =>
    intro entry member other listed same
    rw [zipped] at member listed
    obtain ⟨n, requested, rfl⟩ := List.mem_map.mp member
    obtain ⟨m, wanted, rfl⟩ := List.mem_map.mp listed
    have equal : n = m := by
      rcases same with slot | id
      · have special : Assignment.roleOf outputs m ≠ .scratch := by
          rw [Assignment.roleOf]
          split
          · simp
          · rw [if_pos (Node.isIn_of_mem wanted)]
            simp
        exact sound.dedicated m (List.mem_reverse.mpr (Node.mem_order_of_mem arena own wanted)) special n
          (List.mem_reverse.mpr (Node.mem_order_of_mem arena own requested)) (Int.ofNat.inj slot)
      · exact arena.identity (own n requested) (own m wanted) id
    rw [equal]
  case leaves =>
    intro entry member isLeaf
    rw [zipped] at member
    obtain ⟨n, requested, rfl⟩ := List.mem_map.mp member
    exact laid.mem_leaves.mpr ⟨Node.mem_order_of_mem arena own requested, isLeaf, rfl⟩
  case interior =>
    intro entry member interior
    rw [zipped] at member
    obtain ⟨n, requested, rfl⟩ := List.mem_map.mp member
    refine ⟨_, mem_of_slotAt (laid.fits sound (Node.mem_order_of_mem arena own requested)), rfl, ?_⟩
    simp only at interior
    rw [Assignment.roleOf, interior, if_neg Bool.false_ne_true, if_pos (Node.isIn_of_mem requested)]
  case requested =>
    intro step member role
    obtain ⟨ordered, interior⟩ := laid.mem_nodes member
    have needed := (Node.mem_order_iff arena own).mp ordered
    rw [writtenRole?, (laid.steps step member).output, laid.fits sound ordered] at role
    refine ⟨?_, interior⟩
    rw [zipped, (laid.steps step member).output]
    refine List.mem_map_of_mem ((arena.isIn_iff_mem (arena.needed own needed) own).mp ?_)
    by_contra absent
    simp [Except.toOption, Assignment.roleOf, interior, absent] at role

/-- Outputs as callers give them: one node, or a sequence of nodes. -/
inductive Requests : Value → List Node → Prop
  | one (n : Node) : Requests (.node n) [n]
  | several {v : Value} {nodes : List Node} (items : v.items? = some (nodes.map .node)) :
    Requests v nodes

theorem outputNodes_map (nodes : List Node) : outputNodes (nodes.map .node) = .ok nodes := by
  induction nodes with
  | nil => rfl
  | cons n rest ih => simp [outputNodes, ih, bind, Except.bind, pure, Except.pure]

theorem requested_eq_ok {v : Value} (requests : Requests v outputs) (some : outputs ≠ [])
    {graph : Nat} (same : ∀ o ∈ outputs, o.id.graph = graph) : requested v = .ok outputs := by
  cases requests with
  | one n => simp [requested, outputNodes, bind, Except.bind, pure, Except.pure]
  | several items =>
    cases outputs with
    | nil => exact absurd rfl some
    | cons first rest =>
      have alike : rest.all (fun n => decide (n.id.graph = first.id.graph)) = true := by
        rw [List.all_eq_true]
        intro n member
        rw [decide_eq_true_eq, same n (List.mem_cons_of_mem _ member), same first (List.mem_cons_self ..)]
      have nodes := outputNodes_map (first :: rest)
      cases v <;> simp_all [requested, Value.items?, bind, Except.bind, pure, Except.pure]

/-- Outputs of a graph compile wherever their kernels are. -/
theorem compile_returns [Memory] {allowed : ShapeRules → Prop} {w : Workspace} (built : w.Built allowed)
    {settings : Settings} {device : Value} {overrides : List (Value × Value)} {v : Value}
    {standard : Device} (requests : Requests v outputs) (some : outputs ≠ [])
    (own : ∀ o ∈ outputs, o ∈ w.graph.nodes)
    (chosen : Device.ofValue (match device with | .null => settings.defaultDevice | v => v) =
      .ok standard)
    (resolved : resolveDevices overrides = .ok devices)
    (known : ∀ n, Node.Needed outputs n → ¬n.isLeaf →
      ∃ kernel, kernelOf kernels standard devices n = .ok kernel) :
    ∃ p, ofOutputs kernels standard devices outputs = .ok p ∧
      compile settings kernels device overrides v = .ok p := by
  have ordered := built.ordered
  have same : ∀ o ∈ outputs, o.id.graph = w.graph.id := fun o member => by
    rw [ordered.placed _ o (ordered.index_lt (own o member)).2]
  have named := requested_eq_ok requests some same
  have returned : ∃ p, ofOutputs kernels standard devices outputs = .ok p :=
    ofOutputs_returns fun n member => known n ((Node.mem_order_iff ordered.arena own).mp member)
  obtain ⟨p, made⟩ := returned
  have accepted := validate_eq_ok.mpr (ofOutputs_valid ordered.arena own made)
  refine ⟨p, made, ?_⟩
  unfold compile
  simp only [bind_eq_ok]
  refine ⟨outputs, named, standard, chosen, devices, resolved, p, made, ?_⟩
  cases settings.validates with
  | true => exact bind_unit_eq_ok.mpr ⟨accepted, rfl⟩
  | false => rfl

theorem compile_eq_ok {settings : Settings} {kernels : Kernels} {device v : Value}
    {overrides : List (Value × Value)} (compiled : compile settings kernels device overrides v = .ok p) :
    ∃ outputs standard devices, ofOutputs kernels standard devices outputs = .ok p := by
  unfold compile at compiled
  simp only [bind_eq_ok] at compiled
  obtain ⟨outputs, _, standard, _, devices, _, made, found, checked⟩ := compiled
  split at checked
  · cases (bind_unit_eq_ok.mp checked).2
    exact ⟨outputs, standard, devices, found⟩
  · cases checked
    exact ⟨outputs, standard, devices, found⟩

theorem compile_standard {kernels : Kernels} {v : Value} {outputs : List Node} (listed : requested v = .ok outputs)
    (made : ofOutputs kernels .host [] outputs = .ok p) : compile .standard kernels .null [] v = .ok p := by
  refine bind_eq_ok.mpr ⟨outputs, listed, bind_eq_ok.mpr ⟨.host, rfl, bind_eq_ok.mpr ⟨[], rfl, ?_⟩⟩⟩
  exact bind_eq_ok.mpr ⟨p, made, rfl⟩

/-- Outputs of a graph compile wherever their kernels are, and validation accepts the plan: its slots
are used as they should be. -/
theorem compile_validates [Memory] {allowed : ShapeRules → Prop} {w : Workspace} (built : w.Built allowed)
    {settings : Settings} {device : Value} {overrides : List (Value × Value)} {v : Value}
    {standard : Device} (requests : Requests v outputs) (some : outputs ≠ [])
    (own : ∀ o ∈ outputs, o ∈ w.graph.nodes)
    (chosen : Device.ofValue (match device with | .null => settings.defaultDevice | v => v) =
      .ok standard)
    (resolved : resolveDevices overrides = .ok devices)
    (known : ∀ n, Node.Needed outputs n → ¬n.isLeaf →
      ∃ kernel, kernelOf kernels standard devices n = .ok kernel) :
    ∃ p, compile settings kernels device overrides v = .ok p ∧ p.outputs = outputs ∧
      p.validate = .ok () ∧ p.Disciplined ∧ ∀ place ∈ p.places, 0 ≤ place := by
  obtain ⟨p, made, compiled⟩ := compile_returns built requests some own chosen resolved known
  have valid := ofOutputs_valid built.ordered.arena own made
  have laid := (ofOutputs_eq_ok made).1
  exact ⟨p, compiled, laid.requested, validate_eq_ok.mpr valid, valid.disciplined, laid.places_nonneg⟩

theorem compile_validates_square : ∃ p,
    compile .standard .standard .null [] (.list [.node Sample.square, .node Sample.x]) = .ok p ∧
      p.outputs = [Sample.square, Sample.x] ∧ p.validate = .ok () ∧ p.Disciplined ∧
        ∀ place ∈ p.places, 0 ≤ place := by
  have own : ∀ o ∈ [Sample.square, Sample.x], o ∈ Sample.workspace.graph.nodes := by
    intro o member
    rcases List.mem_pair.mp member with same | same
    · exact Sample.mem_nodes.mpr (.inr (.inr (.inr same)))
    · exact Sample.mem_nodes.mpr (.inl same)
  have chosen : Device.ofValue Settings.standard.defaultDevice = .ok .host := rfl
  refine compile_validates Sample.built (.several rfl) (List.cons_ne_nil _ _) own chosen rfl
    fun n need interior => ?_
  rcases Sample.mem_nodes.mp (Sample.built.ordered.arena.needed own need) with rfl | rfl | rfl | rfl
  · exact absurd rfl interior
  · exact absurd rfl interior
  · exact ⟨_, rfl⟩
  · exact ⟨_, rfl⟩

end Plan
end TensorDag
