import TensorDag.Proofs.Computing
import TensorDag.Proofs.Editing
import TensorDag.Proofs.Refusing
import TensorDag.Proofs.Totality

/-!
What can be evaluated can be differentiated. Where the kernels of all steps return on buffers of the right sizes,
a plan executes; kernels return on nodes that are suited for them, and nodes that an execution has computed are.
-/
namespace TensorDag

/-- The kernel of a step returns, given bytes of the sizes of its inputs and a writable buffer of its size. -/
def Step.Able [Memory] (step : Step) : Prop :=
  ∀ args output streams, List.Forall₂ (fun x bytes => bytes.size = x.byteSize) step.node.inputs args →
    output.size = step.node.byteSize → output.readonly = false →
      ∃ written, (step.kernel.run step.node args output streams).1 = .ok written

namespace Execution
open Program Plan
variable [Memory] {p : Plan} {s s' s₁ s₂ middle : State} {bound : Bindings} {bindings : List (Value × Value)}
    {profiled : Bool}

/-- Buffers of leaves are there, and of the sizes of the leaves. -/
def Housed (store : Store) (p : Plan) : Prop :=
  ∀ leaf ∈ p.leaves, ∀ id, leaf.node.buffer = some id → id < store.size ∧ (store.get id).size = leaf.node.byteSize

namespace Amid

theorem leaf_size (amid : Amid p bindings bound s s₁ s₂ middle) (housed : Housed s.store p) {leaf : LeafSlot}
    (member : leaf ∈ p.leaves) {id : BufferId} (found : leafBuffer bound leaf.node = some id) :
    id < s₁.store.size ∧ (s₁.store.get id).size = leaf.node.byteSize := by
  unfold leafBuffer at found
  cases given : bound.lookup leaf.node.id with
  | some other =>
    rw [given, Option.some_or] at found
    cases found
    obtain ⟨_, _, stands⟩ := amid.bounds.stands member given
    exact ⟨stands.inside, stands.size⟩
  | none =>
    rw [given, Option.none_or] at found
    obtain ⟨inside, size⟩ := housed leaf member id found
    exact ⟨Nat.lt_of_lt_of_le inside amid.extended.store.grows, by rw [amid.extended.store.same id inside, size]⟩

/-- The buffer in a slot is of the size of the nodes that fit into it. -/
theorem size (amid : Amid p bindings bound s s₁ s₂ middle) (valid : p.Valid) (seated : p.Seated)
    (empty : s.storage = []) (housed : Housed s.store p) {key : Int}
    (origin : (∃ step ∈ p.steps, step.outputSlot = key) ∨ ∃ leaf ∈ p.leaves, leaf.slot = key) {n : Node}
    (fits : p.Fits key n) {id : BufferId} (held : middle.storage.get? key = some id) :
    (middle.store.get id).size = n.byteSize := by
  obtain ⟨slot, found, size⟩ := fits
  rw [amid.altered.storage] at held
  have prepared := amid.prepared
  have kept : ∀ {size : Nat}, id < s₂.store.size → (s₂.store.get id).size = size → (middle.store.get id).size = size :=
    fun inside same => (amid.altered.store.sizes id inside).trans same
  rcases origin with ⟨step, member, rfl⟩ | ⟨leaf, member, rfl⟩
  · obtain ⟨other, listed, same, role⟩ := valid.written_slot member (seated.written step member)
    have here := valid.slotAt_index listed
    rw [same] at here
    cases here.symm.trans found
    obtain ⟨serves, _⟩ := prepared.equipped.serving valid listed role (same ▸ held)
    exact kept serves.inside (Int.ofNat.inj (serves.size.trans size))
  · obtain ⟨other, here, size'⟩ := valid.leafSizes leaf member
    cases here.symm.trans found
    rw [prepared.leaves leaf member, amid.extended.storage, empty] at held
    have own : leafBuffer bound leaf.node = some id := by
      rcases Option.or_eq_some_iff.mp held with own | ⟨_, none⟩
      · exact own
      · cases none
    obtain ⟨inside, same⟩ := amid.leaf_size housed member own
    refine kept (Nat.lt_of_lt_of_le inside prepared.store.grows) ?_
    rw [prepared.store.same id inside, same]
    exact Int.ofNat.inj (size'.symm.trans size)

/-- A step finds bytes of the sizes of its inputs and a writable buffer of its size. -/
theorem fed (amid : Amid p bindings bound s s₁ s₂ middle) (valid : p.Valid) (seated : p.Seated)
    (empty : s.storage = []) (housed : Housed s.store p) {step : Step} (member : step ∈ p.steps) {ids : List BufferId}
    {out : BufferId} {outcome : Result (Option Bytes)} (ran : Ran step middle ids out outcome) :
    List.Forall₂ (fun x bytes => bytes.size = x.byteSize) step.node.inputs (contents middle.store ids) ∧
      (middle.store.get out).size = step.node.byteSize ∧ (middle.store.get out).readonly = false := by
  obtain ⟨before, after, split⟩ := List.append_of_mem member
  have arity := (valid.flow before step after split).arity
  refine ⟨?_, ?_, ?_⟩
  · rw [contents, List.forall₂_map_right_iff, List.forall₂_iff_get]
    refine ⟨arity.symm.trans ran.inputs.length_eq, fun i here there => ?_⟩
    have place : i < step.inputSlots.length := arity ▸ here
    have read : (step.inputSlots[i], step.node.inputs[i]) ∈ step.inputSlots.zip step.node.inputs :=
      List.mem_iff_getElem.mpr ⟨i, by rw [List.length_zip]; omega, List.getElem_zip⟩
    exact amid.size valid seated empty housed (valid.step_origin member (.tail _ (List.getElem_mem place)))
      (valid.readSizes step member _ read) (ran.inputs.get place there)
  · exact amid.size valid seated empty housed (.inl ⟨step, member, rfl⟩) (valid.stepSizes step member) ran.output
  · have held := amid.altered.storage ▸ ran.output
    obtain ⟨slot, listed, same, role⟩ := valid.written_slot member (seated.written step member)
    obtain ⟨serves, _⟩ := amid.prepared.equipped.serving valid listed role (same ▸ held)
    rw [amid.altered.store.flags out serves.inside, serves.writable]

end Amid

theorem run_progresses (valid : p.Valid) (seated : p.Seated) (able : ∀ step ∈ p.steps, step.Able)
    (empty : s.storage = [])
    (furnishes : Furnishes s.store p) (housed : Housed s.store p) (suits : Suits p s.store bindings) (profiled : Bool) :
    ∃ ids s', run profiled p bindings none s = .ok ids s' ∧ ids.length = p.outputs.length := by
  rcases run_of_seated valid seated empty furnishes suits profiled with
    returned | ⟨e, s', _, step, member, bound, s₁, s₂, middle, ids, out, amid, ran⟩
  · exact returned
  · obtain ⟨sizes, size, writable⟩ := amid.fed valid seated empty housed member ran
    obtain ⟨written, returned⟩ := able step member _ _ middle.streams sizes size writable
    cases ran.kernel.symm.trans returned

theorem steps_ran (steps : List Step) : Ensures (steps.forM (runStep profiled)) s
    (fun _ _ => ∀ step ∈ steps, ∃ middle ids out written, Ran step middle ids out (.ok written)) (fun _ => True) := by
  induction steps generalizing s with
  | nil => exact .pure (by simp)
  | cons step rest ih =>
    rw [forM_cons]
    refine .bind ((runStep_spec profiled step).weaken ?_ fun _ _ => trivial)
    rintro _ middle ⟨_, ids, out, written, ran, _⟩
    refine ih.weaken (fun _ s' others => List.forall_mem_cons.mpr ⟨?_, others⟩) fun _ _ => trivial
    exact ⟨s, ids, out, written, ran⟩

theorem run_ran {supplied : Option (List Value)} {ids : List BufferId}
    (returned : run profiled p bindings supplied s = .ok ids s') :
    ∀ step ∈ p.steps, ∃ middle ids out written, Ran step middle ids out (.ok written) := by
  obtain ⟨_, _, _, returned⟩ := bind_eq_ok.mp returned
  obtain ⟨_, _, _, returned⟩ := bind_eq_ok.mp returned
  obtain ⟨_, _, _, returned⟩ := bind_eq_ok.mp returned
  obtain ⟨_, _, _, returned⟩ := bind_eq_ok.mp returned
  obtain ⟨_, _, _, returned⟩ := bind_eq_ok.mp returned
  obtain ⟨_, returned, _⟩ := discarding_eq_ok returned
  obtain ⟨_, _, ran, _⟩ := bind_eq_ok.mp returned
  exact (steps_ran p.steps).of_ok ran

end Execution

namespace Plan
open Execution
variable {full : Prop} {w : Workspace} {outputs : List Node} {p : Plan}

/-- Plans of graphs within the limits are seated. -/
theorem ofOutputs_seated [Memory] (bounded : w.Bounded full) (own : ∀ o ∈ outputs, o ∈ w.graph.nodes)
    {kernels : Kernels} {device : Device}
    {devices : Devices} (made : ofOutputs kernels device devices outputs = .ok p) : p.Seated := by
  have arena := bounded.coherent.arena
  have laid := (ofOutputs_eq_ok made).1
  constructor
  case written =>
    intro step member
    rw [(laid.steps step member).output]
    exact Int.natCast_nonneg _
  case placed => rw [laid.requested, laid.outputSlots, List.length_map]
  case roomy =>
    intro slot member role
    obtain ⟨n, ordered, _, size⟩ := laid.sized (Assignment.ofOrder_sound arena own).1 member role
    rw [Roomy, size]
    have fits := (bounded.nodes n (Node.order_own arena own n ordered)).shape
    exact ⟨Int.natCast_nonneg _, fits.byteSize_room⟩

/-- The leaves of plans of graphs within the limits have buffers of their sizes, or are placeholders. -/
theorem ofOutputs_furnishes [Memory] (bounded : w.Bounded full) (own : ∀ o ∈ outputs, o ∈ w.graph.nodes)
    {kernels : Kernels} {device : Device}
    {devices : Devices} (made : ofOutputs kernels device devices outputs = .ok p) {store : Store}
    (later : w.store.Later store) : Furnishes store p ∧ Housed store p := by
  have arena := bounded.coherent.arena
  have proper := bounded.built.mono fun _ standard => standard ▸ ShapeRules.standard_proper
  have leaves : ∀ leaf ∈ p.leaves, leaf.node.isLeaf ∧ leaf.node.Furnished store := by
    intro leaf member
    obtain ⟨ordered, isLeaf, _⟩ := (ofOutputs_eq_ok made).1.mem_leaves.mp member
    exact ⟨isLeaf, (proper.furnished.2 _ (Node.order_own arena own _ ordered)).later later⟩
  refine ⟨fun leaf member => ?_, fun leaf member id held => ?_⟩
  · obtain ⟨isLeaf, furnished⟩ := leaves leaf member
    exact (furnished.given isLeaf).imp_right fun ⟨id, held⟩ => ⟨id, furnished.inside id held, held⟩
  · obtain ⟨_, furnished⟩ := leaves leaf member
    exact ⟨furnished.inside id held, furnished.sized id held⟩

theorem find_standard {kind : Kind} {device : Device} {kernel : Kernel}
    (found : Kernels.standard.find kind.name device = .ok kernel) : kernel = .host kind := by
  cases device with
  | host => exact Except.ok.inj (found.symm.trans (find_host kind))
  | accelerator =>
    have missing : Kernels.standard.find kind.name .accelerator =
      .error (.noKernel Device.accelerator.name kind.name) := by
      cases kind with
      | binary op => cases op <;> rfl
      | unary op => cases op <;> rfl
      | _ => rfl
    cases missing.symm.trans found

theorem step_kernel {device : Device} {devices : Devices} (made : ofOutputs .standard device devices outputs = .ok p)
    {step : Step} (member : step ∈ p.steps) {op : Operator} (formed : step.node.Formed op) :
    step.kernel = .host op.kind := by
  have found := (ofOutputs_eq_ok made).2 step member
  rw [kernelOf, formed.named] at found
  exact find_standard found

theorem ofOutputs_able [Memory] (bounded : w.Bounded full) (own : ∀ o ∈ outputs, o ∈ w.graph.nodes)
    (able : ∀ o ∈ outputs, o.Operable)
    (made : ofOutputs .standard .host [] outputs = .ok p) : ∀ step ∈ p.steps, step.Able := by
  intro step member args output streams sizes size writable
  have arena := bounded.coherent.arena
  obtain ⟨ordered, interior⟩ := (ofOutputs_eq_ok made).1.mem_nodes member
  have need := (Node.mem_order_iff arena own).mp ordered
  have here := arena.needed own need
  obtain ⟨op, formed⟩ := (bounded.built.regular.formed step.node here).resolve_left (by simp [interior])
  obtain ⟨o, requested, path⟩ := need
  have suited := ((able o requested).reaches path).suited op formed
  obtain ⟨bytes, returned⟩ := formed.run_returns suited (bounded.nodes _ here).shape.toLimited
    (fun x input => (bounded.nodes x (arena.inputs here input)).shape.toLimited) sizes size writable streams
  exact ⟨some bytes, step_kernel made member formed ▸ returned⟩

end Plan
end TensorDag
