import Mathlib.Data.List.Nodup
import TensorDag.Plan.Validation
import TensorDag.Proofs.Outcome

/-!
What a plan is like that passes validation. `Plan.Valid` says it without the order in which the
checks are made; `Plan.Disciplined` says of single slots what follows for an execution.
-/
namespace TensorDag

namespace Plan
open Result

theorem require_eq_ok {holds : Bool} {fault : PlanFault} :
    require holds fault = .ok () ↔ holds = true := by
  cases holds <;> simp [require, broken]

theorem slotAt_eq_ok {p : Plan} {place : Int} {slot : Slot} :
    p.slotAt place = .ok slot ↔ (place? p.slots.length place).bind (p.slots[·]?) = some slot := by
  unfold slotAt
  cases found : (place? p.slots.length place).bind (p.slots[·]?) <;> simp [Result.fault]

theorem slotAt_of_getElem? {p : Plan} {place : Nat} {slot : Slot} (found : p.slots[place]? = some slot) :
    p.slotAt place = .ok slot := by
  have inside := (List.getElem?_eq_some_iff.mp found).1
  rw [slotAt_eq_ok, place?_ofNat inside]
  exact found

theorem mem_of_slotAt {p : Plan} {place : Int} {slot : Slot} (found : p.slotAt place = .ok slot) :
    slot ∈ p.slots := by
  obtain ⟨i, _, here⟩ := Option.bind_eq_some_iff.mp (slotAt_eq_ok.mp found)
  exact List.mem_of_getElem? here

private theorem checkTable_eq_ok {start : Nat} {slots : List Slot} :
    checkTable start slots = .ok () ↔ ∀ (i : Nat) (slot : Slot), slots[i]? = some slot →
      slot.index = (start + i : Nat) ∧ slot.role.isKnown := by
  induction slots generalizing start with
  | nil => simp [checkTable]
  | cons head rest ih =>
    rw [checkTable, bind_unit_eq_ok, bind_unit_eq_ok, require_eq_ok, require_eq_ok, ih]
    constructor
    · rintro ⟨index, known, others⟩ i slot found
      cases i with
      | zero =>
        simp only [List.getElem?_cons_zero, Option.some.injEq] at found
        exact found ▸ ⟨by simpa using index, known⟩
      | succ i =>
        have later := others i slot found
        rw [show start + (i + 1) = start + 1 + i by omega]
        exact later
    · intro all
      have first := all 0 head rfl
      refine ⟨by simpa using first.1, first.2, fun i slot found => ?_⟩
      have later := all (i + 1) slot found
      rw [show start + 1 + i = start + (i + 1) by omega]
      exact later

/-- The slot at a place is of the size of a node. -/
def Fits (p : Plan) (place : Int) (n : Node) : Prop :=
  ∃ slot, p.slotAt place = .ok slot ∧ slot.size = n.byteSize

private theorem checkSizes_eq_ok {p : Plan} {entries : List (Int × Node)} :
    p.checkSizes entries = .ok () ↔ ∀ entry ∈ entries, p.Fits entry.1 entry.2 := by
  induction entries with
  | nil => simp [checkSizes]
  | cons head rest ih =>
    obtain ⟨place, n⟩ := head
    rw [checkSizes, bind_unit_eq_ok, ih, checkSize, bind_eq_ok, List.forall_mem_cons]
    simp only [require_eq_ok, decide_eq_true_eq, Fits]

private theorem checkLeafRoles_eq_ok {p : Plan} {places : List Int} :
    p.checkLeafRoles places = .ok () ↔
      ∀ place ∈ places, ∃ slot, p.slotAt place = .ok slot ∧ slot.role = .leaf := by
  induction places with
  | nil => simp [checkLeafRoles]
  | cons place rest ih =>
    rw [checkLeafRoles, bind_eq_ok, List.forall_mem_cons, ← ih]
    simp only [bind_unit_eq_ok, require_eq_ok, decide_eq_true_eq]
    exact ⟨fun ⟨slot, found, role, others⟩ => ⟨⟨slot, found, role⟩, others⟩,
      fun ⟨⟨slot, found, role⟩, others⟩ => ⟨slot, found, role, others⟩⟩

/-- The role of the slot that a step writes, if there is one. -/
def writtenRole? (p : Plan) (step : Step) : Option Role :=
  ((p.slotAt step.outputSlot).toOption).map Slot.role

def outputPlaces (p : Plan) (steps : List Step) : List Int :=
  (steps.filter fun step => p.writtenRole? step = some .output).map Step.outputSlot

private theorem outputWrites_eq_ok {p : Plan} {steps : List Step} {writes : List Int} :
    p.outputWrites steps = .ok writes ↔
      (∀ step ∈ steps, ∃ slot, p.slotAt step.outputSlot = .ok slot ∧ slot.role ≠ .leaf) ∧
        writes = p.outputPlaces steps := by
  induction steps generalizing writes with
  | nil => simp [outputWrites, outputPlaces, eq_comm]
  | cons step rest ih =>
    simp only [outputWrites, bind_eq_ok, require_eq_ok, decide_eq_true_eq, pure_eq_ok, ih,
      exists_unit, List.forall_mem_cons]
    constructor
    · rintro ⟨slot, found, role, _, ⟨others, rfl⟩, rfl⟩
      refine ⟨⟨⟨slot, found, role⟩, others⟩, ?_⟩
      by_cases output : slot.role = .output <;>
        simp [outputPlaces, writtenRole?, found, Except.toOption, output]
    · rintro ⟨⟨⟨slot, found, role⟩, others⟩, rfl⟩
      refine ⟨slot, found, role, _, ⟨others, rfl⟩, ?_⟩
      by_cases output : slot.role = .output <;>
        simp [outputPlaces, writtenRole?, found, Except.toOption, output]

private theorem checkWrites_eq_ok {all places : List Int} :
    checkWrites all places = .ok () ↔ ∀ place ∈ places, all.count place ≤ 1 := by
  induction places with
  | nil => simp [checkWrites]
  | cons place rest ih =>
    rw [checkWrites, bind_unit_eq_ok, require_eq_ok, ih, List.forall_mem_cons, decide_eq_true_eq]

private theorem checkReads_eq_ok {step : Step} {holders : Holders} {reads : List (Int × Node)} :
    checkReads step holders reads = .ok () ↔
      ∀ read ∈ reads, ∃ holder, holders.lookup read.1 = some holder ∧ holder.id = read.2.id := by
  induction reads with
  | nil => simp [checkReads]
  | cons head rest ih =>
    obtain ⟨place, input⟩ := head
    rw [checkReads, List.forall_mem_cons]
    cases found : holders.lookup place with
    | none => simp [broken]
    | some holder =>
      simp only [bind_unit_eq_ok, require_eq_ok, ih, Node.same, decide_eq_true_eq,
        Option.some.injEq, exists_eq_left']

def written (steps : List Step) (holders : Holders) : Holders :=
  (steps.map fun step => (step.outputSlot, step.node)).reverse ++ holders

theorem written_cons (step : Step) (steps : List Step) (holders : Holders) :
    written (step :: steps) holders = written steps ((step.outputSlot, step.node) :: holders) := by
  simp [written]

/-- A step reads each of its inputs from the slot that holds it, and writes another one. -/
structure Flowing (step : Step) (holders : Holders) : Prop where
  arity : step.inputSlots.length = step.node.inputs.length
  reads : ∀ read ∈ step.inputSlots.zip step.node.inputs,
    ∃ holder, holders.lookup read.1 = some holder ∧ holder.id = read.2.id
  apart : step.outputSlot ∉ step.inputSlots

theorem Flowing.input {step : Step} {holders : Holders} (flowing : Flowing step holders) {place : Int}
    (read : place ∈ step.inputSlots) :
    ∃ n ∈ step.node.inputs, ∃ holder, holders.lookup place = some holder ∧ holder.id = n.id := by
  obtain ⟨i, inside, rfl⟩ := List.mem_iff_getElem.mp read
  have bound : i < step.node.inputs.length := flowing.arity ▸ inside
  have paired : (step.inputSlots[i], step.node.inputs[i]) ∈ step.inputSlots.zip step.node.inputs :=
    List.mem_iff_getElem.mpr ⟨i, by rw [List.length_zip]; omega, by simp⟩
  exact ⟨_, List.getElem_mem bound, flowing.reads _ paired⟩

private theorem checkSteps_eq_ok {steps : List Step} {holders final : Holders} :
    checkSteps steps holders = .ok final ↔ final = written steps holders ∧
      ∀ before step after, steps = before ++ step :: after → Flowing step (written before holders) := by
  induction steps generalizing holders with
  | nil => simp [checkSteps, written, eq_comm]
  | cons head rest ih =>
    rw [checkSteps, bind_unit_eq_ok, bind_unit_eq_ok, bind_unit_eq_ok, require_eq_ok, require_eq_ok,
      checkReads_eq_ok, ih, written_cons]
    constructor
    · rintro ⟨arity, reads, apart, rfl, others⟩
      refine ⟨rfl, fun before step after split => ?_⟩
      cases before with
      | nil =>
        obtain ⟨rfl, rfl⟩ := List.cons.inj split
        exact ⟨by simpa using arity, reads, by simpa using apart⟩
      | cons first before =>
        obtain ⟨rfl, rfl⟩ := List.cons.inj split
        rw [written_cons]
        exact others before step after rfl
    · rintro ⟨rfl, all⟩
      have here := all [] head rest rfl
      refine ⟨by simpa using here.arity, here.reads, by simpa using here.apart, rfl, ?_⟩
      intro before step after split
      rw [← written_cons]
      exact all (head :: before) step after (by rw [split]; rfl)

private theorem checkOutputs_eq_ok {holders : Holders} {outputs : List (Node × Int)} :
    checkOutputs holders outputs = .ok () ↔
      ∀ output ∈ outputs, ∃ holder, holders.lookup output.2 = some holder ∧ holder.id = output.1.id := by
  induction outputs with
  | nil => simp [checkOutputs]
  | cons head rest ih =>
    obtain ⟨n, place⟩ := head
    rw [checkOutputs, bind_unit_eq_ok, require_eq_ok, ih, List.forall_mem_cons]
    cases holders.lookup place <;> simp [Node.same]

/-- The properties that validation checks. -/
structure Valid (p : Plan) : Prop where
  table : ∀ (i : Nat) (slot : Slot), p.slots[i]? = some slot → slot.index = i ∧ slot.role.isKnown
  leafSizes : ∀ leaf ∈ p.leaves, p.Fits leaf.slot leaf.node
  stepSizes : ∀ step ∈ p.steps, p.Fits step.outputSlot step.node
  readSizes : ∀ step ∈ p.steps, ∀ read ∈ step.inputSlots.zip step.node.inputs, p.Fits read.1 read.2
  leavesApart : (p.leaves.map LeafSlot.slot).Nodup
  leafRoles : ∀ leaf ∈ p.leaves, ∃ slot, p.slotAt leaf.slot = .ok slot ∧ slot.role = .leaf
  stepRoles : ∀ step ∈ p.steps, ∃ slot, p.slotAt step.outputSlot = .ok slot ∧ slot.role ≠ .leaf
  writtenOnce : (p.outputPlaces p.steps).Nodup
  flow : ∀ before step after, p.steps = before ++ step :: after →
    Flowing step (written before p.leafHolders)
  outputs : ∀ output ∈ p.outputs.zip p.outputSlots,
    ∃ holder, (written p.steps p.leafHolders).lookup output.2 = some holder ∧ holder.id = output.1.id

/-- Validation accepts the valid plans and no others. -/
theorem validate_eq_ok {p : Plan} : p.validate = .ok () ↔ p.Valid := by
  unfold validate checkSlotSizes checkDedicatedSlots checkDataflow
  simp only [bind_eq_ok, exists_unit, require_eq_ok, checkTable_eq_ok, checkSizes_eq_ok,
    checkLeafRoles_eq_ok, outputWrites_eq_ok, checkWrites_eq_ok, checkSteps_eq_ok,
    checkOutputs_eq_ok, decide_eq_true_eq, List.forall_mem_map, List.forall_mem_flatMap,
    List.forall_mem_cons]
  constructor
  · rintro ⟨⟨table, leafSizes, sizes⟩, ⟨apart, roles, _, ⟨stepRoles, rfl⟩, once⟩, _, ⟨rfl, flow⟩, outputs⟩
    refine ⟨by simpa using table, leafSizes, fun step member => (sizes step member).1,
      fun step member => (sizes step member).2, apart, roles, stepRoles, ?_, flow, outputs⟩
    rw [List.nodup_iff_count]
    intro place
    by_cases member : place ∈ p.outputPlaces p.steps
    · exact once place member
    · rw [List.count_eq_zero_of_not_mem member]
      exact Nat.zero_le 1
  · intro valid
    exact ⟨⟨by simpa using valid.table, valid.leafSizes, fun step member =>
      ⟨valid.stepSizes step member, valid.readSizes step member⟩⟩,
      ⟨valid.leavesApart, valid.leafRoles, _, ⟨valid.stepRoles, rfl⟩,
        fun place _ => List.nodup_iff_count.mp valid.writtenOnce place⟩,
      _, ⟨rfl, valid.flow⟩, valid.outputs⟩

def places (p : Plan) : List Int :=
  p.leaves.map LeafSlot.slot ++ p.steps.flatMap (fun step => step.outputSlot :: step.inputSlots) ++
    p.outputSlots

theorem mem_places_of_step {p : Plan} {step : Step} (member : step ∈ p.steps) {key : Int}
    (listed : key ∈ step.outputSlot :: step.inputSlots) : key ∈ p.places :=
  List.mem_append_left _ (List.mem_append_right _ (List.mem_flatMap.mpr ⟨step, member, listed⟩))

theorem mem_places_of_output {p : Plan} {entry : Node × Int}
    (member : entry ∈ p.outputs.zip p.outputSlots) : entry.2 ∈ p.places :=
  List.mem_append_right _ (List.of_mem_zip member).2

/-- The value of a node is in a slot: the step of the node wrote it there, or its leaf was put there,
and no later one of the steps before wrote into the slot. -/
def Holds (p : Plan) (before : List Step) (place : Int) (n : Node) : Prop :=
  (∃ first writer between, before = first ++ writer :: between ∧ writer.outputSlot = place ∧
    writer.node.id = n.id ∧ ∀ other ∈ between, other.outputSlot ≠ place) ∨
  (∃ leaf ∈ p.leaves, leaf.slot = place ∧ leaf.node.id = n.id) ∧
    ∀ other ∈ before, other.outputSlot ≠ place

/-- How a plan uses its slots: what is read was written and not overwritten, leaf and output slots
are used once, and sizes are those of the values. -/
structure Disciplined (p : Plan) : Prop where
  arity : ∀ step ∈ p.steps, step.inputSlots.length = step.node.inputs.length
  reads : ∀ before step after, p.steps = before ++ step :: after →
    ∀ read ∈ step.inputSlots.zip step.node.inputs, p.Holds before read.1 read.2
  apart : ∀ step ∈ p.steps, step.outputSlot ∉ step.inputSlots
  leavesOnce : (p.leaves.map LeafSlot.slot).Nodup
  leavesKept : ∀ leaf ∈ p.leaves, ∀ step ∈ p.steps, step.outputSlot ≠ leaf.slot
  outputsOnce : ∀ before step after, p.steps = before ++ step :: after →
    p.writtenRole? step = some .output → ∀ other ∈ before ++ after, other.outputSlot ≠ step.outputSlot
  outputs : ∀ output ∈ p.outputs.zip p.outputSlots, p.Holds p.steps output.2 output.1
  leafSizes : ∀ leaf ∈ p.leaves, p.Fits leaf.slot leaf.node
  stepSizes : ∀ step ∈ p.steps, p.Fits step.outputSlot step.node

/-- The holder of a slot is the last node that was put there. -/
private theorem holds_of_lookup {p : Plan} {before : List Step} {place : Int} {n holder : Node}
    (found : (written before p.leafHolders).lookup place = some holder) (same : holder.id = n.id) :
    p.Holds before place n := by
  rw [written, List.lookup_append, Option.or_eq_some_iff] at found
  rcases found with inside | ⟨none, leaf⟩
  · obtain ⟨newer, older, split, apart⟩ := List.lookup_eq_some_iff.mp inside
    rw [List.reverse_eq_iff, List.reverse_append, List.reverse_cons, List.append_assoc,
      List.singleton_append, List.map_eq_append_iff] at split
    obtain ⟨first, rest, rfl, _, split⟩ := split
    obtain ⟨writer, between, rfl, here, split⟩ := List.map_eq_cons_iff.mp split
    obtain ⟨slot, node⟩ := Prod.mk.inj here
    refine .inl ⟨first, writer, between, rfl, slot, by rw [node, same], fun other member => ?_⟩
    have listed : (other.outputSlot, other.node) ∈ newer.reverse := split ▸ List.mem_map_of_mem member
    exact Ne.symm (bne_iff_ne.mp (apart _ (List.mem_reverse.mp listed)))
  · refine .inr ⟨?_, fun other member equal => ?_⟩
    · obtain ⟨newer, older, split, _⟩ := List.lookup_eq_some_iff.mp leaf
      have listed : (place, holder) ∈ p.leafHolders := by simp [split]
      rw [leafHolders, List.mem_reverse, List.mem_map] at listed
      obtain ⟨leaf, member, here⟩ := listed
      obtain ⟨slot, node⟩ := Prod.mk.inj here
      exact ⟨leaf, member, slot, by rw [node, same]⟩
    · have listed : (place, other.node) ∈
          (before.map fun step => (step.outputSlot, step.node)).reverse := by
        rw [List.mem_reverse, ← equal]
        exact List.mem_map_of_mem member
      simpa using List.lookup_eq_none_iff.mp none _ listed

/-- Plans that validation accepts use their slots well. -/
theorem Valid.disciplined {p : Plan} (valid : p.Valid) : p.Disciplined where
  arity step member := by
    obtain ⟨before, after, split⟩ := List.append_of_mem member
    exact (valid.flow before step after split).arity
  reads before step after split read member := by
    obtain ⟨holder, found, same⟩ := (valid.flow before step after split).reads read member
    exact holds_of_lookup found same
  apart step member := by
    obtain ⟨before, after, split⟩ := List.append_of_mem member
    exact (valid.flow before step after split).apart
  leavesOnce := valid.leavesApart
  leavesKept leaf member step listed equal := by
    obtain ⟨slot, found, role⟩ := valid.leafRoles leaf member
    obtain ⟨other, here, apart⟩ := valid.stepRoles step listed
    rw [equal, found] at here
    exact apart (Except.ok.inj here ▸ role)
  outputsOnce before step after split role other member equal := by
    have same : p.writtenRole? other = some .output := by rw [writtenRole?, equal]; exact role
    have once := valid.writtenOnce
    rw [split, outputPlaces, List.filter_append, List.filter_cons_of_pos (by simpa using role),
      List.map_append, List.map_cons, List.perm_middle.nodup_iff, List.nodup_cons] at once
    refine once.1 ?_
    rw [← equal, ← List.map_append, ← List.filter_append]
    exact List.mem_map_of_mem (List.mem_filter.mpr ⟨member, by simpa using same⟩)
  outputs output member := by
    obtain ⟨holder, found, same⟩ := valid.outputs output member
    exact holds_of_lookup found same
  leafSizes := valid.leafSizes
  stepSizes := valid.stepSizes

namespace Valid
variable {p : Plan}

theorem slotAt_index (valid : p.Valid) {slot : Slot} (member : slot ∈ p.slots) :
    p.slotAt slot.index = .ok slot := by
  obtain ⟨i, found⟩ := List.mem_iff_getElem?.mp member
  rw [(valid.table i slot found).1]
  exact slotAt_of_getElem? found

theorem slot_eq (valid : p.Valid) {slot other : Slot} (first : slot ∈ p.slots)
    (second : other ∈ p.slots) (same : slot.index = other.index) : slot = other := by
  have found := valid.slotAt_index first
  rw [same, valid.slotAt_index second] at found
  exact (Except.ok.inj found).symm

theorem indices_nodup (valid : p.Valid) : (p.slots.map Slot.index).Nodup := by
  have places : p.slots.map Slot.index = (List.range p.slots.length).map Int.ofNat := by
    refine List.ext_getElem (by simp) fun i first _ => ?_
    rw [List.length_map] at first
    simpa using (valid.table i p.slots[i] (List.getElem?_eq_getElem first)).1
  rw [places]
  exact List.nodup_range.map fun _ _ => Int.ofNat.inj

theorem leaf_role (valid : p.Valid) {leaf : LeafSlot} {slot : Slot} (member : leaf ∈ p.leaves)
    (listed : slot ∈ p.slots) (same : slot.index = leaf.slot) : slot.role = .leaf := by
  obtain ⟨other, found, role⟩ := valid.leafRoles leaf member
  rw [← same, valid.slotAt_index listed] at found
  rw [Except.ok.inj found, role]

end Valid

end Plan
end TensorDag
