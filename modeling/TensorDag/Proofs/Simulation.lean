import TensorDag.Proofs.Building
import TensorDag.Proofs.Keeping
import TensorDag.Proofs.Stepping

/-!
Executions of valid plans compute what the nodes evaluate to. Validation follows one node for each
slot; while the steps run, the buffer in the slot holds the value of that node.
-/
namespace TensorDag

namespace Plan
variable {p : Plan}

/-- Steps run the host's kernels of their kinds, other than that of samples, and leaves are leaves. -/
structure Hosted (p : Plan) : Prop where
  steps : ∀ step ∈ p.steps, step.node.isLeaf = false ∧
    ∃ kind : Kind, kind ≠ .uniform ∧ step.node.kind = kind.name ∧ step.kernel = .host kind
  leaves : ∀ leaf ∈ p.leaves, leaf.node.isLeaf

/-- The nodes of a plan belong to a family. -/
structure Within (family : Node → Prop) (p : Plan) : Prop where
  steps : ∀ step ∈ p.steps, family step.node
  leaves : ∀ leaf ∈ p.leaves, family leaf.node
  outputs : ∀ n ∈ p.outputs, family n

theorem mem_written {before : List Step} {holders : Holders} {place : Int} {n : Node}
    (found : (written before holders).lookup place = some n) :
    (∃ step ∈ before, step.outputSlot = place ∧ step.node = n) ∨ holders.lookup place = some n := by
  rw [written, List.lookup_append, Option.or_eq_some_iff] at found
  refine found.imp (fun inside => ?_) And.right
  obtain ⟨newer, older, split, _⟩ := List.lookup_eq_some_iff.mp inside
  have listed : (place, n) ∈ (before.map fun step => (step.outputSlot, step.node)).reverse := by
    simp [split]
  rw [List.mem_reverse, List.mem_map] at listed
  obtain ⟨step, member, same⟩ := listed
  exact ⟨step, member, (Prod.mk.inj same).1, (Prod.mk.inj same).2⟩

theorem mem_leafHolders {place : Int} {n : Node} (found : p.leafHolders.lookup place = some n) :
    ∃ leaf ∈ p.leaves, leaf.slot = place ∧ leaf.node = n := by
  obtain ⟨newer, older, split, _⟩ := List.lookup_eq_some_iff.mp found
  have listed : (place, n) ∈ p.leafHolders := by simp [split]
  rw [leafHolders, List.mem_reverse, List.mem_map] at listed
  obtain ⟨leaf, member, same⟩ := listed
  exact ⟨leaf, member, (Prod.mk.inj same).1, (Prod.mk.inj same).2⟩

theorem Within.holder {family : Node → Prop} (within : p.Within family) {before : List Step}
    (earlier : ∀ step ∈ before, step ∈ p.steps) {place : Int} {n : Node}
    (found : (written before p.leafHolders).lookup place = some n) : family n := by
  rcases mem_written found with ⟨step, member, _, rfl⟩ | listed
  · exact within.steps step (earlier step member)
  · obtain ⟨leaf, member, _, rfl⟩ := mem_leafHolders listed
    exact within.leaves leaf member

end Plan

namespace Execution
open Program
variable [Memory] {p : Plan} {s s' : State} {bound : Bindings} {leaf : Node → Result Bytes}

/-- The slots that steps write to are ready for it. -/
structure Equipped (p : Plan) (s : State) : Prop extends Kept p s where
  outputs : ∀ slot ∈ p.slots, slot.role = .output → ∀ id, s.storage.get? slot.index = some id →
    Serves s.store slot id ∧ ∀ key, s.storage.get? key = some id → key = slot.index

omit [Memory] in
theorem role_cases (valid : p.Valid) {slot : Slot} (member : slot ∈ p.slots)
    (own : slot.role ≠ .leaf) : slot.role = .scratch ∨ slot.role = .output := by
  obtain ⟨i, here⟩ := List.mem_iff_getElem?.mp member
  have known := (valid.table i slot here).2
  cases role : slot.role with
  | leaf => exact absurd role own
  | scratch => exact .inl rfl
  | output => exact .inr rfl
  | other name => rw [role] at known; cases known

theorem Equipped.serving (equipped : Equipped p s) (valid : p.Valid) {slot : Slot}
    (member : slot ∈ p.slots) (role : slot.role ≠ .leaf) {id : BufferId}
    (found : s.storage.get? slot.index = some id) :
    Serves s.store slot id ∧ ∀ key, s.storage.get? key = some id → key = slot.index := by
  rcases role_cases valid member role with scratch | output
  · exact ⟨equipped.serves slot member scratch id found,
      fun key again => equipped.alone slot member scratch id key found again⟩
  · exact equipped.outputs slot member output id found

/-- What preparation leaves in the slots. -/
structure Prepared (p : Plan) (bound : Bindings) (s s' : State) : Prop where
  store : s.store.Extends s'.store
  onward : Onward p s s'
  equipped : Equipped p s'
  fresh : ∀ slot ∈ p.slots, slot.role = .output → ∀ id, s'.storage.get? slot.index = some id → s.store.size ≤ id
  filled : ∀ slot ∈ p.slots, slot.role ≠ .leaf → ∃ id, s'.storage.get? slot.index = some id
  leaves : ∀ leaf ∈ p.leaves,
    s'.storage.get? leaf.slot = (leafBuffer bound leaf.node).or (s.storage.get? leaf.slot)

/-- The slots of a valid plan are prepared for its steps, unless there is no room for one of them. -/
theorem prepare_spec (valid : p.Valid) (kept : Kept p s)
    (visible : ∀ leaf ∈ p.leaves, ∀ id, leafBuffer bound leaf.node = some id → Visible p s id) :
    Ensures (prepare p bound none) s (fun _ s' => Prepared p bound s s')
      (fun s' => s.store.Extends s'.store ∧ ∃ slot ∈ p.slots, slot.role ≠ .leaf ∧ ¬Roomy slot) := by
  have onward : Onward p s (leaved p bound s) := kept.putLeaves (fun leaf => public_leaf valid) visible
  refine ensures_prepare valid.indices_nodup onward.kept.within (fun s' filled ready => ?_)
    fun s' filled full => ⟨filled.store, full⟩
  rw [Option.getD_none, List.zip_nil_right]
  have again := onward.kept.filled valid filled
  refine .pure ⟨filled.store, onward.trans again, ⟨again.kept, ?_⟩, ?_, ?_, ?_⟩
  · intro slot member output id found
    obtain ⟨other, held, late⟩ := (ready slot member).1 output
    cases held.symm.trans found
    obtain ⟨served, listed, same, _, serves⟩ := filled.fresh _ _ found late
    exact ⟨valid.slot_eq listed member same ▸ serves,
      fun key again => filled.once _ key slot.index late again found⟩
  · intro slot member output id found
    obtain ⟨other, held, late⟩ := (ready slot member).1 output
    cases held.symm.trans found
    exact late
  · intro slot member role
    rcases role_cases valid member role with scratch | output
    · exact (ready slot member).2 scratch
    · obtain ⟨id, held, _⟩ := (ready slot member).1 output
      exact ⟨id, held⟩
  · intro leaf member
    rw [filled.kept leaf.slot fun slot listed same => valid.leaf_role member listed same]
    exact get?_putLeaves bound s.storage valid.leavesApart member

/-- Every slot that holds a node holds the value of the node. -/
def Holding (leaf : Node → Result Bytes) (holders : Plan.Holders) (s : State) : Prop :=
  ∀ place n, holders.lookup place = some n → ∀ id, s.storage.get? place = some id →
    Node.evaluate leaf n = .ok (s.store.get id).bytes

section
variable {family : Node → Prop} {before after : List Step} {step : Step} {profiled : Bool}

/-- The slot that a step writes: it serves the node, and no other slot holds its buffer. -/
theorem Equipped.output (equipped : Equipped p s) (valid : p.Valid) (member : step ∈ p.steps)
    {out : BufferId} (found : s.storage.get? step.outputSlot = some out) :
    out < s.store.size ∧ (s.store.get out).size = step.node.byteSize ∧
      (s.store.get out).readonly = false ∧ Bytes.room step.node.byteSize = .ok () ∧
      ∀ key, s.storage.get? key = some out → key = step.outputSlot := by
  obtain ⟨slot, here, size⟩ := valid.stepSizes step member
  obtain ⟨other, same, role⟩ := valid.stepRoles step member
  cases here.symm.trans same
  rcases equipped.keys _ _ found with present | ⟨third, listed, place, _⟩
  · obtain ⟨leaf, inside, place⟩ := List.mem_map.mp present
    obtain ⟨fourth, known, isLeaf⟩ := valid.leafRoles leaf inside
    rw [place, here] at known
    exact absurd (Except.ok.inj known ▸ isLeaf) role
  · have known := valid.slotAt_index listed
    rw [place, here] at known
    cases known
    obtain ⟨serves, alone⟩ := equipped.serving valid listed role (place ▸ found)
    refine ⟨serves.inside, ?_, serves.writable, ?_, fun key again => ?_⟩
    · exact Int.ofNat.inj (serves.size.trans size)
    · have room := serves.room
      rw [size] at room
      exact room
    · rw [← place]
      exact alone key again

/-- What a step reads are the values of the inputs of its node. -/
theorem Holding.inputs (holding : Holding leaf (Plan.written before p.leafHolders) s)
    (arena : Arena family) (within : p.Within family) (earlier : ∀ other ∈ before, other ∈ p.steps)
    (own : family step.node) (flowing : Plan.Flowing step (Plan.written before p.leafHolders))
    {ids : List BufferId} (held : Held s step.inputSlots ids) :
    Node.evaluateAll leaf step.node.inputs = .ok (contents s.store ids) := by
  have inputs : ∀ x ∈ step.node.inputs, family x := fun x input => arena.inputs own input
  have arity := flowing.arity
  have reads := flowing.reads
  rw [Node.evaluateAll_eq_ok]
  generalize step.node.inputs = nodes at inputs arity reads
  generalize step.inputSlots = places at arity reads held
  induction held generalizing nodes with
  | nil =>
    rw [List.length_nil, eq_comm, List.length_eq_zero_iff] at arity
    rw [arity]
    exact .nil
  | cons found _ ih =>
    cases nodes with
    | nil => simp at arity
    | cons x rest =>
      rw [List.zip_cons_cons, List.forall_mem_cons] at reads
      obtain ⟨holder, listed, same⟩ := reads.1
      have here := arena.identity (within.holder earlier listed) (inputs x (List.mem_cons_self ..)) same
      refine .cons (holding _ x (here ▸ listed) _ found) ?_
      exact ih rest (fun y member => inputs y (List.mem_cons_of_mem _ member))
        (by simpa using arity) reads.2

theorem Equipped.altered {some : BufferId → Prop} (equipped : Equipped p s) (alters : s.Alters some s') :
    Equipped p s' where
  toKept := (equipped.toKept.altered alters).kept
  outputs slot listed role id found := by
    rw [alters.storage] at found ⊢
    obtain ⟨serves, apart⟩ := equipped.outputs slot listed role id found
    exact ⟨serves.altered alters.store, apart⟩

/-- A step that leaves the value of its node in its slot. -/
theorem Holding.written (holding : Holding leaf (Plan.written before p.leafHolders) s) {out : BufferId} {bytes : Bytes}
    (output : s.storage.get? step.outputSlot = some out) (inside : out < s.store.size)
    (alone : ∀ key, s.storage.get? key = some out → key = step.outputSlot)
    (evaluated : Node.evaluate leaf step.node = .ok bytes) (storage : s'.storage = s.storage)
    (store : s'.store = s.store.overwrite out bytes) :
    Holding leaf (Plan.written (before ++ [step]) p.leafHolders) s' := by
  intro place n found id held
  rw [storage] at held
  rw [store]
  rw [Plan.written, List.map_append, List.reverse_append, List.append_assoc, List.map_singleton,
    List.reverse_singleton, List.singleton_append, List.lookup_cons] at found
  by_cases same : place = step.outputSlot
  · rw [same, output] at held
    rw [same, beq_self_eq_true] at found
    cases found
    cases held
    rw [Store.get_overwrite_self bytes inside]
    exact evaluated
  · rw [beq_eq_false_iff_ne.mpr same] at found
    have differ : id ≠ out := fun equal => same (alone place (equal ▸ held))
    rw [Store.get_overwrite_of_ne bytes differ]
    exact holding place n found id held

/-- One step: where it returns, its node has a value and its slot holds it; else a slot was empty or
the kernel failed. -/
theorem runStep_evaluates (arena : Arena family) (valid : p.Valid) (hosted : p.Hosted)
    (within : p.Within family) (split : p.steps = before ++ step :: after) (equipped : Equipped p s)
    (holding : Holding leaf (Plan.written before p.leafHolders) s) :
    Ensures (runStep profiled step) s
      (fun _ s' => s'.storage = s.storage ∧ Equipped p s' ∧
        Holding leaf (Plan.written (before ++ [step]) p.leafHolders) s' ∧
        ∃ v, Node.evaluate leaf step.node = .ok v)
      (fun _ => (∃ key ∈ step.outputSlot :: step.inputSlots, s.storage.get? key = none) ∨
        Node.Faulty leaf step.node) := by
  have member : step ∈ p.steps := split ▸ by simp
  obtain ⟨interior, kind, different, named, kernel⟩ := hosted.steps step member
  have flowing := valid.flow before step after split
  have value : ∀ ids, Held s step.inputSlots ids → ∀ out outcome, Ran step s ids out outcome →
      Node.evaluateAll leaf step.node.inputs = .ok (contents s.store ids) ∧
        (step.node.compute (contents s.store ids)).map some = outcome := by
    intro ids held out outcome ran
    refine ⟨holding.inputs arena within (fun other earlier => split ▸ by simp [earlier])
      (within.steps step member) flowing held, ?_⟩
    obtain ⟨_, size, writable, room, _⟩ := equipped.output valid member ran.output
    have run := ran.kernel
    rw [kernel, Kernel.run_host different size writable room] at run
    rw [Node.compute, named, find_host]
    exact run
  refine (runStep_spec profiled step).weaken ?_ ?_
  · rintro _ s' ⟨storage, ids, out, result, ran, store⟩
    obtain ⟨inputs, computed⟩ := value ids ran.inputs out _ ran
    obtain ⟨bytes, made, rfl⟩ := Result.map_eq_ok.mp computed
    obtain ⟨inside, size, writable, room, alone⟩ := equipped.output valid member ran.output
    have fresh : (Kernel.host kind).fresh step.node (contents s.store ids) = .ok bytes := by
      rw [Node.compute, named, find_host] at made
      exact made
    have sized := (Kernel.fresh_returns different fresh).2
    have evaluated : Node.evaluate leaf step.node = .ok bytes := by
      rw [Node.evaluate_interior interior, inputs]
      exact made
    have alters : s.Alters (· = out) s' := ⟨storage, store ▸ Store.alters_overwrite (sized.trans size.symm)⟩
    exact ⟨storage, equipped.altered alters, holding.written ran.output inside alone evaluated storage store,
      bytes, evaluated⟩
  · rintro s' ⟨_, _, missing | ⟨ids, out, e, ran⟩⟩
    · exact .inl missing
    · obtain ⟨inputs, failed⟩ := value ids ran.inputs out _ ran
      refine .inr ⟨interior, contents s.store ids, e, inputs, ?_⟩
      cases computed : step.node.compute (contents s.store ids) with
      | ok bytes => rw [computed] at failed; cases failed
      | error e' => rw [computed] at failed; cases failed; rfl

/-- All steps, one after the other. -/
theorem steps_evaluate (arena : Arena family) (valid : p.Valid) (hosted : p.Hosted)
    (within : p.Within family) (split : p.steps = before ++ after) (equipped : Equipped p s)
    (holding : Holding leaf (Plan.written before p.leafHolders) s) :
    Ensures (after.forM (runStep profiled)) s
      (fun _ s' => s'.storage = s.storage ∧ Equipped p s' ∧
        Holding leaf (Plan.written p.steps p.leafHolders) s' ∧
        ∀ step ∈ after, ∃ v, Node.evaluate leaf step.node = .ok v)
      (fun _ => ∃ step ∈ after, (∃ key ∈ step.outputSlot :: step.inputSlots,
        s.storage.get? key = none) ∨ Node.Faulty leaf step.node) := by
  induction after generalizing before s with
  | nil =>
    rw [List.append_nil] at split
    exact .pure ⟨rfl, equipped, split ▸ holding, by simp⟩
  | cons step rest ih =>
    rw [forM_cons]
    refine .bind ((runStep_evaluates arena valid hosted within split equipped holding).weaken ?_ ?_)
    · rintro _ s' ⟨storage, equipped, holding, first⟩
      refine (ih (by simpa using split) equipped holding).weaken ?_ ?_
      · rintro _ s'' ⟨same, equipped, holding, others⟩
        exact ⟨same.trans storage, equipped, holding, List.forall_mem_cons.mpr ⟨first, others⟩⟩
      · rintro _ ⟨other, member, cause⟩
        exact ⟨other, List.mem_cons_of_mem _ member, storage ▸ cause⟩
    · rintro _ cause
      exact ⟨step, List.mem_cons_self .., cause⟩

/-- A valid plan, a state between its executions, and bindings for one. -/
structure Setting (family : Node → Prop) (p : Plan) (s : State) (bindings : List (Value × Value)) :
    Prop where
  arena : Arena family
  within : p.Within family
  valid : p.Valid
  hosted : p.Hosted
  kept : Kept p s
  keys : Keyed p bindings
  bound : ∀ key id content, (key, .buffer id content) ∈ bindings → Visible p s id
  leaves : ∀ leaf ∈ p.leaves, ∀ id, leaf.node.buffer = some id → Visible p s id
  clear : ∀ leaf ∈ p.leaves, leaf.node.buffer = none → bindingOf leaf.node bindings = none →
    s.storage.get? leaf.slot = none

/-- The bindings are refused before anything is prepared. -/
def Refused (p : Plan) (bindings : List (Value × Value)) (s : State) : Prop :=
  (∃ e s', bindAll p bindings [] s = .error e s') ∨
    ∃ bound s' e, bindAll p bindings [] s = .ok bound s' ∧ checkBound bound p.leaves = .error e

/-- A slot gets a buffer: one of its own, or that of a leaf which has one. -/
def Supplied (p : Plan) (bindings : List (Value × Value)) (key : Int) : Prop :=
  (∃ slot ∈ p.slots, slot.index = key ∧ slot.role ≠ .leaf) ∨
    ∃ leaf ∈ p.leaves, leaf.slot = key ∧
      (bindingOf leaf.node bindings ≠ none ∨ leaf.node.buffer ≠ none)

/-- Why an execution of a valid plan fails. -/
inductive Failure (p : Plan) (bindings : List (Value × Value)) (s : State) : Prop
  | refused (cause : Refused p bindings s)
  | room (slot : Slot) (member : slot ∈ p.slots) (role : slot.role ≠ .leaf) (full : ¬Roomy slot)
  | empty (key : Int) (member : key ∈ p.places) (missing : ¬Supplied p bindings key)
  | kernel (step : Step) (member : step ∈ p.steps)
    (faulty : Node.Faulty (givenBytes s.store bindings) step.node)

/-- The buffer of a leaf holds the bytes that the bindings give it, and callers may know it. -/
private theorem leafBuffer_spec {bindings : List (Value × Value)} (setting : Setting family p s bindings)
    (extended : s.Extends s') (bounds : BoundTo s.store.size s'.store p bindings [] bound)
    {leaf : LeafSlot} (member : leaf ∈ p.leaves) {id : BufferId}
    (found : leafBuffer bound leaf.node = some id) :
    givenBytes s.store bindings leaf.node = .ok (s'.store.get id).bytes ∧ Visible p s' id := by
  have last := bounds leaf member
  have onward := setting.kept.extends extended
  unfold givenBytes
  cases given : bindingOf leaf.node bindings with
  | none =>
    simp only [given, List.lookup_nil] at last
    rw [leafBuffer, last, Option.none_or] at found
    rw [found]
    have known := setting.leaves leaf member id found
    exact ⟨by rw [extended.store.same id known.1], onward.visible id known⟩
  | some v =>
    simp only [given] at last
    obtain ⟨other, held, stands⟩ := last
    rw [leafBuffer, held, Option.some_or] at found
    cases found
    rcases stands.content with ⟨content, rfl⟩ | ⟨plain, late, bytes⟩
    · obtain ⟨m, _, listed⟩ := mem_of_bindingOf given
      have known := setting.bound (.node m) id content listed
      exact ⟨by rw [extended.store.same id known.1]; rfl, onward.visible id known⟩
    · refine ⟨?_, stands.inside, ?_⟩
      · cases v with
        | buffer id content => exact absurd rfl (plain id content)
        | _ => exact bytes
      · rintro ⟨slot, listed, role, held⟩
        exact setting.kept.fresh late ⟨slot, listed, role, extended.storage ▸ held⟩

/-- Before the first step every leaf is in its slot. -/
private theorem Prepared.holding {bindings : List (Value × Value)} (setting : Setting family p s bindings)
    {middle : State} (extended : s.Extends middle)
    (bounds : BoundTo s.store.size middle.store p bindings [] bound)
    (prepared : Prepared p bound middle s') :
    Holding (givenBytes s.store bindings) p.leafHolders s' := by
  intro place n found id held
  obtain ⟨leaf, member, rfl, rfl⟩ := Plan.mem_leafHolders found
  rw [prepared.leaves leaf member] at held
  rw [Node.evaluate_leaf (setting.hosted.leaves leaf member)]
  cases own : leafBuffer bound leaf.node with
  | some other =>
    rw [own, Option.some_or] at held
    cases held
    obtain ⟨bytes, visible⟩ := leafBuffer_spec setting extended bounds member own
    rw [bytes, prepared.store.same id visible.1]
  | none =>
    rw [own, Option.none_or, extended.storage] at held
    have last := bounds leaf member
    rw [leafBuffer, Option.or_eq_none_iff] at own
    cases given : bindingOf leaf.node bindings with
    | none =>
      rw [setting.clear leaf member own.2 given] at held
      cases held
    | some v =>
      simp only [given] at last
      obtain ⟨other, known, _⟩ := last
      rw [own.1] at known
      cases known

private theorem Prepared.supplied {bindings : List (Value × Value)} {middle : State}
    (bounds : BoundTo s.store.size middle.store p bindings [] bound)
    (prepared : Prepared p bound middle s') {key : Int} (empty : s'.storage.get? key = none) :
    ¬Supplied p bindings key := by
  rintro (⟨slot, member, rfl, role⟩ | ⟨leaf, member, rfl, given⟩)
  · obtain ⟨id, held⟩ := prepared.filled slot member role
    cases empty.symm.trans held
  · rw [prepared.leaves leaf member, Option.or_eq_none_iff, leafBuffer, Option.or_eq_none_iff] at empty
    have last := bounds leaf member
    rcases given with given | own
    · obtain ⟨v, given⟩ := Option.ne_none_iff_exists'.mp given
      simp only [given] at last
      obtain ⟨other, known, _⟩ := last
      cases empty.1.1.symm.trans known
    · exact own empty.1.2

private theorem results (arena : Arena family) (valid : p.Valid) (within : p.Within family)
    (holding : Holding leaf (Plan.written p.steps p.leafHolders) s) {ids : List BufferId}
    (collected : List.Forall₂ (fun (entry : Node × Int) id => Collected s s' entry.2 id)
      (p.outputs.zip p.outputSlots) ids) :
    List.Forall₂ (fun entry id => Node.evaluate leaf entry.1 = .ok (s'.store.get id).bytes)
      (p.outputs.zip p.outputSlots) ids := by
  have listed := (List.forall₂_and_left (p.outputs.zip p.outputSlots) ids).mpr
    ⟨fun entry member => member, collected⟩
  refine listed.imp ?_
  rintro ⟨n, place⟩ id ⟨member, collected⟩
  obtain ⟨holder, found, same⟩ := valid.outputs (n, place) member
  obtain ⟨source, held, bytes, _⟩ := collected.origin
  have here := arena.identity (within.holder (fun _ inside => inside) found)
    (within.outputs n (List.of_mem_zip member).1) same
  rw [bytes, ← holding place holder found source held, here]

/-- An execution of a valid plan returns the values of its outputs, or fails for one of the reasons
that there are. -/
theorem run_evaluates {bindings : List (Value × Value)} (setting : Setting family p s bindings)
    (profiled : Bool) :
    Ensures (run profiled p bindings none) s
      (fun ids s' => (∀ step ∈ p.steps, ∃ v, Node.evaluate (givenBytes s.store bindings) step.node = .ok v) ∧
        List.Forall₂ (fun entry id => Node.evaluate (givenBytes s.store bindings) entry.1 =
          .ok (s'.store.get id).bytes) (p.outputs.zip p.outputSlots) ids)
      (fun _ => Failure p bindings s) := by
  have within : ∀ pair ∈ bindings, pair.2.Within s.store := by
    rintro ⟨key, v⟩ member
    cases v with
    | buffer id content => exact (setting.bound key id content member).1
    | _ => trivial
  unfold run
  refine .bind (((bindAll_spec within (Nat.le_refl _)).ran).weaken ?_ ?_)
  · rintro bound s₁ ⟨⟨extended, _, agrees⟩, bindings⟩
    have bounds := agrees setting.keys
    refine .bind (ensures_of ?_ fun e failed => .refused (.inr ⟨bound, s₁, e, bindings, failed⟩))
    rintro _ _
    refine .bind (.get (.bind (.pure (.bind ((prepare_spec setting.valid (setting.kept.extends extended).kept
      fun leaf member id found => (leafBuffer_spec setting extended bounds member found).2).weaken ?_ ?_)))))
    · rintro _ s₂ prepared
      have holding := prepared.holding setting extended bounds
      have split : p.steps = [] ++ p.steps := (List.nil_append _).symm
      refine ensures_discarding (.bind ((steps_evaluate setting.arena setting.valid setting.hosted
        setting.within split prepared.equipped holding).weaken ?_ ?_))
      · rintro _ s₃ ⟨storage, equipped, holding, values⟩
        rw [zip_targets]
        refine .bind ((collect_spec equipped.within _ []).weaken ?_ ?_)
        · rintro ids s₄ ⟨_, collected⟩
          have outputs := results setting.arena setting.valid setting.within holding collected
          exact .bind (.modify (.pure ⟨values, outputs⟩))
        · rintro s₄ ⟨_, entry, member, empty⟩
          rw [storage] at empty
          exact .empty entry.2 (Plan.mem_places_of_output member) (prepared.supplied bounds empty)
      · rintro _ ⟨step, member, ⟨key, listed, empty⟩ | faulty⟩
        · exact .empty key (Plan.mem_places_of_step member listed) (prepared.supplied bounds empty)
        · exact .kernel step member faulty
    · rintro _ ⟨_, slot, member, role, full⟩
      exact .room slot member role full
  · rintro _ ⟨_, e, failed⟩
    exact .refused (.inl ⟨e, _, failed⟩)

/-- What an accepted plan returns are the values of its outputs, however it came about. -/
theorem run_of_validated (arena : Arena family) (within : p.Within family) (hosted : p.Hosted)
    (accepted : p.validate = .ok ()) (empty : s.storage = []) {bindings : List (Value × Value)}
    (keys : ∀ n v, (.node n, v) ∈ bindings → family n)
    (bound : ∀ key id content, (key, .buffer id content) ∈ bindings → id < s.store.size)
    (leaves : ∀ leaf ∈ p.leaves, ∀ id, leaf.node.buffer = some id → id < s.store.size)
    {ids : List BufferId} (ran : run profiled p bindings none s = .ok ids s') :
    ∀ (i : Nat) (id : BufferId), ids[i]? = some id → ∃ o, p.outputs[i]? = some o ∧
      Node.evaluate (givenBytes s.store bindings) o = .ok (s'.store.get id).bytes := by
  have keyed : Keyed p bindings := fun n v listed leaf member same =>
    arena.identity (keys n v listed) (within.leaves leaf member) same
  have setting : Setting family p s bindings :=
    ⟨arena, within, Plan.validate_eq_ok.mp accepted, hosted, kept_of_empty empty, keyed,
      fun key id content member => visible_of_empty empty (bound key id content member),
      fun leaf member id own => visible_of_empty empty (leaves leaf member id own),
      fun leaf _ _ _ => by rw [empty]; rfl⟩
  obtain ⟨_, values⟩ := (run_evaluates setting profiled).of_ok ran
  intro i id found
  obtain ⟨inside, here⟩ := List.getElem?_eq_some_iff.mp found
  have length := values.length_eq
  have value := values.get (length ▸ inside) inside
  simp only [List.get_eq_getElem, List.getElem_zip, here] at value
  refine ⟨_, List.getElem?_eq_getElem ?_, value⟩
  rw [List.length_zip] at length
  omega

end
end Execution

namespace Sample
open Execution

/-- A plan for the sum and the variable, whose slot is counted from the end. -/
def sumPlan : Plan where
  outputs := [total, x]
  steps := [⟨total, .host, .host (.binary .add), [-3, 1], 2⟩]
  leaves := [⟨x, -3⟩, ⟨y, 1⟩]
  slots := [⟨0, 8, .leaf⟩, ⟨1, 8, .leaf⟩, ⟨2, 8, .output⟩]
  outputSlots := [2, -3]
  statistics := ⟨[], 0, 0, 0, 0, 0, 0⟩

def oneTwo : Buffer := .ofBytes (.ofWords [0x3f800000, 0x40000000])

def sumState : State := ⟨⟨#[.ofBytes (.zeros 8), oneTwo]⟩, [], [], .empty⟩

theorem sumPlan_hosted : sumPlan.Hosted where
  steps step member := by
    rw [List.mem_singleton.mp member]
    exact ⟨rfl, .binary .add, by decide, rfl, rfl⟩
  leaves leaf member := by
    rcases List.mem_pair.mp member with rfl | rfl
    · rfl
    · rfl

theorem sumPlan_within : sumPlan.Within (· ∈ workspace.graph.nodes) where
  steps step member := by
    rw [List.mem_singleton.mp member]
    exact mem_nodes.mpr (.inr (.inr (.inl rfl)))
  leaves leaf member := by
    rcases List.mem_pair.mp member with rfl | rfl
    · exact mem_nodes.mpr (.inl rfl)
    · exact mem_nodes.mpr (.inr (.inl rfl))
  outputs n member := by
    rcases List.mem_pair.mp member with rfl | rfl
    · exact mem_nodes.mpr (.inr (.inr (.inl rfl)))
    · exact mem_nodes.mpr (.inl rfl)

theorem run_of_validated_plan : ∃ ids s', run false sumPlan [(.node y, .buffer 1 oneTwo)] none sumState = .ok ids s' ∧
    ∀ (i : Nat) (id : BufferId), ids[i]? = some id → ∃ o, sumPlan.outputs[i]? = some o ∧
      Node.evaluate (givenBytes sumState.store [(.node y, .buffer 1 oneTwo)]) o =
        .ok (s'.store.get id).bytes := by
  have keys : ∀ n v, (Value.node n, v) ∈ [(Value.node y, Value.buffer 1 oneTwo)] →
      n ∈ workspace.graph.nodes := by
    intro n v member
    cases List.mem_singleton.mp member
    exact mem_nodes.mpr (.inr (.inl rfl))
  have bound : ∀ key id content, (key, Value.buffer id content) ∈
      [(Value.node y, Value.buffer 1 oneTwo)] → id < sumState.store.size := by
    intro key id content member
    cases List.mem_singleton.mp member
    decide
  have leaves : ∀ leaf ∈ sumPlan.leaves, ∀ id, leaf.node.buffer = some id → id < sumState.store.size := by
    intro leaf member id own
    rcases List.mem_pair.mp member with rfl | rfl
    · cases own
      decide
    · cases own
  have returned : ∃ ids s', run false sumPlan [(.node y, .buffer 1 oneTwo)] none sumState = .ok ids s' :=
    ⟨_, _, rfl⟩
  obtain ⟨ids, s', ran⟩ := returned
  exact ⟨ids, s', ran, run_of_validated built.ordered.arena sumPlan_within sumPlan_hosted rfl rfl keys bound
    leaves ran⟩

end Sample
end TensorDag
