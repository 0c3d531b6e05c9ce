import Mathlib.Logic.Relation
import TensorDag.Plan.Editing
import TensorDag.Proofs.Reuse

/-!
Plans that were edited and validated again. Validation follows every value through the slots, but it
finds slots by places counted from either end, while an execution finds them by their indices, and it
passes over outputs without a place and over slots that nothing uses. `Plan.Seated` says what remains.
-/
namespace TensorDag

namespace Plan
open Result
variable {p q r : Plan} {w : Workspace}

/-- Leaves keep their nodes. -/
def Edit.KeepsLeaves : Edit → Prop
  | .leaves (.replace _ update) => ∀ leaf, (update leaf).node = leaf.node
  | _ => True

/-- A plan that came about by edits, one after the other. -/
abbrev Edited : Plan → Plan → Prop :=
  Relation.ReflTransGen fun p q => ∃ e : Edit, e.KeepsLeaves ∧ p.edit e = .ok q

/-- Records behind a change are records from before, or a replacement of one. -/
theorem Change.mem_apply {α : Type} {change : Change α} {records changed : List α}
    (made : change.apply records = .ok changed) {a : α} (member : a ∈ changed) :
    a ∈ records ∨ ∃ place update, change = .replace place update ∧ ∃ old ∈ records, a = update old := by
  cases change with
  | replace place update =>
    obtain ⟨i, _, same⟩ := bind_eq_ok.mp made
    cases pure_eq_ok.mp same
    obtain ⟨j, inside, rfl⟩ := List.mem_iff_getElem.mp member
    rw [List.getElem_modify]
    split
    · exact .inr ⟨place, update, rfl, _, List.getElem_mem .., rfl⟩
    · exact .inl (List.getElem_mem ..)
  | remove place =>
    obtain ⟨i, _, same⟩ := bind_eq_ok.mp made
    cases pure_eq_ok.mp same
    exact .inl (List.mem_of_mem_eraseIdx member)
  | exchange first second =>
    obtain ⟨i, _, made⟩ := bind_eq_ok.mp made
    obtain ⟨j, _, same⟩ := bind_eq_ok.mp made
    cases pure_eq_ok.mp same
    unfold Plan.exchange at member
    split at member
    · rename_i a' b' here there
      rcases List.mem_or_eq_of_mem_set member with inside | rfl
      · rcases List.mem_or_eq_of_mem_set inside with inside | rfl
        · exact .inl inside
        · exact .inl (List.mem_of_getElem? there)
      · exact .inl (List.mem_of_getElem? here)
    · exact .inl member

/-- Edits leave the outputs alone, and leaves are leaves of the plan that was edited. -/
theorem Edited.drawn (edited : Edited p q) :
    q.outputs = p.outputs ∧ ∀ leaf ∈ q.leaves, ∃ old ∈ p.leaves, old.node = leaf.node := by
  induction edited with
  | refl => exact ⟨rfl, fun leaf member => ⟨leaf, member, rfl⟩⟩
  | @tail q r _ edit ih =>
    obtain ⟨e, keeps, made⟩ := edit
    obtain ⟨outputs, leaves⟩ := ih
    cases e with
    | steps change =>
      obtain ⟨_, _, same⟩ := bind_eq_ok.mp made
      cases pure_eq_ok.mp same
      exact ⟨outputs, leaves⟩
    | slots change =>
      obtain ⟨_, _, same⟩ := bind_eq_ok.mp made
      cases pure_eq_ok.mp same
      exact ⟨outputs, leaves⟩
    | outputSlots places =>
      cases made
      exact ⟨outputs, leaves⟩
    | leaves change =>
      obtain ⟨changed, applied, same⟩ := bind_eq_ok.mp made
      cases pure_eq_ok.mp same
      refine ⟨outputs, fun leaf member => ?_⟩
      rcases Change.mem_apply applied member with old | ⟨place, update, rfl, old, listed, rfl⟩
      · exact leaves leaf old
      · rw [keeps old]
        exact leaves old listed

/-- What validation passes over: steps write to slots by their indices, every output has a place, and
there is room for the slots. -/
structure Seated [Memory] (p : Plan) : Prop where
  written : ∀ step ∈ p.steps, 0 ≤ step.outputSlot
  placed : p.outputs.length ≤ p.outputSlots.length
  roomy : ∀ slot ∈ p.slots, slot.role ≠ .leaf → Execution.Roomy slot

theorem origin {before : List Step} (earlier : ∀ step ∈ before, step ∈ p.steps) {place : Int} {n : Node}
    (found : (written before p.leafHolders).lookup place = some n) :
    (∃ step ∈ p.steps, step.outputSlot = place) ∨ ∃ leaf ∈ p.leaves, leaf.slot = place := by
  rcases mem_written found with ⟨step, member, same, _⟩ | listed
  · exact .inl ⟨step, earlier step member, same⟩
  · obtain ⟨leaf, member, same, _⟩ := mem_leafHolders listed
    exact .inr ⟨leaf, member, same⟩

theorem Valid.step_origin (valid : p.Valid) {step : Step} (member : step ∈ p.steps) {key : Int}
    (listed : key ∈ step.outputSlot :: step.inputSlots) :
    (∃ step ∈ p.steps, step.outputSlot = key) ∨ ∃ leaf ∈ p.leaves, leaf.slot = key := by
  rcases List.mem_cons.mp listed with rfl | read
  · exact .inl ⟨step, member, rfl⟩
  obtain ⟨before, after, split⟩ := List.append_of_mem member
  obtain ⟨_, _, holder, found, _⟩ := (valid.flow before step after split).input read
  exact origin (fun other earlier => split ▸ by simp [earlier]) found

theorem Valid.output_origin (valid : p.Valid) {entry : Node × Int}
    (member : entry ∈ p.outputs.zip p.outputSlots) :
    (∃ step ∈ p.steps, step.outputSlot = entry.2) ∨ ∃ leaf ∈ p.leaves, leaf.slot = entry.2 := by
  obtain ⟨holder, found, _⟩ := valid.outputs entry member
  exact origin (fun _ inside => inside) found

theorem Valid.written_slot (valid : p.Valid) {step : Step} (member : step ∈ p.steps)
    (front : 0 ≤ step.outputSlot) : ∃ slot ∈ p.slots, slot.index = step.outputSlot ∧ slot.role ≠ .leaf := by
  obtain ⟨slot, found, role⟩ := valid.stepRoles step member
  have listed := mem_of_slotAt found
  refine ⟨slot, listed, ?_, role⟩
  obtain ⟨i, place, here⟩ := Option.bind_eq_some_iff.mp (slotAt_eq_ok.mp found)
  rw [(valid.table i slot here).1]
  unfold place? at place
  grind

end Plan

namespace Execution
open Program Plan
variable [Memory] {p q : Plan} {w : Workspace} {s s' : State} {bound : Bindings} {bindings : List (Value × Value)}
  {step : Step} {profiled : Bool}

/-- Bindings that suit a plan: of leaves, to values of their sizes, and of all placeholders. -/
structure Suits (p : Plan) (store : Store) (bindings : List (Value × Value)) : Prop where
  keys : ∀ pair ∈ bindings, ∃ n : Node, pair.1 = .node n ∧ n.isLeaf
  same : Keyed p bindings
  within : ∀ pair ∈ bindings, pair.2.Within store
  sizes : ∀ n v, (.node n, v) ∈ bindings →
    ∃ bytes, boundBytes store n v = .ok bytes ∧ bytes.size = n.byteSize
  placeholders : ∀ n ∈ p.placeholders, bindingOf n bindings ≠ none

omit [Memory] in
theorem Suits.given (suits : Suits p s.store bindings) (bounds : BoundTo s.store.size s'.store p bindings [] bound)
    {leaf : LeafSlot} (member : leaf ∈ p.leaves) (kind : leaf.node.kind = "placeholder") :
    ∃ id, bound.lookup leaf.node.id = some id := by
  have listed : leaf.node ∈ p.placeholders :=
    List.mem_filter.mpr ⟨List.mem_map_of_mem member, by simp [kind]⟩
  obtain ⟨v, given⟩ := Option.ne_none_iff_exists'.mp (suits.placeholders _ listed)
  have last := bounds leaf member
  simp only [given] at last
  obtain ⟨id, found, _⟩ := last
  exact ⟨id, found⟩

theorem Prepared.filled_named (prepared : Prepared p bound s s') (valid : p.Valid)
    (written : ∀ step ∈ p.steps, 0 ≤ step.outputSlot)
    (given : ∀ leaf ∈ p.leaves, ∃ id, leafBuffer bound leaf.node = some id) {key : Int}
    (origin : (∃ step ∈ p.steps, step.outputSlot = key) ∨ ∃ leaf ∈ p.leaves, leaf.slot = key) :
    ∃ id, s'.storage.get? key = some id := by
  rcases origin with ⟨step, member, rfl⟩ | ⟨leaf, member, rfl⟩
  · obtain ⟨slot, listed, same, role⟩ := valid.written_slot member (written step member)
    exact same ▸ prepared.filled slot listed role
  · obtain ⟨id, own⟩ := given leaf member
    exact ⟨id, by rw [prepared.leaves leaf member, own, Option.some_or]⟩

/-- The leaves of a plan have buffers or get them from their bindings. -/
def Furnishes (store : Store) (p : Plan) : Prop :=
  ∀ leaf ∈ p.leaves, leaf.node.kind = "placeholder" ∨ ∃ id < store.size, leaf.node.buffer = some id

/-- An execution of an accepted plan with suitable bindings and an empty storage begins by binding its
leaves, and then prepares the slots. -/
theorem Suits.run_eq (suits : Suits p s.store bindings) (valid : p.Valid) (empty : s.storage = [])
    (furnishes : Furnishes s.store p) (profiled : Bool) :
    ∃ bound s₁, s.Extends s₁ ∧ BoundTo s.store.size s₁.store p bindings [] bound ∧
      (∀ leaf ∈ p.leaves, ∃ id, leafBuffer bound leaf.node = some id) ∧
      Ensures (prepare p bound none) s₁ (fun _ s' => Prepared p bound s₁ s')
        (fun s' => s₁.store.Extends s'.store ∧ ∃ slot ∈ p.slots, slot.role ≠ .leaf ∧ ¬Roomy slot) ∧
      run profiled p bindings none s =
        (prepare p bound none >>= fun _ => discarding p (runSteps profiled p none)) s₁ := by
  obtain ⟨bound, s₁, returned⟩ : ∃ bound s₁, bindAll p bindings [] s = .ok bound s₁ := by
    cases ran : bindAll p bindings [] s with
    | ok bound s₁ => exact ⟨bound, s₁, rfl⟩
    | error e s₁ => exact ((bindAll_returns suits.keys suits.within suits.sizes).of_error ran).elim
  obtain ⟨extended, sources, agrees⟩ := (bindAll_spec suits.within (Nat.le_refl _)).of_ok returned
  have bounds := agrees suits.same
  have checked := checkBound_returns fun leaf member => suits.given bounds member
  have start : Kept p s := kept_of_empty empty
  have first : Onward p s s₁ := start.extends extended
  have given : ∀ leaf ∈ p.leaves, ∃ id, leafBuffer bound leaf.node = some id ∧ Visible p s₁ id := by
    intro leaf member
    unfold leafBuffer
    cases found : bound.lookup leaf.node.id with
    | some id =>
      exact ⟨id, rfl, start.bound extended sources
        (fun key id content listed => visible_of_empty empty (suits.within _ listed)) found⟩
    | none =>
      rcases furnishes leaf member with kind | ⟨id, old, own⟩
      · obtain ⟨id, given⟩ := suits.given bounds member kind
        cases found.symm.trans given
      · exact ⟨id, own, first.visible id (visible_of_empty empty old)⟩
  refine ⟨bound, s₁, extended, bounds, fun leaf member => (given leaf member).imp fun id known => known.1,
    prepare_spec valid first.kept fun leaf member id found => ?_, ?_⟩
  · obtain ⟨other, own, visible⟩ := given leaf member
    cases found.symm.trans own
    exact visible
  · simp only [run, bind, EStateM.bind, returned, checked]
    rfl

/-- A state amid the steps of an execution: behind the bindings of leaves and the preparation of slots, buffers
kept their sizes and flags. -/
structure Amid (p : Plan) (bindings : List (Value × Value)) (bound : Bindings) (s s₁ s₂ middle : State) : Prop where
  extended : s.Extends s₁
  bounds : BoundTo s.store.size s₁.store p bindings [] bound
  prepared : Prepared p bound s₁ s₂
  altered : s₂.Alters (Targeted p.steps s₂) middle

/-- Where all slots that are named are filled, steps and outputs fail only with the error of a kernel. -/
theorem runSteps_eq_error (kept : Kept p s)
    (steps : ∀ step ∈ p.steps, ∀ key ∈ step.outputSlot :: step.inputSlots, ∃ id, s.storage.get? key = some id)
    (outputs : ∀ entry ∈ p.outputs.zip p.outputSlots, ∃ id, s.storage.get? entry.2 = some id) {e : Error}
    (failed : runSteps profiled p none s = .error e s') :
    ∃ step ∈ p.steps, ∃ middle ids out, s.Alters (Targeted p.steps s) middle ∧ Ran step middle ids out (.error e) := by
  unfold runSteps at failed
  rcases bind_eq_error.mp failed with failed | ⟨_, s₁, ran, failed⟩
  · obtain ⟨before, step, after, middle, split, ran, failed⟩ := forM_eq_error failed
    have member : step ∈ p.steps := split ▸ by simp
    have altered : s.Alters (Targeted p.steps s) middle :=
      ((steps_confined before).of_ok ran).mono fun id ⟨other, earlier, found⟩ =>
        ⟨other, split ▸ by simp [earlier], found⟩
    rcases runStep_eq_error failed with ⟨key, listed, missing⟩ | ⟨ids, out, ran⟩
    · obtain ⟨id, held⟩ := steps step member key listed
      rw [altered.storage, held] at missing
      cases missing
    · exact ⟨step, member, middle, ids, out, altered, ran⟩
  · have storage := ((steps_storage p.steps).of_ok ran).1
    have later := ((steps_onward kept profiled p.steps).of_ok ran).kept
    rw [zip_targets] at failed
    rcases bind_eq_error.mp failed with failed | ⟨ids, s₂, _, failed⟩
    · obtain ⟨_, entry, member, missing⟩ := (collect_spec later.within _ []).of_error failed
      obtain ⟨id, held⟩ := outputs entry member
      rw [storage, held] at missing
      cases missing
    · cases failed

theorem runSteps_eq_ok (kept : Kept p s) {ids : List BufferId}
    (returned : runSteps profiled p none s = .ok ids s') :
    ids.length = (p.outputs.zip p.outputSlots).length ∧
      ∀ step ∈ p.steps, ∃ id, s.storage.get? step.outputSlot = some id := by
  unfold runSteps at returned
  obtain ⟨_, s₁, ran, returned⟩ := bind_eq_ok.mp returned
  obtain ⟨results, s₂, collected, returned⟩ := bind_eq_ok.mp returned
  cases returned
  have later := ((steps_onward kept profiled p.steps).of_ok ran).kept
  rw [zip_targets] at collected
  exact ⟨((collect_spec later.within _ []).of_ok collected).2.length_eq.symm,
    ((steps_storage p.steps).of_ok ran).2⟩

/-- An accepted plan that is seated returns one buffer for each output, or fails with the error of a
kernel. -/
theorem run_of_seated (valid : p.Valid) (seated : p.Seated) (empty : s.storage = [])
    (furnishes : Furnishes s.store p) (suits : Suits p s.store bindings) (profiled : Bool) :
    (∃ ids s', run profiled p bindings none s = .ok ids s' ∧ ids.length = p.outputs.length) ∨
      ∃ e s', run profiled p bindings none s = .error e s' ∧ ∃ step ∈ p.steps, ∃ bound s₁ s₂ middle ids out,
        Amid p bindings bound s s₁ s₂ middle ∧ Ran step middle ids out (.error e) := by
  obtain ⟨bound, s₁, extended, bounds, given, spec, same⟩ := suits.run_eq valid empty furnishes profiled
  rw [same]
  cases outcome : (prepare p bound none >>= fun _ => discarding p (runSteps profiled p none)) s₁ with
  | ok ids s' =>
    obtain ⟨_, s₂, ready, returned⟩ := bind_eq_ok.mp outcome
    obtain ⟨s₃, returned, _⟩ := discarding_eq_ok returned
    have prepared := spec.of_ok ready
    have length := (runSteps_eq_ok prepared.equipped.toKept returned).1
    rw [List.length_zip, Nat.min_eq_left seated.placed] at length
    exact .inl ⟨ids, s', rfl, length⟩
  | error e s' =>
    refine .inr ⟨e, s', rfl, ?_⟩
    rcases bind_eq_error.mp outcome with full | ⟨_, s₂, ready, failed⟩
    · obtain ⟨_, slot, member, role, full⟩ := spec.of_error full
      exact absurd (seated.roomy slot member role) full
    · obtain ⟨s₃, failed⟩ := discarding_eq_error failed
      have prepared := spec.of_ok ready
      have filled : ∀ {key}, ((∃ step ∈ p.steps, step.outputSlot = key) ∨
          ∃ leaf ∈ p.leaves, leaf.slot = key) → ∃ id, s₂.storage.get? key = some id :=
        prepared.filled_named valid seated.written given
      obtain ⟨step, member, middle, ids, out, altered, ran⟩ := runSteps_eq_error prepared.equipped.toKept
        (fun step member key listed => filled (valid.step_origin member listed))
        (fun entry member => filled (valid.output_origin member)) failed
      exact ⟨step, member, bound, s₁, s₂, middle, ids, out, ⟨extended, bounds, prepared, altered⟩, ran⟩

/-- An accepted plan that returns one buffer for each output is seated. -/
theorem seated_of_run (valid : p.Valid) (empty : s.storage = [])
    (furnishes : Furnishes s.store p) (suits : Suits p s.store bindings) {ids : List BufferId}
    (returned : run profiled p bindings none s = .ok ids s') (length : ids.length = p.outputs.length) :
    p.Seated := by
  obtain ⟨bound, s₁, _, _, given, spec, same⟩ := suits.run_eq valid empty furnishes profiled
  rw [same] at returned
  obtain ⟨_, s₂, ready, returned⟩ := bind_eq_ok.mp returned
  obtain ⟨s₃, returned, _⟩ := discarding_eq_ok returned
  have prepared := spec.of_ok ready
  obtain ⟨collected, held⟩ := runSteps_eq_ok prepared.equipped.toKept returned
  constructor
  case written =>
    intro step member
    obtain ⟨id, found⟩ := held step member
    obtain ⟨slot, listed, same, _⟩ := prepared.equipped.written_slot valid member found
    obtain ⟨i, here⟩ := List.mem_iff_getElem?.mp listed
    rw [← same, (valid.table i slot here).1]
    exact Int.natCast_nonneg i
  case placed =>
    rw [collected, List.length_zip] at length
    omega
  case roomy =>
    intro slot member role
    obtain ⟨id, found⟩ := prepared.filled slot member role
    obtain ⟨serves, _⟩ := prepared.equipped.serving valid member role found
    exact ⟨serves.size ▸ Int.natCast_nonneg _, serves.room⟩

/-- Leaves of a plan that was compiled from a graph, and of its edits, are those of the graph. -/
theorem furnishes_of_edited (built : w.Built ShapeRules.Proper) {settings : Settings} {kernels : Kernels}
    {device v : Value} {overrides : List (Value × Value)}
    (compiled : compile settings kernels device overrides v = .ok p)
    (own : ∀ o ∈ p.outputs, o ∈ w.graph.nodes) (edited : Edited p q) (grown : w.store.size ≤ s.store.size) :
    Furnishes s.store q := by
  obtain ⟨outputs, standard, devices, made⟩ := compile_eq_ok compiled
  have laid := (ofOutputs_eq_ok made).1
  rw [laid.requested] at own
  intro leaf member
  obtain ⟨old, listed, same⟩ := edited.drawn.2 leaf member
  obtain ⟨ordered, isLeaf, _⟩ := laid.mem_leaves.mp listed
  have arena := built.ordered.arena
  have furnished := built.furnished.2 old.node
    (arena.needed own ((Node.mem_order_iff arena own).mp ordered))
  rw [← same]
  exact (furnished.given isLeaf).imp_right fun ⟨id, buffer⟩ =>
    ⟨id, Nat.lt_of_lt_of_le (furnished.inside id buffer) grown, buffer⟩

/-- A plan that was compiled, edited and accepted returns one buffer for each output that it was
compiled for, or fails with the error of a kernel, if it is seated, and returns fewer or fails if not. -/
theorem run_of_edited (built : w.Built ShapeRules.Proper) {settings : Settings} {kernels : Kernels}
    {device v : Value} {overrides : List (Value × Value)}
    (compiled : compile settings kernels device overrides v = .ok p)
    (own : ∀ o ∈ p.outputs, o ∈ w.graph.nodes) (edited : Edited p q) (accepted : q.validate = .ok ())
    (empty : s.storage = []) (grown : w.store.size ≤ s.store.size) (suits : Suits q s.store bindings)
    (profiled : Bool) :
    (q.Seated → (∃ ids s', run profiled q bindings none s = .ok ids s' ∧ ids.length = p.outputs.length) ∨
      ∃ e s', run profiled q bindings none s = .error e s' ∧
        ∃ step ∈ q.steps, ∃ middle ids out, Ran step middle ids out (.error e)) ∧
    ((∃ ids s', run profiled q bindings none s = .ok ids s' ∧ ids.length = p.outputs.length) → q.Seated) := by
  have furnishes : Furnishes s.store q := furnishes_of_edited built compiled own edited grown
  have valid := validate_eq_ok.mp accepted
  rw [← edited.drawn.1]
  refine ⟨fun seated => ?_,
    fun ⟨ids, s', returned, length⟩ => seated_of_run valid empty furnishes suits returned length⟩
  refine (run_of_seated valid seated empty furnishes suits profiled).imp_right ?_
  rintro ⟨e, s', failed, step, member, _, _, _, middle, ids, out, _, ran⟩
  exact ⟨e, s', failed, step, member, middle, ids, out, ran⟩

end Execution

/-! Edits of the plan of the square and the variable. -/
namespace Sample
open Execution Plan

/-- The variable is in a slot that is counted from the end. -/
def fromEndPlan : Plan :=
  { squarePlan with
    steps := [⟨total, .host, .host (.binary .add), [-4, 1], 2⟩, ⟨square, .host, .host (.binary .mul), [2, 2], 3⟩]
    leaves := [⟨x, -4⟩, ⟨y, 1⟩]
    outputSlots := [3, -4] }

theorem edited_fromEnd : Edited squarePlan fromEndPlan := by
  have leaf : (Edit.leaves (.replace 0 fun leaf => { leaf with slot := -4 })).KeepsLeaves := fun _ => rfl
  exact ((Relation.ReflTransGen.refl.tail ⟨_, leaf, rfl⟩).tail
    ⟨.steps (.replace 0 fun step => { step with inputSlots := [-4, 1] }), trivial, rfl⟩).tail
    ⟨.outputSlots [3, -4], trivial, rfl⟩

/-- The square is written to a slot that is counted from the end. -/
def wrappedPlan : Plan :=
  { squarePlan with
    steps := [⟨total, .host, .host (.binary .add), [0, 1], 2⟩, ⟨square, .host, .host (.binary .mul), [2, 2], -1⟩]
    outputSlots := [-1, 0] }

theorem edited_wrapped : Edited squarePlan wrappedPlan :=
  (Relation.ReflTransGen.refl.tail
    ⟨.steps (.replace 1 fun step => { step with outputSlot := -1 }), trivial, rfl⟩).tail
    ⟨.outputSlots [-1, 0], trivial, rfl⟩

theorem suits_square {p : Plan} (leaves : p.leaves.map LeafSlot.node = [x, y]) :
    Suits p sumState.store [(.node y, .buffer 1 oneTwo)] where
  keys pair member := ⟨y, by rw [List.mem_singleton.mp member], rfl⟩
  same n v listed leaf member same := by
    cases List.mem_singleton.mp listed
    have inside : leaf.node ∈ [x, y] := leaves ▸ List.mem_map_of_mem member
    rcases List.mem_pair.mp inside with here | here
    · rw [here] at same
      cases same
    · exact here.symm
  within pair member := by
    rw [List.mem_singleton.mp member]
    exact Nat.one_lt_two
  sizes n v member := by
    cases List.mem_singleton.mp member
    exact ⟨_, rfl, rfl⟩
  placeholders n member := by
    rw [placeholders, leaves] at member
    rw [List.mem_singleton.mp (show n ∈ [y] from member)]
    simp [bindingOf]

theorem run_of_edited_square : fromEndPlan.Seated ∧ ∃ ids s',
    run false fromEndPlan [(.node y, .buffer 1 oneTwo)] none sumState = .ok ids s' ∧ ids.length = 2 := by
  have returned : ∃ ids s', run false fromEndPlan [(.node y, .buffer 1 oneTwo)] none sumState = .ok ids s' ∧
      ids.length = 2 := ⟨_, _, rfl, rfl⟩
  exact ⟨(run_of_edited built_proper compile_square own_square edited_fromEnd rfl rfl (by decide) (suits_square rfl)
    false).2 returned, returned⟩

/-- An accepted plan that fails for an empty slot, and one that returns too little. -/
theorem wrapped_square : compile .standard .standard .null [] (.list [.node square, .node x]) = .ok squarePlan ∧
    Edited squarePlan wrappedPlan ∧ wrappedPlan.validate = .ok () ∧
    Suits wrappedPlan sumState.store [(.node y, .buffer 1 oneTwo)] ∧ sumState.storage = [] ∧
    ∃ s', run false wrappedPlan [(.node y, .buffer 1 oneTwo)] none sumState = .error (.fault .emptySlot) s' :=
  ⟨compile_square, edited_wrapped, rfl, suits_square rfl, rfl, _, rfl⟩

end Sample
end TensorDag
