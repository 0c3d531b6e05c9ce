import TensorDag.Proofs.Ensemble
import TensorDag.Proofs.SideBySide

/-!
Buffers that are supplied for the outputs of a plan. They may be those of leaves; what a leaf is read for
is still there if no step and no copy wrote to it before.
-/
namespace TensorDag
namespace Execution
open Program Plan
variable {p : Plan} {s s' t : State} {step : Step} {profiled : Bool}

/-- The buffer of callers that a leaf is read from: the one bound to it, else its own. -/
def sourceOf (bindings : List (Value × Value)) (n : Node) : Option BufferId :=
  match bindingOf n bindings with
  | some (.buffer id _) => some id
  | some _ => none
  | none => n.buffer

/-- No leaf is read from a supplied buffer after that was written: with an output that a step computes,
or with a copy of one. -/
structure Undisturbed (p : Plan) (bindings : List (Value × Value)) (ids : List BufferId) : Prop where
  steps : ∀ (i : Nat) (o : Node) (id : BufferId), p.outputs[i]? = some o → ids[i]? = some id → o.isLeaf = false →
    o.isIn (p.outputs.take i) = false → ∀ leaf ∈ p.leaves, sourceOf bindings leaf.node = some id →
      leaf.node.isIn p.outputs = false ∧ ∀ before step after, p.steps = before ++ step :: after →
        step.node.same o → ∀ later ∈ after, leaf.node.isIn later.node.inputs = false
  copies : ∀ (i : Nat) (o : Node) (id : BufferId), p.outputs[i]? = some o → ids[i]? = some id →
    o.isLeaf ∨ o.isIn (p.outputs.take i) → ¬(o.isLeaf ∧ sourceOf bindings o = some id) →
      ∀ leaf ∈ p.leaves, sourceOf bindings leaf.node = some id → leaf.node.isIn (p.outputs.drop (i + 1)) = false

/-- Buffers that callers supply for the outputs: of their sizes, writable, and different ones. -/
structure Receiving (p : Plan) (s : State) (ids : List BufferId) : Prop where
  visible : ∀ id ∈ ids, Visible p s id
  sizes : List.Forall₂ (fun o id => (s.store.get id).size = o.byteSize) p.outputs ids
  writable : ∀ id ∈ ids, (s.store.get id).readonly = false
  apart : ids.Nodup

/-- Outputs with their slots and supplied buffers. -/
abbrev destinations (p : Plan) (ids : List BufferId) : List ((Node × Int) × BufferId) :=
  (p.outputs.zip p.outputSlots).zip ids

theorem get?_supplied (p : Plan) (ids : List BufferId) (storage : Storage) (key : Int) :
    (claims p (some ids) storage).get? key = (claimant (destinations p ids) key).or (storage.get? key) :=
  get?_claims p (some ids) storage key

theorem getElem?_destinations {ids : List BufferId} {i : Nat} {entry : (Node × Int) × BufferId}
    (found : (destinations p ids)[i]? = some entry) : p.outputs[i]? = some entry.1.1 ∧ ids[i]? = some entry.2 ∧
      entry.1 ∈ p.outputs.zip p.outputSlots := by
  obtain ⟨first, second⟩ := List.getElem?_zip_eq_some.mp found
  exact ⟨(List.getElem?_zip_eq_some.mp first).1, second, List.mem_of_getElem? first⟩

theorem destination_eq {ids : List BufferId} (apart : ids.Nodup) {entry other : (Node × Int) × BufferId}
    (first : entry ∈ destinations p ids) (second : other ∈ destinations p ids) (same : entry.2 = other.2) :
    entry = other := by
  obtain ⟨i, here⟩ := List.mem_iff_getElem?.mp first
  obtain ⟨j, there⟩ := List.mem_iff_getElem?.mp second
  obtain ⟨_, given, _⟩ := getElem?_destinations here
  obtain ⟨_, given', _⟩ := getElem?_destinations there
  have inside := (List.getElem?_eq_some_iff.mp given).1
  have place : i = j := (List.getElem?_inj inside apart).mp (by rw [given, given', same])
  exact Option.some.inj (here.symm.trans (place ▸ there))

theorem isIn_of_read (valid : p.Valid) {before after : List Step} (split : p.steps = before ++ step :: after)
    {leaf : LeafSlot} (member : leaf ∈ p.leaves) (read : leaf.slot ∈ step.inputSlots) :
    leaf.node.isIn step.node.inputs = true := by
  obtain ⟨n, input, holder, listed, same⟩ := (valid.flow before step after split).input read
  refine Node.isIn_iff.mpr ⟨n, input, ?_⟩
  rcases mem_written listed with ⟨writer, earlier, slot, _⟩ | found
  · exact absurd slot (valid.disciplined.leavesKept leaf member writer (split ▸ by simp [earlier]))
  · obtain ⟨other, present, slot, node⟩ := mem_leafHolders found
    rw [← List.inj_on_of_nodup_map valid.leavesApart present member slot, node]
    exact same

theorem claimant_role (orderly : p.Orderly) {ids : List BufferId} {key : Int} {id : BufferId}
    (claimed : claimant (destinations p ids) key = some id) : ∃ slot ∈ p.slots, slot.index = key ∧
      slot.role = .output := by
  obtain ⟨before, entry, after, split, interior, slot, _, _⟩ := claimant_eq_some claimed
  have member : entry ∈ destinations p ids := split ▸ by simp
  exact slot ▸ orderly.interior entry.1 (List.of_mem_zip member).1 interior

theorem get?_claims_leaf (orderly : p.Orderly) (ids : List BufferId) (storage : Storage) {leaf : LeafSlot}
    (member : leaf ∈ p.leaves) : (claims p (some ids) storage).get? leaf.slot = storage.get? leaf.slot := by
  rw [get?_supplied]
  cases claimed : claimant (destinations p ids) leaf.slot with
  | none => rw [Option.none_or]
  | some id =>
    obtain ⟨slot, listed, same, role⟩ := claimant_role orderly claimed
    rw [orderly.valid.leaf_role member listed same] at role
    cases role

/-- What begins an execution: leaves have buffers, and slots are prepared. -/
structure Begun [Memory] (p : Plan) (s : State) (bindings : List (Value × Value)) (bound : Bindings) (s₁ s₂ : State) :
    Prop where
  extended : s.Extends s₁
  onward : Onward p s s₁
  given : ∀ leaf ∈ p.leaves, ∃ id, leafBuffer bound leaf.node = some id ∧ Visible p s₁ id ∧
    (s₁.store.get id).size = leaf.node.byteSize
  source : ∀ leaf ∈ p.leaves, ∀ id, leafBuffer bound leaf.node = some id → id < s.store.size →
    sourceOf bindings leaf.node = some id
  sourced : ∀ leaf ∈ p.leaves, ∀ id, sourceOf bindings leaf.node = some id → leafBuffer bound leaf.node = some id
  prepared : Prepared p bound s₁ s₂

namespace Begun
variable {bindings : List (Value × Value)} {bound : Bindings} {s₁ s₂ : State} {ids : List BufferId}

/-- The state in which the steps begin with supplied buffers. -/
abbrev supplied (p : Plan) (ids : List BufferId) (s₂ : State) : State :=
  { s₂ with storage := claims p (some ids) s₂.storage }

theorem leaf [Memory] (begun : Begun p s bindings bound s₁ s₂) {leaf : LeafSlot} (member : leaf ∈ p.leaves) :
    s₂.storage.get? leaf.slot = leafBuffer bound leaf.node := by
  obtain ⟨id, own, _⟩ := begun.given leaf member
  rw [begun.prepared.leaves leaf member, own, Option.some_or]

theorem unclaimed [Memory] (begun : Begun p s bindings bound s₁ s₂) (receiving : Receiving p s ids) {slot : Slot}
    (listed : slot ∈ p.slots) (role : slot.role ≠ .leaf) (valid : p.Valid) {id : BufferId}
    (held : s₂.storage.get? slot.index = some id) : id ∉ ids := by
  intro member
  have visible := receiving.visible id member
  rcases role_cases valid listed role with scratch | output
  · exact ((begun.onward.trans begun.prepared.onward).visible id visible).2 ⟨slot, listed, scratch, held⟩
  · have late := begun.prepared.fresh slot listed output id held
    exact absurd (Nat.lt_of_lt_of_le visible.1 begun.extended.store.grows) (Nat.not_lt_of_le late)

/-- A supplied buffer claims the slot of its output, which the step of the output writes to. -/
theorem claimed_step (orderly : p.Orderly) {step : Step} (member : step ∈ p.steps)
    {id : BufferId} (claimed : claimant (destinations p ids) step.outputSlot = some id) :
    ∃ i, p.outputs[i]? = some step.node ∧ ids[i]? = some id ∧ step.node.isLeaf = false ∧
      step.node.isIn (p.outputs.take i) = false := by
  obtain ⟨slot, listed, same, role⟩ := claimant_role orderly claimed
  have written : p.writtenRole? step = some .output := by
    rw [writtenRole?, ← same, orderly.valid.slotAt_index listed]
    simp [Except.toOption, role]
  obtain ⟨before, entry, after, split, interior, place, buffer, others⟩ := claimant_eq_some claimed
  have found : (destinations p ids)[before.length]? = some entry := by rw [split]; simp
  obtain ⟨output, supplied, paired⟩ := getElem?_destinations found
  have equal := orderly.apart entry.1 paired _ (orderly.requested step member written).1 (.inl place)
  rw [equal] at output interior
  refine ⟨before.length, output, buffer ▸ supplied, interior, ?_⟩
  rw [Bool.eq_false_iff]
  intro again
  obtain ⟨m, taken, id⟩ := Node.isIn_iff.mp again
  obtain ⟨j, inside, here⟩ := List.mem_iff_getElem.mp taken
  rw [List.length_take] at inside
  have earlier : j < before.length := by omega
  have listed : (destinations p ids)[j]? = some before[j] := by
    rw [split, List.getElem?_append_left earlier, List.getElem?_eq_getElem earlier]
  obtain ⟨output', _, paired'⟩ := getElem?_destinations listed
  have same' : before[j].1.1 = m := by
    rw [List.getElem_take] at here
    rw [← here]
    exact Option.some.inj (output'.symm.trans (List.getElem?_eq_getElem _))
  have entries := orderly.apart _ paired' _ (orderly.requested step member written).1 (.inr (by rw [same', ← id]))
  refine others _ (List.getElem_mem earlier) ?_ ?_
  · rw [entries, interior]
  · rw [entries]

theorem supplied_cases {key : Int} {id : BufferId} (found : (supplied p ids s₂).storage.get? key = some id) :
    claimant (destinations p ids) key = some id ∨ s₂.storage.get? key = some id := by
  rw [get?_supplied] at found
  exact (Option.or_eq_some_iff.mp found).imp_right And.right

theorem claimed_apart [Memory] (begun : Begun p s bindings bound s₁ s₂) (orderly : p.Orderly)
    (receiving : Receiving p s ids) {step other : Step} (listed : other ∈ p.steps) {out : BufferId}
    (claimed : claimant (destinations p ids) step.outputSlot = some out) :
    s₂.storage.get? other.outputSlot ≠ some out := by
  intro held
  obtain ⟨entry, present, _, same⟩ := mem_of_claimant claimed
  obtain ⟨slot, known, place, role⟩ := begun.prepared.equipped.written_slot orderly.valid listed held
  rw [← place] at held
  exact begun.unclaimed receiving known role orderly.valid held (same ▸ (List.of_mem_zip present).2)

/-- Supplied buffers serve the slots that they claim. -/
theorem served [Memory] (begun : Begun p s bindings bound s₁ s₂) (orderly : p.Orderly) (receiving : Receiving p s ids) :
    Served p (supplied p ids s₂) := by
  have old : s.store.Extends s₂.store := begun.extended.store.trans begun.prepared.store
  have own := begun.prepared.equipped.served orderly.valid
  constructor
  case serves =>
    intro step member out found
    rcases supplied_cases found with claimed | held
    · obtain ⟨i, output, given, _⟩ := claimed_step orderly member claimed
      have listed : out ∈ ids := List.mem_of_getElem? given
      have inside := (receiving.visible out listed).1
      have size : (s.store.get out).size = step.node.byteSize := by
        obtain ⟨first, here⟩ := List.getElem?_eq_some_iff.mp output
        obtain ⟨second, there⟩ := List.getElem?_eq_some_iff.mp given
        have sized := receiving.sizes.get first second
        simpa only [List.get_eq_getElem, here, there] using sized
      refine ⟨Nat.lt_of_lt_of_le inside old.grows, ?_, ?_⟩
      · rw [old.same out inside, size]
      · rw [old.same out inside, receiving.writable out listed]
    · exact own.serves step member out held
  case apart =>
    intro step member other listed out found again
    rcases supplied_cases found with claimed | held <;> rcases supplied_cases again with claimed' | held'
    · obtain ⟨entry, present, place, same⟩ := mem_of_claimant claimed
      obtain ⟨entry', present', place', same'⟩ := mem_of_claimant claimed'
      rw [← place, ← place', destination_eq receiving.apart present present' (same.trans same'.symm)]
    · exact absurd held' (begun.claimed_apart orderly receiving listed claimed)
    · exact absurd held (begun.claimed_apart orderly receiving member claimed')
    · exact own.apart step member other listed out held held'

/-- No step writes to the buffer of a leaf before the leaf is read. -/
theorem untargeted [Memory] (begun : Begun p s bindings bound s₁ s₂) (orderly : p.Orderly)
    (receiving : Receiving p s ids)
    (undisturbed : Undisturbed p bindings ids) {before after : List Step} (whole : p.steps = before ++ step :: after)
    {leaf : LeafSlot} (member : leaf ∈ p.leaves) (read : leaf.slot ∈ step.inputSlots) {jd : BufferId}
    (found : (supplied p ids s₂).storage.get? leaf.slot = some jd) : ¬Targeted before (supplied p ids s₂) jd := by
  rintro ⟨writer, earlier, held⟩
  have valid := orderly.valid
  have listed : writer ∈ p.steps := whole ▸ by simp [earlier]
  have there : s₂.storage.get? leaf.slot = some jd := by
    rwa [← get?_claims_leaf orderly ids s₂.storage member]
  rcases supplied_cases held with claimed | held
  · obtain ⟨i, output, given, interior, first⟩ := claimed_step orderly listed claimed
    have inside := (receiving.visible jd (List.mem_of_getElem? given)).1
    have source := begun.source leaf member jd (begun.leaf member ▸ there) inside
    obtain ⟨_, quiet⟩ := undisturbed.steps i writer.node jd output given interior first leaf member source
    obtain ⟨front, back, rfl⟩ := List.append_of_mem earlier
    have unread := quiet front writer (back ++ step :: after) (by simp [whole]) (Node.same_iff.mpr rfl) step (by simp)
    rw [isIn_of_read valid whole member read] at unread
    cases unread
  · obtain ⟨_, _, _, _, alone⟩ := begun.prepared.equipped.output valid listed held
    exact valid.disciplined.leavesKept leaf member writer listed (alone _ there).symm

theorem beside [Memory] (begun : Begun p s bindings bound s₁ s₂) (orderly : p.Orderly) (receiving : Receiving p s ids)
    (undisturbed : Undisturbed p bindings ids) : Beside p s₂ (supplied p ids s₂) where
  first := begun.prepared.equipped.served orderly.valid
  second := begun.served orderly receiving
  filled key id found := by
    show ∃ jd, (claims p (some ids) s₂.storage).get? key = some jd
    rw [get?_supplied, found]
    exact Option.isSome_iff_exists.mp (by simp)
  safe := by
    rintro leaf member id found ⟨step, listed, held⟩
    obtain ⟨_, _, _, _, alone⟩ := begun.prepared.equipped.output orderly.valid listed held
    exact orderly.valid.disciplined.leavesKept leaf member step listed (alone _ found).symm
  reads _ _ _ whole _ member read _ found := begun.untargeted orderly receiving undisturbed whole member read found

end Begun

theorem alike_supplied (orderly : p.Orderly) (ids : List BufferId) (s : State) :
    Alike p [] s (Begun.supplied p ids s) where
  streams := rfl
  leaves leaf member id jd found there _ := by
    have same : id = jd := Option.some.inj (found.symm.trans
      ((get?_claims_leaf orderly ids s.storage member).symm.trans there))
    rw [same]
  written step member := by cases member

end Execution
end TensorDag
