import TensorDag.Proofs.Stepping
import TensorDag.Proofs.Validity

/-!
What stays with a plan between executions. Scratch slots keep buffers of their own, which callers never
see; whatever an execution does with the other slots leaves those alone.
-/
namespace TensorDag.Execution
open Program
variable {p : Plan} {s s' s'' : State} {bound : Bindings}

/-- What is in the slots of a plan between executions: each scratch slot has its own buffer, or none. -/
structure Kept [Memory] (p : Plan) (s : State) : Prop where
  within : ∀ key id, s.storage.get? key = some id → id < s.store.size
  keys : ∀ key id, s.storage.get? key = some id →
    key ∈ p.leaves.map LeafSlot.slot ∨ ∃ slot ∈ p.slots, slot.index = key ∧ slot.role ≠ .leaf
  serves : ∀ slot ∈ p.slots, slot.role = .scratch → ∀ id, s.storage.get? slot.index = some id →
    Serves s.store slot id
  alone : ∀ slot ∈ p.slots, slot.role = .scratch → ∀ id key, s.storage.get? slot.index = some id →
    s.storage.get? key = some id → key = slot.index

/-- A buffer of the plan's own, which callers never see. -/
def Hidden (p : Plan) (s : State) (id : BufferId) : Prop :=
  ∃ slot ∈ p.slots, slot.role = .scratch ∧ s.storage.get? slot.index = some id

/-- A buffer that callers may know of. -/
def Visible (p : Plan) (s : State) (id : BufferId) : Prop := id < s.store.size ∧ ¬Hidden p s id

/-- Scratch slots are kept, and callers may know of the buffers that they knew of before. -/
structure Onward [Memory] (p : Plan) (s s' : State) : Prop where
  kept : Kept p s'
  visible : ∀ id, Visible p s id → Visible p s' id

theorem kept_of_empty [Memory] (empty : s.storage = []) : Kept p s := by
  have nothing : ∀ key id, s.storage.get? key ≠ some id := by
    intro key id found
    rw [empty] at found
    cases found
  constructor
  case within => exact fun key id found => absurd found (nothing key id)
  case keys => exact fun key id found => absurd found (nothing key id)
  case serves => exact fun slot _ _ id found => absurd found (nothing _ id)
  case alone => exact fun slot _ _ id key found => absurd found (nothing _ id)

theorem visible_of_empty (empty : s.storage = []) {id : BufferId} (inside : id < s.store.size) :
    Visible p s id := by
  refine ⟨inside, ?_⟩
  rintro ⟨slot, _, _, held⟩
  rw [empty] at held
  cases held

theorem Kept.onward [Memory] (kept : Kept p s) : Onward p s s := ⟨kept, fun _ visible => visible⟩

theorem Onward.trans [Memory] (first : Onward p s s') (second : Onward p s' s'') : Onward p s s'' :=
  ⟨second.kept, fun id visible => second.visible id (first.visible id visible)⟩

theorem Kept.written_slot [Memory] (kept : Kept p s) (valid : p.Valid) {step : Step} (member : step ∈ p.steps)
    {id : BufferId} (found : s.storage.get? step.outputSlot = some id) :
    ∃ slot ∈ p.slots, slot.index = step.outputSlot ∧ slot.role ≠ .leaf := by
  rcases kept.keys _ _ found with leaf | slot
  · obtain ⟨leaf, present, same⟩ := List.mem_map.mp leaf
    exact absurd same.symm (valid.disciplined.leavesKept leaf present step member)
  · exact slot

/-- Slots may be emptied, and all but the plan's own buffers may change. -/
theorem Kept.shrink [Memory] (kept : Kept p s)
    (storage : ∀ key id, s'.storage.get? key = some id → s.storage.get? key = some id)
    (grows : s.store.size ≤ s'.store.size)
    (same : ∀ id, Hidden p s id → (s'.store.get id).size = (s.store.get id).size ∧
      (s'.store.get id).readonly = (s.store.get id).readonly) : Onward p s s' := by
  refine ⟨⟨?_, ?_, ?_, ?_⟩, ?_⟩
  · exact fun key id found => Nat.lt_of_lt_of_le (kept.within key id (storage key id found)) grows
  · exact fun key id found => kept.keys key id (storage key id found)
  · intro slot member role id found
    have held := storage _ id found
    have serves := kept.serves slot member role id held
    obtain ⟨size, flag⟩ := same id ⟨slot, member, role, held⟩
    exact ⟨Nat.lt_of_lt_of_le serves.inside grows, by rw [size, serves.size],
      by rw [flag, serves.writable], serves.room⟩
  · exact fun slot member role id key found again =>
      kept.alone slot member role id key (storage _ id found) (storage key id again)
  · rintro id ⟨inside, shown⟩
    refine ⟨Nat.lt_of_lt_of_le inside grows, ?_⟩
    rintro ⟨slot, member, role, found⟩
    exact shown ⟨slot, member, role, storage _ id found⟩

theorem Kept.altered [Memory] {some : BufferId → Prop} (kept : Kept p s) (alters : s.Alters some s') :
    Onward p s s' := by
  refine kept.shrink (fun key id found => alters.storage ▸ found) alters.store.grows ?_
  rintro id ⟨slot, _, _, held⟩
  have inside := kept.within _ id held
  exact ⟨alters.store.sizes id inside, alters.store.flags id inside⟩

theorem Kept.confined [Memory] {α : Type} {some : BufferId → Prop} {x : Execution α} (kept : Kept p s)
    (confined : Confined some x s) : Ensures x s (fun _ s' => Onward p s s') (fun s' => Onward p s s') :=
  confined.weaken (fun _ _ => kept.altered) fun _ => kept.altered

theorem Kept.extends [Memory] (kept : Kept p s) (extended : s.Extends s') : Onward p s s' :=
  kept.altered (extended.alters fun _ => False)

theorem Kept.released [Memory] (kept : Kept p s) : Onward p s { s with storage := [] } :=
  kept.shrink (fun _ _ found => by cases found) (Nat.le_refl _) fun _ _ => ⟨rfl, rfl⟩

theorem Kept.fresh [Memory] (kept : Kept p s) {id : BufferId} (late : s.store.size ≤ id) : ¬Hidden p s id := by
  rintro ⟨slot, _, _, held⟩
  exact absurd (kept.within _ id held) (Nat.not_lt_of_le late)

/-- The slot is one that callers' buffers may go to. -/
def Public (p : Plan) (key : Int) : Prop :=
  (key ∈ p.leaves.map LeafSlot.slot ∨ ∃ slot ∈ p.slots, slot.index = key ∧ slot.role ≠ .leaf) ∧
    ∀ slot ∈ p.slots, slot.role = .scratch → slot.index ≠ key

theorem Kept.put [Memory] (kept : Kept p s) {key : Int} {id : BufferId} (shared : Public p key)
    (visible : Visible p s id) : Onward p s { s with storage := s.storage.put key id } := by
  have scratch : ∀ slot ∈ p.slots, slot.role = .scratch → ∀ id',
      (s.storage.put key id).get? slot.index = some id' → s.storage.get? slot.index = some id' := by
    intro slot member role id' found
    rwa [Storage.get?_put, if_neg (shared.2 slot member role)] at found
  refine ⟨⟨?_, ?_, ?_, ?_⟩, ?_⟩
  · intro other id' found
    rw [Storage.get?_put] at found
    split at found
    · cases found
      exact visible.1
    · exact kept.within other id' found
  · intro other id' found
    rw [Storage.get?_put] at found
    split at found
    · rename_i same
      exact same ▸ shared.1
    · exact kept.keys other id' found
  · exact fun slot member role id' found => kept.serves slot member role id' (scratch slot member role id' found)
  · intro slot member role id' other found again
    have held := scratch slot member role id' found
    rw [Storage.get?_put] at again
    split at again
    · cases again
      exact absurd ⟨slot, member, role, held⟩ visible.2
    · exact kept.alone slot member role id' other held again
  · rintro id' ⟨inside, shown⟩
    refine ⟨inside, ?_⟩
    rintro ⟨slot, member, role, found⟩
    exact shown ⟨slot, member, role, scratch slot member role id' found⟩

theorem public_leaf (valid : p.Valid) {leaf : LeafSlot} (member : leaf ∈ p.leaves) :
    Public p leaf.slot := by
  refine ⟨.inl (List.mem_map_of_mem member), fun slot listed role same => ?_⟩
  have leafRole := valid.leaf_role member listed same
  rw [role] at leafRole
  cases leafRole

theorem public_output (valid : p.Valid) {slot : Slot} (member : slot ∈ p.slots)
    (output : slot.role = .output) : Public p slot.index := by
  refine ⟨.inr ⟨slot, member, rfl, by simp [output]⟩, fun other listed role same => ?_⟩
  rw [valid.slot_eq listed member same, output] at role
  cases role

/-- Leaves are put into their slots. -/
theorem Kept.putLeaves [Memory] (kept : Kept p s) {leaves : List LeafSlot}
    (shared : ∀ leaf ∈ leaves, Public p leaf.slot)
    (visible : ∀ leaf ∈ leaves, ∀ id, leafBuffer bound leaf.node = some id → Visible p s id) :
    Onward p s { s with storage := Execution.putLeaves bound leaves s.storage } := by
  induction leaves generalizing s with
  | nil => exact kept.onward
  | cons leaf rest ih =>
    rw [Execution.putLeaves, List.foldl_cons]
    cases found : leafBuffer bound leaf.node with
    | none =>
      exact ih kept (fun other member => shared other (List.mem_cons_of_mem _ member))
        fun other member => visible other (List.mem_cons_of_mem _ member)
    | some id =>
      have first := kept.put (shared leaf (List.mem_cons_self ..))
        (visible leaf (List.mem_cons_self ..) id found)
      exact first.trans (ih first.kept (fun other member => shared other (List.mem_cons_of_mem _ member))
        fun other member id' here =>
          first.visible id' (visible other (List.mem_cons_of_mem _ member) id' here))

/-- Slots are filled. -/
theorem Kept.filled [Memory] (kept : Kept p s) (valid : p.Valid) (filled : Filled p.slots s s') :
    Onward p s s' := by
  refine ⟨⟨filled.within, ?_, ?_, ?_⟩, ?_⟩
  · intro key id found
    by_cases early : id < s.store.size
    · exact kept.keys key id (filled.old key id found early)
    · obtain ⟨slot, member, same, role, _⟩ := filled.fresh key id found (Nat.le_of_not_lt early)
      exact .inr ⟨slot, member, same, role⟩
  · intro slot member role id found
    by_cases early : id < s.store.size
    · exact (kept.serves slot member role id (filled.old _ id found early)).extends filled.store
    · obtain ⟨other, listed, same, _, serves⟩ := filled.fresh _ id found (Nat.le_of_not_lt early)
      exact valid.slot_eq listed member same ▸ serves
  · intro slot member role id key found again
    by_cases early : id < s.store.size
    · exact kept.alone slot member role id key (filled.old _ id found early)
        (filled.old key id again early)
    · exact filled.once id key slot.index (Nat.le_of_not_lt early) again found
  · rintro id ⟨inside, shown⟩
    refine ⟨Nat.lt_of_lt_of_le inside filled.store.grows, ?_⟩
    rintro ⟨slot, member, role, found⟩
    exact shown ⟨slot, member, role, filled.old _ id found inside⟩

end TensorDag.Execution
