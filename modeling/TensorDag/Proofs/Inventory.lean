import Mathlib
import TensorDag.Proofs.Accounting
import TensorDag.Proofs.Tidying

/-!
What slots hold. A slot holds one buffer at most, of the size of the slot, whatever was bound and supplied; behind
preparation every slot holds one. So what is held while the steps run has the bytes of all slots.
-/
namespace TensorDag

namespace Storage
variable {s : Storage} {key : Int} {id : BufferId}

def keys (s : Storage) : List Int := s.map Prod.fst

theorem mem_iff (once : s.keys.Nodup) : (key, id) ∈ s ↔ s.get? key = some id := by
  constructor
  · intro member
    obtain ⟨before, after, rfl⟩ := List.append_of_mem member
    rw [keys, List.map_append, List.map_cons] at once
    refine List.lookup_eq_some_iff.mpr ⟨before, after, rfl, fun entry listed => ?_⟩
    have apart := (List.nodup_append.mp once).2.2 entry.1 (List.mem_map_of_mem listed) key (List.mem_cons_self ..)
    exact bne_iff_ne.mpr (Ne.symm apart)
  · intro found
    obtain ⟨before, after, split, _⟩ := List.lookup_eq_some_iff.mp found
    simp [split]

theorem keys_erase (s : Storage) (key : Int) : (s.erase key).keys = s.keys.filter (· ≠ key) := by
  rw [keys, keys, erase, List.filter_map]
  rfl

theorem nodup_put (once : s.keys.Nodup) (key : Int) (id : BufferId) : (s.put key id).keys.Nodup := by
  have rest : (s.erase key).keys.Nodup := keys_erase s key ▸ once.filter _
  refine List.nodup_cons.mpr ⟨fun member => ?_, rest⟩
  obtain ⟨entry, listed, same⟩ := List.mem_map.mp member
  exact (mem_erase.mp listed).2 same

theorem nodup_foldl_erase (once : s.keys.Nodup) (keys : List Int) : (keys.foldl erase s).keys.Nodup := by
  induction keys generalizing s with
  | nil => exact once
  | cons key rest ih => exact ih (keys_erase s key ▸ once.filter _)

theorem byteSize_eq (s : Storage) (store : Store) :
    (s.byteSize store : Int) = (s.map fun entry => ((store.get entry.2).size : Int)).sum := by
  unfold byteSize
  induction s with
  | nil => rfl
  | cons entry rest ih => rw [List.map_cons, List.sum_cons, Nat.cast_add, ih, List.map_cons, List.sum_cons]

end Storage

/-- Each slot has the size of what is put into it, and there is a leaf for each leaf slot. -/
structure Plan.Tailored (p : Plan) : Prop where
  valid : p.Valid
  leaves : ∀ leaf ∈ p.leaves, ∃ slot ∈ p.slots, slot.index = leaf.slot ∧ slot.size = leaf.node.byteSize
  outputs : ∀ entry ∈ p.outputs.zip p.outputSlots, entry.1.isLeaf = false →
    ∃ slot ∈ p.slots, slot.index = entry.2 ∧ slot.size = entry.1.byteSize
  filled : ∀ slot ∈ p.slots, slot.role = .leaf → ∃ leaf ∈ p.leaves, leaf.slot = slot.index

namespace Plan
variable {family : Node → Prop} {kernels : Kernels} {device : Device} {devices : Devices} {outputs : List Node}
  {p : Plan}

theorem ofOutputs_tailored (arena : Arena family) (own : ∀ o ∈ outputs, family o)
    (made : ofOutputs kernels device devices outputs = .ok p) : p.Tailored := by
  have laid := (ofOutputs_eq_ok made).1
  have sound := (Assignment.ofOrder_sound arena own).1
  have placed : ∀ n ∈ Node.order outputs, ∃ slot ∈ p.slots,
      slot.index = (Assignment.ofOrder (Node.order outputs) outputs).slotOf n ∧ slot.size = n.byteSize :=
    fun n member => ⟨_, mem_of_slotAt (laid.fits sound member), rfl, rfl⟩
  refine ⟨ofOutputs_valid arena own made, ?_, ?_, ?_⟩
  · intro leaf member
    obtain ⟨ordered, _, place⟩ := laid.mem_leaves.mp member
    exact place ▸ placed leaf.node ordered
  · rw [laid.requested, laid.outputSlots, ← List.map_prod_left_eq_zip, List.forall_mem_map]
    exact fun o member _ => placed o (Node.mem_order_of_mem arena own member)
  · intro slot member role
    rw [laid.slots] at member
    obtain ⟨i, here⟩ := List.mem_iff_getElem?.mp member
    obtain ⟨n, listed, rfl⟩ := sound.used i (List.getElem?_eq_some_iff.mp here).1
    cases here.symm.trans (sound.spec n listed)
    have leaf : n.isLeaf = true := by
      unfold Assignment.roleOf at role
      cases interior : n.isLeaf with
      | true => rfl
      | false => cases requested : n.isIn outputs <;> simp [interior, requested] at role
    exact ⟨⟨n, _⟩, laid.mem_leaves.mpr ⟨List.mem_reverse.mp listed, leaf, rfl⟩, rfl⟩

end Plan

namespace Execution
open Program Plan
variable {p : Plan} {s s' : State} {bound : Bindings} {ids : Option (List BufferId)}

/-- A buffer of the size of a slot. -/
def Fills (p : Plan) (store : Store) (key : Int) (id : BufferId) : Prop :=
  id < store.size ∧ ∃ slot ∈ p.slots, slot.index = key ∧ (store.get id).size = slot.size

theorem Fills.grows {store store' : Store} {key : Int} {id : BufferId} (fills : Fills p store key id)
    (grows : store.size ≤ store'.size) (sizes : ∀ id < store.size, (store'.get id).size = (store.get id).size) :
    Fills p store' key id := by
  obtain ⟨inside, slot, member, index, size⟩ := fills
  exact ⟨Nat.lt_of_lt_of_le inside grows, slot, member, index, by rw [sizes id inside, size]⟩

/-- Every slot holds one buffer at most, of its size. -/
structure Stowed (p : Plan) (s : State) : Prop where
  once : s.storage.keys.Nodup
  fills : ∀ key id, s.storage.get? key = some id → Fills p s.store key id

/-- Every slot holds a buffer. -/
def Full (p : Plan) (s : State) : Prop := ∀ slot ∈ p.slots, ∃ id, s.storage.get? slot.index = some id

theorem stowed_empty (empty : s.storage = []) : Stowed p s where
  once := by simp [empty, Storage.keys]
  fills key id found := by
    rw [empty] at found
    cases found

theorem Stowed.grows (stowed : Stowed p s) (storage : s'.storage = s.storage) (grows : s.store.size ≤ s'.store.size)
    (sizes : ∀ id < s.store.size, (s'.store.get id).size = (s.store.get id).size) : Stowed p s' where
  once := storage ▸ stowed.once
  fills key id found := (stowed.fills key id (storage ▸ found)).grows grows sizes

theorem Stowed.alters (stowed : Stowed p s) {some : BufferId → Prop} (alters : s.Alters some s') : Stowed p s' :=
  stowed.grows alters.storage alters.store.grows alters.store.sizes

theorem Full.alters (full : Full p s) {some : BufferId → Prop} (alters : s.Alters some s') : Full p s' :=
  fun slot member => alters.storage ▸ full slot member

theorem Stowed.discarded (stowed : Stowed p s) : Stowed p (discard p s) where
  once := Storage.nodup_foldl_erase stowed.once _
  fills key id found := stowed.fills key id (get?_erased found)

theorem moves_once : MoveOrder fun s s' => s.storage.keys.Nodup → s'.storage.keys.Nodup where
  refl _ := id
  trans first second once := second (first once)
  allocated _ _ := id
  put _ slot id once := Storage.nodup_put once slot id
  written _ _ _ _ _ := id
  streamed _ _ := id
  counted _ _ _ := id

/-- What is held in full slots has the bytes of all slots. -/
theorem Stowed.byteSize (stowed : Stowed p s) (valid : p.Valid) (full : Full p s) :
    s.storage.byteSize s.store = Slot.total p.slots := by
  let held : List (Int × Int) := s.storage.map fun entry => (entry.1, ((s.store.get entry.2).size : Int))
  let table : List (Int × Int) := p.slots.map fun slot => (slot.index, slot.size)
  have first : held.Nodup := by
    refine List.Nodup.of_map Prod.fst ?_
    rw [List.map_map]
    exact stowed.once
  have second : table.Nodup := by
    refine List.Nodup.of_map Prod.fst ?_
    rw [List.map_map]
    exact valid.indices_nodup
  have same : held.Perm table := by
    refine (List.perm_ext_iff_of_nodup first second).mpr fun pair => ?_
    constructor
    · intro member
      obtain ⟨⟨key, id⟩, listed, rfl⟩ := List.mem_map.mp member
      obtain ⟨_, slot, present, rfl, size⟩ := stowed.fills key id ((Storage.mem_iff stowed.once).mp listed)
      exact List.mem_map.mpr ⟨slot, present, by rw [size]⟩
    · intro member
      obtain ⟨slot, present, rfl⟩ := List.mem_map.mp member
      obtain ⟨id, found⟩ := full slot present
      obtain ⟨_, other, listed, index, size⟩ := stowed.fills slot.index id found
      cases valid.slot_eq listed present index
      exact List.mem_map.mpr ⟨(slot.index, id), (Storage.mem_iff stowed.once).mpr found, by rw [size]⟩
  calc (s.storage.byteSize s.store : Int) = (held.map Prod.snd).sum := by
        rw [Storage.byteSize_eq, List.map_map]
        rfl
    _ = (table.map Prod.snd).sum := (same.map Prod.snd).sum_eq
    _ = Slot.total p.slots := by
      rw [Slot.total, List.map_map]
      rfl

/-- What preparation is given: a buffer of its size for each leaf, and supplied buffers of the sizes of the outputs. -/
structure Given (p : Plan) (store : Store) (bound : Bindings) (ids : Option (List BufferId)) : Prop where
  leaves : ∀ leaf ∈ p.leaves, ∃ id, leafBuffer bound leaf.node = some id ∧ id < store.size ∧
    (store.get id).size = leaf.node.byteSize
  outputs : ∀ entry ∈ (p.outputs.zip p.outputSlots).zip (ids.getD []), entry.2 < store.size ∧
    (store.get entry.2).size = entry.1.1.byteSize

section
variable (given : Given p s.store bound ids) (tailored : p.Tailored) (stowed : Stowed p s)
include given tailored

theorem Given.held_leaf {leaf : LeafSlot} (member : leaf ∈ p.leaves) :
    ∃ id, (leaved p bound s).storage.get? leaf.slot = some id ∧ Fills p s.store leaf.slot id := by
  obtain ⟨id, own, inside, size⟩ := given.leaves leaf member
  obtain ⟨slot, present, index, fits⟩ := tailored.leaves leaf member
  refine ⟨id, ?_, inside, slot, present, index, by rw [size, fits]⟩
  rw [get?_putLeaves _ _ tailored.valid.leavesApart member, own, Option.some_or]

include stowed in
theorem Given.fills_leaved {key : Int} {id : BufferId} (found : (leaved p bound s).storage.get? key = some id) :
    Fills p s.store key id := by
  by_cases listed : key ∈ p.leaves.map LeafSlot.slot
  · obtain ⟨leaf, member, rfl⟩ := List.mem_map.mp listed
    obtain ⟨other, held, fills⟩ := given.held_leaf tailored member
    cases held.symm.trans found
    exact fills
  · exact stowed.fills key id (get?_putLeaves_of_not_mem bound s.storage listed ▸ found)

include stowed in
theorem Given.fills_filled [Memory] (filled : Filled p.slots (leaved p bound s) s') {key : Int} {id : BufferId}
    (found : s'.storage.get? key = some id) : Fills p s'.store key id := by
  by_cases early : id < s.store.size
  · exact (given.fills_leaved tailored stowed (filled.old key id found early)).grows filled.store.grows
      filled.store.later.sizes
  · obtain ⟨slot, member, index, _, serves⟩ := filled.fresh key id found (Nat.le_of_not_lt early)
    exact ⟨serves.inside, slot, member, index, serves.size⟩

include stowed in
theorem Given.fills_claimed [Memory] (filled : Filled p.slots (leaved p bound s) s') {key : Int} {id : BufferId}
    (found : (claims p ids s'.storage).get? key = some id) : Fills p s'.store key id := by
  rw [get?_claims] at found
  rcases Option.or_eq_some_iff.mp found with claimed | ⟨_, kept⟩
  · obtain ⟨before, entry, after, split, interior, rfl, rfl, _⟩ := claimant_eq_some claimed
    have member : entry ∈ (p.outputs.zip p.outputSlots).zip (ids.getD []) := by rw [split]; simp
    obtain ⟨inside, size⟩ := given.outputs entry member
    obtain ⟨slot, present, index, fits⟩ := tailored.outputs entry.1 (List.of_mem_zip member).1 interior
    exact Fills.grows ⟨inside, slot, present, index, by rw [size, fits]⟩ filled.store.grows filled.store.later.sizes
  · exact given.fills_filled tailored stowed filled kept

/-- Leaf slots hold their leaves, and all others what they were filled with or what claims them. -/
theorem Given.full_claimed [Memory] (filled : Filled p.slots (leaved p bound s) s')
    (ready : ∀ slot ∈ p.slots, Ready (leaved p bound s) s' slot) :
    Full p { s' with storage := claims p ids s'.storage } := by
  intro slot member
  have held : ∃ id, s'.storage.get? slot.index = some id := by
    by_cases leaf : slot.role = .leaf
    · obtain ⟨leaf, listed, same⟩ := tailored.filled slot member leaf
      obtain ⟨id, held, _⟩ := given.held_leaf tailored listed
      refine ⟨id, same ▸ (filled.kept leaf.slot fun other present index => ?_).trans held⟩
      exact tailored.valid.leaf_role listed present index
    · rcases role_cases tailored.valid member leaf with scratch | output
      · exact (ready slot member).2 scratch
      · exact ((ready slot member).1 output).imp fun _ => And.left
  obtain ⟨id, held⟩ := held
  change ∃ id, (claims p ids s'.storage).get? slot.index = some id
  rw [get?_claims, held]
  cases claimant ((p.outputs.zip p.outputSlots).zip (ids.getD [])) slot.index with
  | none => exact ⟨id, rfl⟩
  | some other => exact ⟨other, rfl⟩

include stowed in
/-- Preparation leaves in every slot a buffer of its size; where there is no room for one, those before stay. -/
theorem prepare_stows [Memory] :
    Ensures (prepare p bound ids) s (fun _ s' => Stowed p s' ∧ Full p s') (fun s' => Stowed p s') := by
  have fills : Ensures (prepare p bound ids) s
      (fun _ s' => (∀ key id, s'.storage.get? key = some id → Fills p s'.store key id) ∧ Full p s')
      (fun s' => ∀ key id, s'.storage.get? key = some id → Fills p s'.store key id) := by
    refine ensures_prepare tailored.valid.indices_nodup
      (fun key id found => (given.fills_leaved tailored stowed found).1) (fun s' filled ready => ?_)
      fun s' filled _ key id => given.fills_filled tailored stowed filled
    rw [Ensures, claim_eq]
    exact ⟨fun key id => given.fills_claimed tailored stowed filled, given.full_claimed tailored filled ready⟩
  refine (fills.and (moves_once.prepare p bound ids s)).weaken ?_ ?_
  · rintro _ s' ⟨⟨fills, full⟩, once⟩
    exact ⟨⟨once stowed.once, fills⟩, full⟩
  · rintro s' ⟨fills, once⟩
    exact ⟨once stowed.once, fills⟩

end
end Execution
end TensorDag
