import TensorDag.Proofs.Binding
import TensorDag.Proofs.Evaluation

/-!
Slots get their buffers. Leaf slots hold what is bound to the leaves, and every other slot a buffer of
its size that no other slot holds: a new one, or the one that stayed with the plan.
-/
namespace TensorDag.Execution
open Program
variable {p : Plan} {s s' s'' : State} {slot : Slot} {slots : List Slot}

/-- A buffer that a slot can be written through. -/
structure Serves [Memory] (store : Store) (slot : Slot) (id : BufferId) : Prop where
  inside : id < store.size
  size : ((store.get id).size : Int) = slot.size
  writable : (store.get id).readonly = false
  room : Bytes.room slot.size.toNat = .ok ()

theorem Serves.altered [Memory] {store store' : Store} {some : BufferId → Prop} {id : BufferId}
    (serves : Serves store slot id) (alters : store.Alters some store') : Serves store' slot id where
  inside := Nat.lt_of_lt_of_le serves.inside alters.grows
  size := by rw [alters.sizes id serves.inside, serves.size]
  writable := by rw [alters.flags id serves.inside, serves.writable]
  room := serves.room

theorem Serves.extends [Memory] {store store' : Store} {id : BufferId} (serves : Serves store slot id)
    (extended : store.Extends store') : Serves store' slot id :=
  serves.altered (extended.alters fun _ => False)

/-! Leaves. -/

/-- The buffer of a leaf: the one bound to it, else its own. -/
def leafBuffer (bound : Bindings) (n : Node) : Option BufferId := (bound.lookup n.id).or n.buffer

def putLeaves (bound : Bindings) (leaves : List LeafSlot) (storage : Storage) : Storage :=
  leaves.foldl (fun storage leaf =>
    match leafBuffer bound leaf.node with
    | some id => storage.put leaf.slot id
    | none => storage) storage

theorem forM_putLeaf (bound : Bindings) (leaves : List LeafSlot) (s : State) :
    leaves.forM (putLeaf bound) s = .ok ⟨⟩ { s with storage := putLeaves bound leaves s.storage } := by
  induction leaves generalizing s with
  | nil => rfl
  | cons leaf rest ih =>
    rw [forM_cons, putLeaves, List.foldl_cons]
    simp only [bind, EStateM.bind]
    cases found : leafBuffer bound leaf.node with
    | none =>
      have here : putLeaf bound leaf s = .ok ⟨⟩ s := by
        rw [putLeaf, ← leafBuffer, found]
        rfl
      rw [here]
      exact ih s
    | some id =>
      have here : putLeaf bound leaf s = .ok ⟨⟩ { s with storage := s.storage.put leaf.slot id } := by
        rw [putLeaf, ← leafBuffer, found]
        rfl
      rw [here]
      exact ih _

theorem get?_putLeaves_of_not_mem (bound : Bindings) {leaves : List LeafSlot} (storage : Storage)
    {key : Int} (absent : key ∉ leaves.map LeafSlot.slot) :
    (putLeaves bound leaves storage).get? key = storage.get? key := by
  induction leaves generalizing storage with
  | nil => rfl
  | cons leaf rest ih =>
    rw [List.map_cons, List.mem_cons, not_or] at absent
    rw [putLeaves, List.foldl_cons]
    refine (ih _ absent.2).trans ?_
    cases leafBuffer bound leaf.node with
    | none => rfl
    | some id => rw [Storage.get?_put, if_neg absent.1]

/-- A leaf slot of its own holds the buffer of its leaf. -/
theorem get?_putLeaves (bound : Bindings) {leaves : List LeafSlot} (storage : Storage)
    (apart : (leaves.map LeafSlot.slot).Nodup) {leaf : LeafSlot} (member : leaf ∈ leaves) :
    (putLeaves bound leaves storage).get? leaf.slot =
      (leafBuffer bound leaf.node).or (storage.get? leaf.slot) := by
  induction leaves generalizing storage with
  | nil => simp at member
  | cons head rest ih =>
    rw [List.map_cons, List.nodup_cons] at apart
    rw [putLeaves, List.foldl_cons]
    rcases List.mem_cons.mp member with same | member
    · subst same
      refine (get?_putLeaves_of_not_mem bound _ apart.1).trans ?_
      cases leafBuffer bound leaf.node with
      | none => rfl
      | some id => rw [Storage.get?_put, if_pos rfl, Option.some_or]
    · refine (ih _ apart.2 member).trans ?_
      have differ : leaf.slot ≠ head.slot := fun same =>
        apart.1 (same ▸ List.mem_map_of_mem member)
      cases leafBuffer bound head.node with
      | none => rfl
      | some id => rw [Storage.get?_put, if_neg differ]

/-! Slots. -/

/-- Some slots were filled: buffers that are new serve one slot each, and all else stayed. -/
structure Filled [Memory] (slots : List Slot) (s s' : State) : Prop where
  store : s.store.Extends s'.store
  old : ∀ key id, s'.storage.get? key = some id → id < s.store.size → s.storage.get? key = some id
  fresh : ∀ key id, s'.storage.get? key = some id → s.store.size ≤ id →
    ∃ slot ∈ slots, slot.index = key ∧ slot.role ≠ .leaf ∧ Serves s'.store slot id
  once : ∀ id key key', s.store.size ≤ id → s'.storage.get? key = some id →
    s'.storage.get? key' = some id → key = key'
  kept : ∀ key, (∀ slot ∈ slots, slot.index = key → slot.role = .leaf) →
    s'.storage.get? key = s.storage.get? key

theorem Filled.within [Memory] (filled : Filled slots s s') :
    ∀ key id, s'.storage.get? key = some id → id < s'.store.size := by
  intro key id found
  by_cases early : id < s.store.size
  · exact Nat.lt_of_lt_of_le early filled.store.grows
  · obtain ⟨_, _, _, _, serves⟩ := filled.fresh key id found (Nat.le_of_not_lt early)
    exact serves.inside

theorem Filled.refl [Memory] (slots : List Slot)
    (within : ∀ key id, s.storage.get? key = some id → id < s.store.size) : Filled slots s s where
  store := .refl _
  old _ _ found _ := found
  fresh key id found late := absurd (within key id found) (Nat.not_lt_of_le late)
  once id key _ late found _ := absurd (within key id found) (Nat.not_lt_of_le late)
  kept _ _ := rfl

theorem Filled.cons [Memory] (first : Filled [slot] s s') (second : Filled slots s' s'') :
    Filled (slot :: slots) s s'' where
  store := first.store.trans second.store
  old key id found early := by
    have middle := second.old key id found (Nat.lt_of_lt_of_le early first.store.grows)
    exact first.old key id middle early
  fresh key id found late := by
    by_cases early : id < s'.store.size
    · obtain ⟨other, member, place, role, serves⟩ :=
        first.fresh key id (second.old key id found early) late
      exact ⟨other, List.mem_singleton.mp member ▸ List.mem_cons_self .., place, role,
        serves.extends second.store⟩
    · obtain ⟨other, member, rest⟩ := second.fresh key id found (Nat.le_of_not_lt early)
      exact ⟨other, List.mem_cons_of_mem _ member, rest⟩
  once id key key' late found found' := by
    by_cases early : id < s'.store.size
    · exact first.once id key key' late (second.old key id found early)
        (second.old key' id found' early)
    · exact second.once id key key' (Nat.le_of_not_lt early) found found'
  kept key others := by
    rw [second.kept key fun other member => others other (List.mem_cons_of_mem _ member),
      first.kept key fun other member =>
        others other (List.mem_singleton.mp member ▸ List.mem_cons_self ..)]

/-- There is a buffer for a slot. -/
def Roomy [Memory] (slot : Slot) : Prop := 0 ≤ slot.size ∧ Bytes.room slot.size.toNat = .ok ()

/-- The slot has what the steps need: an output slot a new buffer, a scratch slot any. -/
def Ready (s s' : State) (slot : Slot) : Prop :=
  (slot.role = .output → ∃ id, s'.storage.get? slot.index = some id ∧ s.store.size ≤ id) ∧
    (slot.role = .scratch → ∃ id, s'.storage.get? slot.index = some id)

private theorem allocateZeros_spec [Memory] {size : Int} :
    Ensures (allocateZeros size) s
      (fun id s' => id = s.store.size ∧ (0 ≤ size ∧ Bytes.room size.toNat = .ok ()) ∧
        s' = { s with store := (s.store.insert (Buffer.ofBytes (Bytes.zeros size.toNat))).2 })
      (fun s' => s = s' ∧ ¬(0 ≤ size ∧ Bytes.room size.toNat = .ok ())) := by
  unfold allocateZeros
  by_cases negative : size < 0
  · rw [if_pos negative]
    exact .throw ⟨rfl, fun roomy => Int.not_le.mpr negative roomy.1⟩
  · rw [if_neg negative]
    refine .bind (ensures_of (fun bytes cleared => ensures_allocate ?_) fun e failed => ⟨rfl, ?_⟩)
    · obtain ⟨room, rfl⟩ := Bytes.cleared_eq_ok.mp cleared
      exact ⟨rfl, ⟨Int.not_lt.mp negative, room⟩, rfl⟩
    · rintro ⟨_, room⟩
      cases failed.symm.trans (Bytes.cleared_eq_ok.mpr ⟨room, rfl⟩)

private theorem Filled.put [Memory] {s : State} {slot : Slot} (role : slot.role ≠ .leaf) (sized : 0 ≤ slot.size)
    (room : Bytes.room slot.size.toNat = .ok ())
    (within : ∀ key id, s.storage.get? key = some id → id < s.store.size) :
    Filled [slot] s { s with
      store := (s.store.insert (Buffer.ofBytes (Bytes.zeros slot.size.toNat))).2
      storage := s.storage.put slot.index s.store.size } := by
  have late : ∀ {key id}, (s.storage.put slot.index s.store.size).get? key = some id →
      s.store.size ≤ id → key = slot.index ∧ id = s.store.size := by
    intro key id found late
    rw [Storage.get?_put] at found
    split at found
    · rename_i same
      exact ⟨same, (Option.some.inj found).symm⟩
    · exact absurd (within key id found) (Nat.not_lt_of_le late)
  refine ⟨Store.extends_insert .., ?_, ?_, ?_, ?_⟩
  · intro key id found early
    rw [Storage.get?_put] at found
    split at found
    · exact absurd (Option.some.inj found) (Nat.ne_of_gt early)
    · exact found
  · intro key id found bound
    obtain ⟨rfl, rfl⟩ := late found bound
    refine ⟨slot, List.mem_singleton_self _, rfl, role, by simp, ?_, ?_, room⟩
    · rw [Store.get_insert_self]
      rw [Bytes.size_zeros, Int.toNat_of_nonneg sized]
    · rw [Store.get_insert_self]
      rfl
  · intro id key key' bound found found'
    rw [(late found bound).1, (late found' bound).1]
  · intro key others
    have differ : key ≠ slot.index := fun same =>
      role (others slot (List.mem_singleton_self _) same.symm)
    rw [Storage.get?_put, if_neg differ]

theorem prepareSlot_spec [Memory] (slot : Slot)
    (within : ∀ key id, s.storage.get? key = some id → id < s.store.size) :
    Ensures (prepareSlot slot) s (fun _ s' => Filled [slot] s s' ∧ Ready s s' slot)
      (fun s' => Filled [slot] s s' ∧ slot.role ≠ .leaf ∧ ¬Roomy slot) := by
  have filled : slot.role ≠ .leaf →
      Ensures (do put slot.index (← allocateZeros slot.size)) s
        (fun _ s' => Filled [slot] s s' ∧ Ready s s' slot)
        (fun s' => Filled [slot] s s' ∧ slot.role ≠ .leaf ∧ ¬Roomy slot) := by
    intro role
    refine .bind (allocateZeros_spec.weaken ?_ fun s' ⟨same, full⟩ => same ▸ ⟨.refl _ within, role, full⟩)
    rintro id s' ⟨rfl, ⟨sized, room⟩, rfl⟩
    have held : (s.storage.put slot.index s.store.size).get? slot.index = some s.store.size := by
      rw [Storage.get?_put, if_pos rfl]
    exact .modify ⟨.put role sized room within, fun _ => ⟨_, held, Nat.le_refl _⟩, fun _ => ⟨_, held⟩⟩
  unfold prepareSlot
  split
  · rename_i role
    exact filled (by simp [role])
  · rename_i role
    refine .bind (.get ?_)
    cases here : s.storage.has slot.index with
    | false => exact filled (by simp [role])
    | true =>
      obtain ⟨id, found⟩ := Option.isSome_iff_exists.mp here
      exact .pure ⟨.refl _ within, by simp [role], fun _ => ⟨id, found⟩⟩
  · rename_i output scratch
    exact .pure ⟨.refl _ within, fun same => absurd same output, fun same => absurd same scratch⟩

/-- All slots of a table get their buffers. -/
theorem prepareSlots_spec [Memory] (apart : (slots.map Slot.index).Nodup)
    (within : ∀ key id, s.storage.get? key = some id → id < s.store.size) :
    Ensures (slots.forM prepareSlot) s
      (fun _ s' => Filled slots s s' ∧ ∀ slot ∈ slots, Ready s s' slot)
      (fun s' => Filled slots s s' ∧ ∃ slot ∈ slots, slot.role ≠ .leaf ∧ ¬Roomy slot) := by
  induction slots generalizing s with
  | nil => exact .pure ⟨.refl _ within, by simp⟩
  | cons slot rest ih =>
    rw [List.map_cons, List.nodup_cons] at apart
    rw [forM_cons]
    refine .bind ((prepareSlot_spec slot within).weaken ?_ ?_)
    · rintro _ s' ⟨first, ready⟩
      refine (ih apart.2 first.within).weaken ?_ fun s'' ⟨second, other, member, full⟩ =>
        ⟨first.cons second, other, List.mem_cons_of_mem _ member, full⟩
      rintro _ s'' ⟨second, others⟩
      refine ⟨first.cons second, fun other member => ?_⟩
      rcases List.mem_cons.mp member with same | member
      · subst same
        have kept : s''.storage.get? other.index = s'.storage.get? other.index :=
          second.kept _ fun next inside same => absurd (same ▸ List.mem_map_of_mem inside) apart.1
        rw [Ready, kept]
        exact ready
      · obtain ⟨output, scratch⟩ := others other member
        refine ⟨fun role => ?_, scratch⟩
        obtain ⟨id, found, late⟩ := output role
        exact ⟨id, found, Nat.le_trans first.store.grows late⟩
    · rintro s' ⟨filled, full⟩
      exact ⟨filled.cons (.refl rest filled.within), slot, List.mem_cons_self .., full⟩

/-- The state behind the leaves. -/
abbrev leaved (p : Plan) (bound : Bindings) (s : State) : State :=
  { s with storage := putLeaves bound p.leaves s.storage }

/-- Preparation puts the buffers of the leaves, gives all other slots theirs and lets supplied buffers claim slots. -/
theorem ensures_prepare [Memory] {bound : Bindings} {supplied : Option (List BufferId)} {post : Unit → State → Prop}
    {rest : State → Prop} (apart : (p.slots.map Slot.index).Nodup)
    (within : ∀ key id, (leaved p bound s).storage.get? key = some id → id < s.store.size)
    (ready : ∀ s', Filled p.slots (leaved p bound s) s' → (∀ slot ∈ p.slots, Ready (leaved p bound s) s' slot) →
      Ensures (claim ((p.outputs.zip p.outputSlots).zip (supplied.getD [])) []) s' post rest)
    (full : ∀ s', Filled p.slots (leaved p bound s) s' → (∃ slot ∈ p.slots, slot.role ≠ .leaf ∧ ¬Roomy slot) →
      rest s') :
    Ensures (prepare p bound supplied) s post rest := by
  unfold prepare
  refine .bind (Ensures.weaken (show Ensures _ s (fun _ s' => s' = leaved p bound s) (fun _ => False) from ?_) ?_
    fun _ => False.elim)
  · rw [Ensures, forM_putLeaf]
  rintro _ _ rfl
  exact .bind ((prepareSlots_spec apart within).weaken (fun _ s' both => ready s' both.1 both.2)
    fun s' both => full s' both.1 both.2)

end TensorDag.Execution
