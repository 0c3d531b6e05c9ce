import Mathlib
import TensorDag.Proofs.Compilation

/-!
What the assignment of slots counts. Every node makes a slot or takes one that is free; what is live at once, and what
is free beside it, fits the slots that were made. So the statistics of a plan are those of its slots and nodes.
-/
namespace TensorDag

def Slot.total (slots : List Slot) : Int := (slots.map Slot.size).sum

theorem Slot.total_append (slots others : List Slot) : total (slots ++ others) = total slots + total others := by
  rw [total, List.map_append, List.sum_append, total, total]

theorem Slot.total_le {slots others : List Slot} (once : others.Nodup) (inside : others ⊆ slots)
    (sized : ∀ slot ∈ slots, 0 ≤ slot.size) : total others ≤ total slots := by
  obtain ⟨front, same, part⟩ := List.subperm_of_subset once inside
  have whole : ∀ size ∈ slots.map Slot.size, 0 ≤ size := List.forall_mem_map.mpr sized
  calc total others = total front := (same.map Slot.size).sum_eq.symm
    _ ≤ total slots := (part.map Slot.size).sum_le_sum whole

namespace Assignment
variable {family : Node → Prop} {outputs done later : List Node} {a : Assignment} {n : Node}

def spare (free : List (Nat × Nat)) : Int := (free.map fun entry => (entry.1 : Int)).sum

theorem spare_cons (size slot : Nat) (free : List (Nat × Nat)) : spare ((size, slot) :: free) = size + spare free := by
  rw [spare, List.map_cons, List.sum_cons, spare]

theorem spare_append (free others : List (Nat × Nat)) : spare (free ++ others) = spare free + spare others := by
  rw [spare, List.map_append, List.sum_append, spare, spare]

theorem spare_nonneg (free : List (Nat × Nat)) : 0 ≤ spare free := by
  refine List.sum_nonneg fun size member => ?_
  obtain ⟨entry, _, rfl⟩ := List.mem_map.mp member
  exact Int.natCast_nonneg _

/-- What was counted for the nodes that were placed: a slot made or one taken for each, and no more bytes in use or
free than slots were made of. -/
structure Accounted (outputs done : List Node) (a : Assignment) : Prop where
  placed : a.slots.length + a.reused = done.length
  scratch : a.reused + a.scratchSizes.length = done.countP fun n => roleOf outputs n = .scratch
  live : a.live + spare a.free ≤ Slot.total a.slots
  peak : a.peak ≤ Slot.total a.slots

theorem accounted_start (outputs order : List Node) : Accounted outputs [] (start order) where
  placed := rfl
  scratch := rfl
  live := Int.le_refl _
  peak := Int.le_refl _

/-- A node that makes a slot. -/
theorem Accounted.extended (accounted : Accounted outputs done a) :
    Accounted outputs (n :: done) ((a.extend n (roleOf outputs n)).charge n) := by
  have whole : Slot.total (a.extend n (roleOf outputs n)).slots = Slot.total a.slots + n.byteSize :=
    (Slot.total_append ..).trans (congrArg _ (Int.add_zero _))
  have live := accounted.live
  have peak := accounted.peak
  refine ⟨?_, ?_, ?_, ?_⟩
  · have placed := accounted.placed
    simp only [charge, extend, List.length_append, List.length_cons, List.length_nil]
    omega
  · have scratch := accounted.scratch
    simp only [charge, extend, scratchSizes, List.filter_append, List.map_append, List.length_append,
      List.countP_cons] at scratch ⊢
    rw [← scratch, ← Nat.add_assoc]
    congr 1
    by_cases role : roleOf outputs n = .scratch <;> simp [role]
  · change ((a.live + n.byteSize : Nat) : Int) + spare a.free ≤ Slot.total (a.extend n (roleOf outputs n)).slots
    rw [whole]
    omega
  · have spared := spare_nonneg a.free
    change ((max a.peak (a.live + n.byteSize) : Nat) : Int) ≤ Slot.total (a.extend n (roleOf outputs n)).slots
    rw [whole]
    omega

/-- A node that takes a slot. -/
theorem Accounted.taken (accounted : Accounted outputs done a) (role : roleOf outputs n = .scratch) {slot : Nat}
    {rest : List (Nat × Nat)} (taken : takeFree n.byteSize a.free = some (slot, rest)) :
    Accounted outputs (n :: done) (Assignment.charge
      { a with places := (n.id, slot) :: a.places, free := rest, reused := a.reused + 1 } n) := by
  obtain ⟨before, after, all, others⟩ := takeFree_eq_some taken
  have spent : spare a.free = spare rest + n.byteSize := by
    rw [all, others, spare_append, spare_cons, spare_append]
    omega
  have live := accounted.live
  have peak := accounted.peak
  refine ⟨?_, ?_, ?_, ?_⟩
  · have placed := accounted.placed
    simp only [charge, List.length_cons]
    omega
  · have scratch := accounted.scratch
    rw [List.countP_cons_of_pos (by simpa using role), ← scratch]
    exact Nat.add_right_comm ..
  · change ((a.live + n.byteSize : Nat) : Int) + spare rest ≤ Slot.total a.slots
    omega
  · have spared := spare_nonneg rest
    change ((max a.peak (a.live + n.byteSize) : Nat) : Int) ≤ Slot.total a.slots
    omega

theorem Accounted.charged (accounted : Accounted outputs done a) :
    Accounted outputs (n :: done) ((a.place outputs n).charge n) := by
  have extended := accounted.extended (n := n)
  unfold place
  split
  · rename_i role
    split
    · rename_i slot rest taken
      exact accounted.taken role taken
    · exact role ▸ extended
  · exact extended

theorem Accounted.advanced (accounted : Accounted outputs done a) :
    Accounted outputs (n :: done) (a.advance outputs n) :=
  ⟨accounted.charged.placed, accounted.charged.scratch, accounted.charged.live, accounted.charged.peak⟩

theorem exists_released (outputs xs : List Node) : ∃ (freed : Nat) (free : List (Nat × Nat)),
    xs.foldl (release · outputs) a = { a with free, live := a.live - freed } ∧ spare free = spare a.free + freed := by
  induction xs generalizing a with
  | nil => exact ⟨0, a.free, rfl, (Int.add_zero _).symm⟩
  | cons x rest ih =>
    obtain ⟨freed, free, same, spared⟩ := ih (a := a.release outputs x)
    rw [List.foldl_cons, same]
    unfold release at spared ⊢
    split at spared
    · refine ⟨x.byteSize + freed, free, by rw [← Nat.sub_sub], ?_⟩
      rw [spared, spare_cons]
      omega
    · exact ⟨freed, free, rfl, spared⟩

/-- Free slots are different slots of the table. -/
theorem Sound.spare_le (sound : Sound outputs done later a) : spare a.free ≤ Slot.total a.slots := by
  let slots : List Slot := a.free.map fun entry => ⟨entry.2, entry.1, .scratch⟩
  have once : slots.Nodup := by
    refine List.Nodup.of_map (fun slot => slot.index.toNat) ?_
    rw [List.map_map]
    exact sound.once
  have inside : slots ⊆ a.slots := by
    intro slot member
    obtain ⟨entry, listed, rfl⟩ := List.mem_map.mp member
    exact List.mem_of_getElem? (sound.free entry listed)
  have sized : ∀ slot ∈ a.slots, 0 ≤ slot.size := by
    intro slot member
    obtain ⟨i, here⟩ := List.mem_iff_getElem?.mp member
    obtain ⟨n, placed, rfl⟩ := sound.used i (List.getElem?_eq_some_iff.mp here).1
    cases here.symm.trans (sound.spec n placed)
    exact Int.natCast_nonneg _
  have same : Slot.total slots = spare a.free := by
    rw [Slot.total, List.map_map]
    rfl
  exact same ▸ Slot.total_le once inside sized

/-- One round of the loop. Were more freed than is live, the rest would still be slots of the table. -/
theorem Accounted.stepped (accounted : Accounted outputs done a) (awaits : a.Awaits (n :: later))
    (sound : Sound outputs (n :: done) later (step outputs a n)) :
    Accounted outputs (n :: done) (step outputs a n) := by
  have charged := accounted.advanced (n := n)
  have fits := sound.spare_le
  rw [awaits.step_eq] at fits ⊢
  generalize a.advance outputs n = b at charged fits ⊢
  obtain ⟨freed, free, same, spared⟩ := exists_released (a := b) outputs (expiring later n.inputs)
  rw [same] at fits ⊢
  have live := charged.live
  refine ⟨charged.placed, charged.scratch, ?_, charged.peak⟩
  change ((b.live - freed : Nat) : Int) + spare free ≤ Slot.total b.slots
  change spare free ≤ Slot.total b.slots at fits
  omega

theorem Accounted.ran (accounted : Accounted outputs done a) (arena : Arena family)
    (own : ∀ m ∈ later.reverse ++ done, family m) (settled : Node.Settled (later.reverse ++ done))
    (sound : Sound outputs done later a) : Accounted outputs (later.reverse ++ done) (run outputs later a) := by
  induction later generalizing done a with
  | nil => exact accounted
  | cons n later ih =>
    rw [List.reverse_cons, List.append_assoc, List.singleton_append] at own settled ⊢
    have here := settled.append
    have stepped := (sound.stepped arena (fun m member => own m (List.mem_append_right _ member))
      (fun m member => own m (List.mem_append_left _ (List.mem_reverse.mpr member))) here.1 here.2.1).1
    exact ih (accounted.stepped sound.awaits stepped) own settled stepped

theorem ofOrder_accounted (arena : Arena family) (own : ∀ o ∈ outputs, family o) :
    Accounted outputs (Node.order outputs).reverse (ofOrder (Node.order outputs) outputs) := by
  have whole : (Node.order outputs).reverse ++ [] = (Node.order outputs).reverse := List.append_nil _
  have ran := (accounted_start outputs (Node.order outputs)).ran arena
    (fun m member => Node.order_own arena own m (List.mem_reverse.mp (whole ▸ member)))
    (whole.symm ▸ Node.order_settled arena own) (sound_start outputs (Node.order outputs))
  rwa [whole] at ran

end Assignment

namespace Plan
variable {family : Node → Prop} {kernels : Kernels} {device : Device} {devices : Devices} {outputs : List Node}
  {p : Plan}

theorem ofOutputs_statistics (made : ofOutputs kernels device devices outputs = .ok p) :
    p.statistics = (Assignment.ofOrder (Node.order outputs) outputs).statistics (Node.order outputs) := by
  obtain ⟨steps, _, same⟩ := Result.bind_eq_ok.mp made
  cases same
  rfl

theorem length_roles (nodes outputs : List Node) : nodes.length = nodes.countP Node.isLeaf +
    (nodes.countP fun n => !n.isLeaf && n.isIn outputs) + nodes.countP fun n => !n.isLeaf && !n.isIn outputs := by
  induction nodes with
  | nil => rfl
  | cons n rest ih =>
    simp only [List.length_cons, List.countP_cons]
    cases n.isLeaf <;> cases n.isIn outputs <;> simp <;> omega

/-- Requested nodes of an order are counted once, however often they are requested. -/
theorem countP_requested (arena : Arena family) (own : ∀ o ∈ outputs, family o) :
    ((Node.order outputs).countP fun n => !n.isLeaf && n.isIn outputs) =
      ((outputs.filter fun n => !n.isLeaf).map Node.id).toFinset.card := by
  have settled := Node.order_settled arena own
  have mine := Node.order_own arena own
  let requested := (Node.order outputs).filter fun n => !n.isLeaf && n.isIn outputs
  have listed : ∀ n, n ∈ requested ↔ n ∈ outputs.filter fun n => !n.isLeaf := by
    intro n
    simp only [requested, List.mem_filter, Bool.and_eq_true]
    constructor
    · rintro ⟨ordered, interior, output⟩
      exact ⟨(arena.isIn_iff_mem (mine n ordered) own).mp output, interior⟩
    · rintro ⟨output, interior⟩
      exact ⟨Node.mem_order_of_mem arena own output, interior, Node.isIn_of_mem output⟩
  have once : (requested.map Node.id).Nodup := by
    refine ((List.nodup_reverse.mp settled.nodup).filter _).map_on fun n first m second => ?_
    exact arena.identity (mine n (List.mem_filter.mp first).1) (mine m (List.mem_filter.mp second).1)
  calc ((Node.order outputs).countP fun n => !n.isLeaf && n.isIn outputs) = (requested.map Node.id).length := by
        rw [List.length_map, List.countP_eq_length_filter]
    _ = (requested.map Node.id).toFinset.card := (List.toFinset_card_of_nodup once).symm
    _ = ((outputs.filter fun n => !n.isLeaf).map Node.id).toFinset.card := by
      congr 1
      ext id
      simp only [List.mem_toFinset, List.mem_map, listed]

/-- What the statistics of a plan say of its nodes and slots: each leaf has a slot, and each interior node that is
requested; every other node has made a scratch slot or takes one again, and the slots hold what is live at once. -/
structure Counted (p : Plan) : Prop where
  slots : p.statistics.slots = (Node.order p.outputs).countP Node.isLeaf +
    ((p.outputs.filter fun n => !n.isLeaf).map Node.id).toFinset.card + p.statistics.scratchSlots
  reused : p.statistics.reusedSlots + p.statistics.scratchSlots =
    (Node.order p.outputs).countP fun n => !n.isLeaf && !n.isIn p.outputs
  peak : p.statistics.peakLiveBytes ≤ Slot.total p.slots

theorem ofOutputs_counted (arena : Arena family) (own : ∀ o ∈ outputs, family o)
    (made : ofOutputs kernels device devices outputs = .ok p) : p.Counted := by
  have laid := (ofOutputs_eq_ok made).1
  have accounted := Assignment.ofOrder_accounted arena own
  have placed := accounted.placed
  have scratch := accounted.scratch
  have roles : ∀ n, (decide (Assignment.roleOf outputs n = .scratch) = true) ↔
      (!n.isLeaf && !n.isIn outputs) = true := by
    intro n
    unfold Assignment.roleOf
    cases n.isLeaf <;> cases n.isIn outputs <;> simp
  rw [List.countP_reverse, List.countP_congr fun n _ => roles n] at scratch
  rw [List.length_reverse, length_roles (Node.order outputs) outputs, countP_requested arena own] at placed
  constructor <;> rw [ofOutputs_statistics made]
  · rw [laid.requested]
    change (Assignment.ofOrder (Node.order outputs) outputs).slots.length = _ +
      (Assignment.ofOrder (Node.order outputs) outputs).scratchSizes.length
    omega
  · rw [laid.requested]
    exact scratch
  · rw [laid.slots]
    exact accounted.peak

end Plan
end TensorDag
