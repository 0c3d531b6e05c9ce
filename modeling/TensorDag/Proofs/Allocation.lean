import TensorDag.Proofs.Counting
import TensorDag.Proofs.Order

/-!
The assignment of slots keeps values apart: a value that is still to be read is the last one that
was put into its slot, and its slot is not free. `Assignment.Sound` is the invariant of the loop; the
counts of reads tell it which values those are.
-/
namespace TensorDag

/-- Whether one of some nodes reads a node. -/
def Node.Read (later : List Node) (x : Node) : Prop := ∃ n ∈ later, x ∈ n.inputs

theorem Node.isRead_iff {family : Node → Prop} {later : List Node} {x : Node} (arena : Arena family)
    (own : family x) (all : ∀ m ∈ later, family m) : x.isRead later = true ↔ Read later x := by
  rw [isRead, List.any_eq_true]
  exact exists_congr fun m => and_congr_right fun member =>
    arena.isIn_iff_mem own fun _ input => arena.inputs (all m member) input

theorem Node.Read.cons {later : List Node} {x : Node} (read : Read later x) (n : Node) :
    Read (n :: later) x := by
  obtain ⟨m, member, input⟩ := read
  exact ⟨m, List.mem_cons_of_mem _ member, input⟩

/-- Of the nodes that were placed, the last first, a node is the last one in its slot. -/
def Node.Held (slot : Node → Nat) (done : List Node) (x : Node) : Prop :=
  (done.map fun n => (slot n, n)).lookup (slot x) = some x

theorem Node.Held.cons {slot : Node → Nat} {done : List Node} {x n : Node} (held : Held slot done x)
    (apart : slot n ≠ slot x) : Held slot (n :: done) x := by
  have unequal : (slot x == slot n) = false := by simpa using Ne.symm apart
  simpa [Held, List.lookup_cons, unequal] using held

theorem Node.Held.self (slot : Node → Nat) (done : List Node) (n : Node) : Held slot (n :: done) n := by
  simp [Held]

theorem Node.Held.eq {slot : Node → Nat} {done : List Node} {x y : Node} (first : Held slot done x)
    (second : Held slot done y) (same : slot x = slot y) : x = y := by
  rw [Held, same, second] at first
  exact (Option.some.inj first).symm

theorem Node.Held.congr {slot slot' : Node → Nat} {done : List Node} {x : Node}
    (held : Held slot done x) (agree : ∀ n ∈ done, slot' n = slot n) (own : slot' x = slot x) :
    Held slot' done x := by
  have table : (done.map fun n => (slot' n, n)) = done.map fun n => (slot n, n) :=
    List.map_congr_left fun n member => by rw [agree n member]
  rw [Held, table, own]
  exact held

/-- Every node of an order finds its inputs where they were put, and is put elsewhere itself. -/
def Node.Flows (slot : Node → Nat) : List Node → List Node → Prop
  | _, [] => True
  | done, n :: later =>
    (∀ x ∈ n.inputs, Held slot done x ∧ slot n ≠ slot x) ∧ Flows slot (n :: done) later

namespace Assignment

/-- The loop's invariant, between the nodes that were placed, the last first, and those to come. -/
structure Sound (outputs done later : List Node) (a : Assignment) : Prop where
  awaits : a.Awaits later
  table : ∀ (i : Nat) (slot : Slot), a.slots[i]? = some slot → slot.index = i ∧ slot.role.isKnown
  spec : ∀ n ∈ done, a.slots[a.slotOf n]? = some ⟨a.slotOf n, n.byteSize, roleOf outputs n⟩
  dedicated : ∀ n ∈ done, roleOf outputs n ≠ .scratch → ∀ m ∈ done, a.slotOf m = a.slotOf n → m = n
  held : ∀ x ∈ done, Node.Read later x → Node.Held a.slotOf done x
  free : ∀ entry ∈ a.free, a.slots[entry.2]? = some ⟨entry.2, entry.1, .scratch⟩
  idle : ∀ entry ∈ a.free, ∀ x ∈ done, Node.Read later x → a.slotOf x ≠ entry.2
  once : (a.free.map Prod.snd).Nodup
  used : ∀ i < a.slots.length, ∃ n ∈ done, a.slotOf n = i

theorem roleOf_isKnown (outputs : List Node) (n : Node) : (roleOf outputs n).isKnown = true := by
  unfold roleOf
  split
  · rfl
  · split <;> rfl

theorem sound_start (outputs order : List Node) : Sound outputs [] order (start order) := by
  refine ⟨awaits_start order, ?_, ?_, ?_, ?_, ?_, ?_, ?_, ?_⟩ <;> simp [start]

theorem takeFree_eq_some {size slot : Nat} {free rest : List (Nat × Nat)}
    (taken : takeFree size free = some (slot, rest)) :
    ∃ before after, free = before ++ (size, slot) :: after ∧ rest = before ++ after := by
  induction free generalizing rest with
  | nil => simp [takeFree] at taken
  | cons head tail ih =>
    obtain ⟨s, k⟩ := head
    by_cases same : s = size
    · subst same
      simp only [takeFree, if_pos, Option.some.injEq, Prod.mk.injEq] at taken
      obtain ⟨rfl, rfl⟩ := taken
      exact ⟨[], tail, rfl, rfl⟩
    · simp only [takeFree, if_neg same, Option.map_eq_some_iff, Prod.mk.injEq] at taken
      obtain ⟨⟨slot', others⟩, inner, rfl, rfl⟩ := taken
      obtain ⟨before, after, split, kept⟩ := ih inner
      exact ⟨(s, k) :: before, after, by simp [split], by simp [kept]⟩

section
variable {family : Node → Prop} {outputs done later : List Node} {a : Assignment} {n : Node}

theorem slotOf_cons_self (needed : Counts) (k : Nat) (slots : List Slot) (free : List (Nat × Nat))
    (reused live peak : Nat) :
    slotOf ⟨needed, (n.id, k) :: a.places, slots, free, reused, live, peak⟩ n = k := by
  simp [slotOf]

theorem slotOf_cons_ne {m : Node} (differ : m.id ≠ n.id) (needed : Counts) (k : Nat) (slots : List Slot)
    (free : List (Nat × Nat)) (reused live peak : Nat) :
    slotOf ⟨needed, (n.id, k) :: a.places, slots, free, reused, live, peak⟩ m = a.slotOf m := by
  have unequal : (m.id == n.id) = false := by simpa using differ
  simp [slotOf, List.lookup_cons, unequal]

/-- What placing a node comes to: it has a slot of its size and role, which no value that is still
to be read holds; the slots of others and all that the table had stay. -/
structure Placed (outputs done later : List Node) (a : Assignment) (n : Node) (b : Assignment) :
    Prop where
  others : ∀ m, m.id ≠ n.id → b.slotOf m = a.slotOf m
  table : ∀ (i : Nat) (slot : Slot), a.slots[i]? = some slot → b.slots[i]? = some slot
  known : ∀ (i : Nat) (slot : Slot), b.slots[i]? = some slot → slot.index = i ∧ slot.role.isKnown
  spec : b.slots[b.slotOf n]? = some ⟨b.slotOf n, n.byteSize, roleOf outputs n⟩
  apart : ∀ x ∈ done, Node.Read later x → b.slotOf n ≠ a.slotOf x
  dedicated : ∀ m ∈ done, roleOf outputs n ≠ .scratch ∨ roleOf outputs m ≠ .scratch →
    b.slotOf n ≠ a.slotOf m
  free : ∀ entry ∈ b.free, entry ∈ a.free ∧ entry.2 ≠ b.slotOf n
  once : (b.free.map Prod.snd).Nodup
  used : ∀ i < b.slots.length, b.slotOf n = i ∨ i < a.slots.length

theorem Sound.extended (sound : Sound outputs done later a) :
    Placed outputs done later a n (a.extend n (roleOf outputs n)) := by
  have new : (a.extend n (roleOf outputs n)).slotOf n = a.slots.length := by simp [extend, slotOf]
  have earlier : ∀ m ∈ done, a.slotOf m < a.slots.length := fun m member =>
    (List.getElem?_eq_some_iff.mp (sound.spec m member)).1
  have kept : ∀ (i : Nat) (slot : Slot), a.slots[i]? = some slot →
      (a.extend n (roleOf outputs n)).slots[i]? = some slot := by
    intro i slot found
    have inside := (List.getElem?_eq_some_iff.mp found).1
    simpa [extend, List.getElem?_append_left inside] using found
  refine ⟨fun m differ => slotOf_cons_ne differ .., kept, ?_, ?_, ?_, ?_, ?_, sound.once, ?_⟩
  · intro i slot found
    by_cases inside : i < a.slots.length
    · exact sound.table i slot (by simpa [extend, List.getElem?_append_left inside] using found)
    · simp only [extend, List.getElem?_append_right (Nat.le_of_not_lt inside)] at found
      have here : i = a.slots.length := by
        have bound := (List.getElem?_eq_some_iff.mp found).1
        simp at bound
        omega
      subst here
      simp only [Nat.sub_self, List.getElem?_cons_zero, Option.some.injEq] at found
      subst found
      exact ⟨rfl, roleOf_isKnown outputs n⟩
  · rw [new]
    simp [extend]
  · intro x member _
    have bound := earlier x member
    omega
  · intro m member _
    have bound := earlier m member
    omega
  · intro entry member
    have bound := (List.getElem?_eq_some_iff.mp (sound.free entry member)).1
    exact ⟨member, by omega⟩
  · intro i inside
    have length : (a.extend n (roleOf outputs n)).slots.length = a.slots.length + 1 := by simp [extend]
    omega

theorem Sound.placed (sound : Sound outputs done later a) :
    Placed outputs done later a n (a.place outputs n) := by
  have extended := sound.extended (n := n)
  unfold place
  split
  · rename_i role
    split
    · rename_i slot rest taken
      obtain ⟨before, after, all, others⟩ := takeFree_eq_some taken
      have member : (n.byteSize, slot) ∈ a.free := by simp [all]
      have found := sound.free _ member
      have once := sound.once
      rw [all, List.map_append, List.map_cons, List.perm_middle.nodup_iff] at once
      have gone := (List.nodup_cons.mp once).1
      rw [← List.map_append, ← others] at gone
      refine ⟨fun m differ => slotOf_cons_ne differ .., fun _ _ kept => kept, sound.table, ?_, ?_, ?_,
        ?_, ?_, fun _ => .inr⟩
      · rw [slotOf_cons_self, role]
        exact found
      · intro x present read
        rw [slotOf_cons_self]
        exact Ne.symm (sound.idle _ member x present read)
      · intro m present special same
        rw [slotOf_cons_self] at same
        have own := sound.spec m present
        rw [← same, found] at own
        have scratch : roleOf outputs m = .scratch := by
          simpa using (congrArg Slot.role (Option.some.inj own)).symm
        simp [role, scratch] at special
      · intro entry present
        rw [slotOf_cons_self]
        refine ⟨?_, fun same => gone (List.mem_map.mpr ⟨entry, present, same⟩)⟩
        rw [others] at present
        rw [all]
        exact (List.mem_append.mp present).elim (List.mem_append_left _) fun tail =>
          List.mem_append_right _ (List.mem_cons_of_mem _ tail)
      · rw [others, List.map_append]
        exact (List.nodup_cons.mp once).2
    · rw [role] at extended
      exact extended
  · exact extended

/-- Inputs expire that no later node reads, each of them once. -/
theorem expiring_spec (arena : Arena family) {inputs : List Node} (own : ∀ x ∈ inputs, family x)
    (all : ∀ m ∈ later, family m) :
    (expiring later inputs).Nodup ∧
      ∀ x, x ∈ expiring later inputs ↔ x ∈ inputs ∧ ¬Node.Read later x := by
  induction inputs with
  | nil => simp [expiring]
  | cons x rest ih =>
    have mine := own x (List.mem_cons_self ..)
    have others : ∀ y ∈ rest, family y := fun y member => own y (List.mem_cons_of_mem _ member)
    obtain ⟨once, members⟩ := ih others
    have again : x.isIn rest = true ↔ x ∈ rest := arena.isIn_iff_mem mine others
    have read := Node.isRead_iff arena mine all
    rw [expiring]
    split
    · rename_i goes
      rw [Bool.or_eq_true, again, read] at goes
      refine ⟨once, fun y => ?_⟩
      rw [members, List.mem_cons]
      constructor
      · rintro ⟨member, unread⟩
        exact ⟨.inr member, unread⟩
      · rintro ⟨same | member, unread⟩
        · subst same
          exact ⟨goes.resolve_right unread, unread⟩
        · exact ⟨member, unread⟩
    · rename_i stays
      rw [Bool.or_eq_true, again, read, not_or] at stays
      refine ⟨List.nodup_cons.mpr ⟨fun member => stays.1 ((members x).mp member).1, once⟩, fun y => ?_⟩
      rw [List.mem_cons, members, List.mem_cons]
      constructor
      · rintro (same | ⟨member, unread⟩)
        · exact ⟨.inl same, same ▸ stays.2⟩
        · exact ⟨.inr member, unread⟩
      · rintro ⟨same | member, unread⟩
        · exact .inl same
        · exact .inr ⟨member, unread⟩

@[simp] theorem slotOf_release (m : Node) : (a.release outputs m).slotOf = a.slotOf := by
  unfold release
  split <;> rfl

@[simp] theorem slots_release (m : Node) : (a.release outputs m).slots = a.slots := by
  unfold release
  split <;> rfl

@[simp] theorem slotOf_charge (m : Node) : (a.charge m).slotOf = a.slotOf := rfl

@[simp] theorem slotOf_countOff (xs : List Node) : (a.countOff xs).slotOf = a.slotOf := rfl

@[simp] theorem slotOf_advance (m : Node) : (a.advance outputs m).slotOf = (a.place outputs m).slotOf := rfl

/-- A slot is freed when nothing is read from it any more. -/
theorem Sound.released (sound : Sound outputs done later a) {x : Node} (member : x ∈ done)
    (held : Node.Held a.slotOf done x) (unread : ¬Node.Read later x)
    (busy : ∀ entry ∈ a.free, entry.2 ≠ a.slotOf x) :
    Sound outputs done later (a.release outputs x) := by
  have spec := sound.spec x member
  unfold release
  split
  · rename_i role
    rw [role] at spec
    refine ⟨sound.awaits, sound.table, sound.spec, sound.dedicated, sound.held, ?_, ?_, ?_, sound.used⟩
    · intro entry freed
      rcases List.mem_cons.mp freed with same | old
      · subst same
        exact spec
      · exact sound.free entry old
    · intro entry freed y present read
      rcases List.mem_cons.mp freed with same | old
      · subst same
        intro equal
        exact unread ((sound.held y present read).eq held equal ▸ read)
      · exact sound.idle entry old y present read
    · rw [List.map_cons, List.nodup_cons]
      refine ⟨fun listed => ?_, sound.once⟩
      obtain ⟨entry, old, same⟩ := List.mem_map.mp listed
      exact busy entry old same
  · exact sound

theorem mem_free_release {x : Node} {entry : Nat × Nat}
    (member : entry ∈ (a.release outputs x).free) : entry ∈ a.free ∨ entry.2 = a.slotOf x := by
  unfold release at member
  split at member
  · rcases List.mem_cons.mp member with same | old
    · exact .inr (by rw [same])
    · exact .inl old
  · exact .inl member

/-- Several slots are freed, one after the other. -/
theorem Sound.releasedAll (sound : Sound outputs done later a) {xs : List Node} (once : xs.Nodup)
    (expired : ∀ x ∈ xs, x ∈ done ∧ Node.Held a.slotOf done x ∧ ¬Node.Read later x ∧
      ∀ entry ∈ a.free, entry.2 ≠ a.slotOf x) :
    Sound outputs done later (xs.foldl (release · outputs) a) := by
  induction xs generalizing a with
  | nil => exact sound
  | cons x rest ih =>
    obtain ⟨member, held, unread, busy⟩ := expired x (List.mem_cons_self ..)
    have distinct := List.nodup_cons.mp once
    refine ih (sound.released member held unread busy) distinct.2 fun y listed => ?_
    obtain ⟨present, mine, spent, apart⟩ := expired y (List.mem_cons_of_mem _ listed)
    rw [slotOf_release]
    refine ⟨present, mine, spent, fun entry freed => ?_⟩
    rcases mem_free_release freed with old | new
    · exact apart entry old
    · intro same
      exact distinct.1 (held.eq mine (new.symm.trans same) ▸ listed)

@[simp] theorem slotOf_releaseAll (xs : List Node) :
    (xs.foldl (release · outputs) a).slotOf = a.slotOf := by
  induction xs generalizing a with
  | nil => rfl
  | cons x rest ih => rw [List.foldl_cons, ih, slotOf_release]

/-- Placing a node keeps the invariant; what the node reads is held, in slots other than its own. -/
theorem Sound.placedStep (arena : Arena family) (own : ∀ m ∈ n :: done, family m) (new : n ∉ done)
    (sound : Sound outputs done (n :: later) a) (before : ∀ x ∈ n.inputs, x ∈ done) :
    Sound outputs (n :: done) later (a.advance outputs n) ∧
      ∀ x ∈ n.inputs, Node.Held (a.place outputs n).slotOf (n :: done) x ∧
        (a.place outputs n).slotOf n ≠ (a.place outputs n).slotOf x ∧
        ∀ entry ∈ (a.place outputs n).free, entry.2 ≠ (a.place outputs n).slotOf x := by
  have placed := sound.placed (n := n)
  have awaits : Awaits later (a.advance outputs n) := sound.awaits.advanced
  unfold advance at awaits ⊢
  generalize a.place outputs n = b at placed awaits
  have others : ∀ m ∈ done, b.slotOf m = a.slotOf m := by
    intro m member
    refine placed.others m fun same => new ?_
    exact arena.identity (own m (List.mem_cons_of_mem _ member)) (own n (List.mem_cons_self ..)) same ▸
      member
  have held : ∀ x ∈ done, Node.Read (n :: later) x → Node.Held b.slotOf (n :: done) x := by
    intro x member read
    refine Node.Held.cons ((sound.held x member read).congr others (others x member)) ?_
    rw [others x member]
    exact placed.apart x member read
  refine ⟨⟨awaits, placed.known, ?_, ?_, ?_, ?_, ?_, placed.once, ?_⟩, ?_⟩
  · intro m member
    rcases List.mem_cons.mp member with same | member
    · exact same ▸ placed.spec
    · have spec := placed.table _ _ (sound.spec m member)
      rw [← others m member] at spec
      exact spec
  · intro m member special m' member' same
    rcases List.mem_cons.mp member with first | old <;>
      rcases List.mem_cons.mp member' with second | older
    · exact second.trans first.symm
    · subst first
      rw [slotOf_countOff, slotOf_charge, others m' older] at same
      exact absurd same.symm (placed.dedicated m' older (.inl special))
    · subst second
      rw [slotOf_countOff, slotOf_charge, others m old] at same
      exact absurd same (placed.dedicated m old (.inr special))
    · rw [slotOf_countOff, slotOf_charge, others m old, others m' older] at same
      exact sound.dedicated m old special m' older same
  · intro x member read
    rcases List.mem_cons.mp member with same | member
    · exact same ▸ Node.Held.self ..
    · exact held x member (read.cons n)
  · intro entry freed
    exact placed.table _ _ (sound.free entry (placed.free entry freed).1)
  · intro entry freed x member read
    obtain ⟨old, taken⟩ := placed.free entry freed
    rcases List.mem_cons.mp member with same | member
    · subst same
      exact Ne.symm taken
    · rw [slotOf_countOff, slotOf_charge, others x member]
      exact sound.idle entry old x member (read.cons n)
  · intro i inside
    rcases placed.used i inside with same | old
    · exact ⟨n, List.mem_cons_self .., same⟩
    · obtain ⟨m, member, same⟩ := sound.used i old
      exact ⟨m, List.mem_cons_of_mem _ member, (others m member).trans same⟩
  · intro x input
    have member := before x input
    have read : Node.Read (n :: later) x := ⟨n, List.mem_cons_self .., input⟩
    refine ⟨held x member read, ?_, fun entry freed => ?_⟩
    · rw [others x member]
      exact placed.apart x member read
    · rw [others x member]
      exact Ne.symm (sound.idle entry (placed.free entry freed).1 x member read)

/-- One round of the loop. -/
theorem Sound.stepped (arena : Arena family) (own : ∀ m ∈ n :: done, family m)
    (ahead : ∀ m ∈ later, family m) (new : n ∉ done) (sound : Sound outputs done (n :: later) a)
    (before : ∀ x ∈ n.inputs, x ∈ done) :
    Sound outputs (n :: done) later (step outputs a n) ∧
      (∀ m ∈ done, (step outputs a n).slotOf m = a.slotOf m) ∧
      ∀ x ∈ n.inputs, Node.Held (step outputs a n).slotOf done x ∧
        (step outputs a n).slotOf n ≠ (step outputs a n).slotOf x := by
  obtain ⟨placed, reads⟩ := sound.placedStep arena own new before
  have expiry : (expiring later n.inputs).Nodup ∧
      ∀ x, x ∈ expiring later n.inputs ↔ x ∈ n.inputs ∧ ¬Node.Read later x :=
    expiring_spec arena (fun x input => arena.inputs (own n (List.mem_cons_self ..)) input) ahead
  obtain ⟨once, expired⟩ := expiry
  have others : ∀ m ∈ done, (a.place outputs n).slotOf m = a.slotOf m := by
    intro m member
    refine (sound.placed (n := n)).others m fun same => new ?_
    exact arena.identity (own m (List.mem_cons_of_mem _ member)) (own n (List.mem_cons_self ..)) same ▸
      member
  rw [sound.awaits.step_eq]
  refine ⟨placed.releasedAll once fun x listed => ?_, ?_, ?_⟩
  · obtain ⟨input, unread⟩ := (expired x).mp listed
    obtain ⟨held, _, busy⟩ := reads x input
    exact ⟨List.mem_cons_of_mem _ (before x input), held, unread, busy⟩
  · simpa using others
  · intro x input
    rw [slotOf_releaseAll, slotOf_advance]
    have member := before x input
    have held := sound.held x member ⟨n, List.mem_cons_self .., input⟩
    exact ⟨held.congr others (others x member), (reads x input).2.1⟩

/-- The whole loop: it ends soundly, leaves earlier slots as they are, and every node that it places
finds its inputs. -/
theorem Sound.ran (arena : Arena family) (own : ∀ m ∈ later.reverse ++ done, family m)
    (settled : Node.Settled (later.reverse ++ done)) (sound : Sound outputs done later a) :
    Sound outputs (later.reverse ++ done) [] (run outputs later a) ∧
      (∀ m ∈ done, (run outputs later a).slotOf m = a.slotOf m) ∧
      Node.Flows (run outputs later a).slotOf done later := by
  induction later generalizing done a with
  | nil => exact ⟨sound, fun _ _ => rfl, trivial⟩
  | cons n later ih =>
    rw [List.reverse_cons, List.append_assoc, List.singleton_append] at own settled ⊢
    have here := settled.append
    obtain ⟨stepped, kept, reads⟩ := sound.stepped arena
      (fun m member => own m (List.mem_append_right _ member))
      (fun m member => own m (List.mem_append_left _ (List.mem_reverse.mpr member)))
      here.1 here.2.1
    obtain ⟨final, same, flows⟩ := ih own settled stepped
    have mine := same n (List.mem_cons_self ..)
    have others : ∀ m ∈ done, (run outputs later (step outputs a n)).slotOf m =
        (step outputs a n).slotOf m :=
      fun m member => same m (List.mem_cons_of_mem _ member)
    refine ⟨final, fun m member => (others m member).trans (kept m member), fun x input => ?_, flows⟩
    have member := here.2.1 x input
    obtain ⟨held, apart⟩ := reads x input
    refine ⟨held.congr others (others x member), ?_⟩
    change (run outputs later _).slotOf n ≠ (run outputs later _).slotOf x
    rw [mine, others x member]
    exact apart

theorem ofOrder_sound (arena : Arena family) (own : ∀ o ∈ outputs, family o) :
    Sound outputs (Node.order outputs).reverse [] (ofOrder (Node.order outputs) outputs) ∧
      Node.Flows (ofOrder (Node.order outputs) outputs).slotOf [] (Node.order outputs) := by
  have whole : (Node.order outputs).reverse ++ [] = (Node.order outputs).reverse := List.append_nil _
  obtain ⟨sound, _, flows⟩ := Sound.ran arena
    (fun m member => Node.order_own arena own m (List.mem_reverse.mp (whole ▸ member)))
    (whole.symm ▸ Node.order_settled arena own) (sound_start outputs (Node.order outputs))
  rw [whole] at sound
  exact ⟨sound, flows⟩

end
end Assignment
end TensorDag
