import Mathlib
import TensorDag.Proofs.Compilation
import TensorDag.Proofs.PostOrder

/-!
How many scratch slots are made. Of each size the loop makes as many as there are values of it live at
once: it makes a slot only when none of the size is free, and a slot is free as soon as its value was
read for the last time.
-/
namespace TensorDag

namespace Node

def isScratch (outputs : List Node) (size : Nat) (n : Node) : Bool :=
  !n.isLeaf && !n.isIn outputs && n.byteSize == size

/-- Live at a place of an order: standing there or before, and read there or behind. -/
def isLive (order : List Node) (place : Nat) (n : Node) : Bool :=
  n.isIn (order.take (place + 1)) && n.isRead (order.drop place)

/-- The nodes of a size that are live at a place of an order, of those in scratch slots. -/
def liveAt (outputs order : List Node) (size place : Nat) : List Node :=
  order.filter fun n => n.isScratch outputs size && n.isLive order place

section
variable {family : Node → Prop} {outputs order before after done later : List Node} {n x y : Node}
  {size place : Nat} {slot : Node → Nat}

theorem roleOf_eq_scratch : Assignment.roleOf outputs n = .scratch ↔ n.isScratch outputs n.byteSize = true := by
  unfold Assignment.roleOf isScratch
  cases n.isLeaf <;> cases n.isIn outputs <;> simp

theorem isScratch_byteSize (scratch : n.isScratch outputs size = true) : n.byteSize = size := by
  unfold isScratch at scratch
  simpa using (Bool.and_eq_true_iff.mp scratch).2

theorem isScratch_of_role (role : Assignment.roleOf outputs n = .scratch) (size : Nat) :
    n.isScratch outputs size = (n.byteSize == size) := by
  have here := roleOf_eq_scratch.mp role
  unfold isScratch at here ⊢
  rw [(Bool.and_eq_true_iff.mp here).1, Bool.true_and]

theorem isScratch_of_other (role : Assignment.roleOf outputs n ≠ .scratch) (size : Nat) :
    n.isScratch outputs size = false := by
  by_contra scratch
  rw [Bool.not_eq_false] at scratch
  exact role (roleOf_eq_scratch.mpr (isScratch_byteSize scratch ▸ scratch))

/-- At its own place a node is live if it is read behind it; what stands behind it is not live yet. -/
theorem length_liveAt (arena : Arena family) (own : ∀ m ∈ done.reverse ++ n :: later, family m)
    (once : (done.reverse ++ n :: later).Nodup) :
    (liveAt outputs (done.reverse ++ n :: later) size done.length).length =
      (n :: done).countP fun x => x.isScratch outputs size && x.isRead (n :: later) := by
  have reached : (done.reverse ++ n :: later).take (done.length + 1) = done.reverse ++ [n] := by
    rw [List.take_append, List.length_reverse, List.take_of_length_le (by simp), Nat.add_sub_cancel_left,
      List.take_succ_cons, List.take_zero]
  have ahead : (done.reverse ++ n :: later).drop done.length = n :: later :=
    List.drop_left' (List.length_reverse ..)
  have inside : ∀ m ∈ done.reverse ++ [n], family m := fun m member => own m (by
    rw [← List.singleton_append, ← List.append_assoc]
    exact List.mem_append_left _ member)
  have none : (later.countP fun x => x.isScratch outputs size && (x.isIn (done.reverse ++ [n]) &&
      x.isRead (n :: later))) = 0 := by
    rw [List.countP_eq_zero]
    intro x member live
    have met : x.isIn (done.reverse ++ [n]) = true := by
      simp only [Bool.and_eq_true] at live
      exact live.2.1
    rw [arena.isIn_iff_mem (own x (by simp [member])) inside] at met
    rw [← List.singleton_append, ← List.append_assoc] at once
    exact List.disjoint_of_nodup_append once met member
  have whole : done.reverse ++ n :: later = (n :: done).reverse ++ later := by simp
  unfold liveAt isLive
  rw [← List.countP_eq_length_filter, reached, ahead, whole, List.countP_append, none, Nat.add_zero,
    List.countP_reverse]
  refine List.countP_congr fun x member => ?_
  rw [isIn_of_mem (by simpa [or_comm] using member), Bool.true_and]

theorem Reaches.last {o : Node} (path : Reaches o n) : o = n ∨ ∃ m, Reaches o m ∧ n ∈ m.inputs := by
  induction path with
  | self => exact .inl rfl
  | @input x _ o member path ih =>
    rcases ih with same | ⟨m, further, input⟩
    · exact .inr ⟨o, .self, same ▸ member⟩
    · exact .inr ⟨m, .input member further, input⟩

/-- A node that is not requested is needed by a reader, which stands behind it. -/
theorem read_behind (arena : Arena family) (own : ∀ o ∈ outputs, family o)
    (split : Node.order outputs = before ++ n :: after) (role : Assignment.roleOf outputs n = .scratch) :
    Read after n := by
  have settled := order_settled arena own
  obtain ⟨o, output, path⟩ := (mem_order_iff arena own).mp (show n ∈ Node.order outputs by simp [split])
  rcases path.last with same | ⟨m, above, input⟩
  · have requested : n.isIn outputs = true := isIn_of_mem (same ▸ output)
    rw [roleOf_eq_scratch, isScratch, requested] at role
    simp at role
  · have member : m ∈ Node.order outputs := (mem_order_iff arena own).mpr ⟨o, output, above⟩
    rw [split, List.reverse_append, List.reverse_cons, List.append_assoc, List.singleton_append] at settled
    rw [split] at member
    rcases List.mem_append.mp member with earlier | here
    · have early := settled.append.2.2.reaches (.input input .self) (List.mem_reverse.mpr earlier)
      exact absurd early settled.append.1
    · rcases List.mem_cons.mp here with same | behind
      · exact absurd (sizeOf_input input) (by rw [same]; exact Nat.lt_irrefl _)
      · exact ⟨m, behind, input⟩

theorem Held.apart (held : Held slot (before ++ y :: after) x) (absent : x ∉ before) (other : x ≠ y) :
    slot x ≠ slot y := by
  induction before with
  | nil =>
    intro same
    rw [List.nil_append, Held, same, List.map_cons, List.lookup_cons_self, Option.some.injEq] at held
    exact other held.symm
  | cons z front ih =>
    rw [List.mem_cons, not_or] at absent
    refine ih ?_ absent.2
    rw [List.cons_append, Held, List.map_cons, List.lookup_cons] at held
    split at held
    · exact absurd (Option.some.inj held).symm absent.1
    · exact held

theorem Flows.apart (flows : Flows slot done (before ++ y :: after)) (member : x ∈ before)
    (once : (before ++ y :: after).Nodup) (read : Read (y :: after) x) : slot x ≠ slot y := by
  obtain ⟨m, listed, input⟩ := read
  obtain ⟨_, apart, disjoint⟩ := List.nodup_append.mp once
  rcases List.mem_cons.mp listed with here | behind
  · exact Ne.symm (flows.append.1 x (here ▸ input)).2
  · obtain ⟨front, back, rfl⟩ := List.append_of_mem behind
    have held := (flows.append.2.append.1 x input).1
    refine held.apart (fun inside => ?_) (disjoint x member y (List.mem_cons_self ..))
    exact disjoint x member x (List.mem_cons_of_mem _ (List.mem_append_left _ (List.mem_reverse.mp inside))) rfl

theorem Flows.apart_live (flows : Flows slot [] order) (once : order.Nodup) {i j : Nat} (before : i < j)
    (reached : j ≤ place) (inside : j < order.length) (read : Read (order.drop place) order[i]) :
    slot order[i] ≠ slot order[j] := by
  have split : order.take j ++ order[j] :: order.drop (j + 1) = order := by
    rw [← List.drop_eq_getElem_cons inside, List.take_append_drop]
  have suffix : order.drop place ⊆ order[j] :: order.drop (j + 1) := by
    rw [← List.drop_eq_getElem_cons inside]
    exact List.drop_subset_drop_left _ reached
  have earlier : order[i] ∈ order.take j := List.mem_take_iff_getElem.mpr ⟨i, by omega, rfl⟩
  obtain ⟨m, member, input⟩ := read
  rw [← split] at flows once
  exact flows.apart earlier once ⟨m, suffix member, input⟩

theorem liveAt_apart (arena : Arena family) (own : ∀ m ∈ order, family m) (flows : Flows slot [] order)
    (once : order.Nodup) (first : x ∈ liveAt outputs order size place)
    (second : y ∈ liveAt outputs order size place) (same : slot x = slot y) : x = y := by
  have live : ∀ n ∈ liveAt outputs order size place,
      (∃ i, ∃ inside : i < order.length, i ≤ place ∧ order[i] = n) ∧ Read (order.drop place) n := by
    intro n member
    obtain ⟨listed, both⟩ := List.mem_filter.mp member
    simp only [isLive, Bool.and_eq_true] at both
    have reached := (arena.isIn_iff_mem (own n listed) fun m member => own m (List.mem_of_mem_take member)).mp
      both.2.1
    obtain ⟨i, inside, found⟩ := List.mem_take_iff_getElem.mp reached
    refine ⟨⟨i, by omega, by omega, found⟩, ?_⟩
    exact (isRead_iff arena (own n listed) fun m member => own m (List.mem_of_mem_drop member)).mp both.2.2
  obtain ⟨⟨i, inside, reached, rfl⟩, read⟩ := live x first
  obtain ⟨⟨j, within, arrived, rfl⟩, again⟩ := live y second
  rcases Nat.lt_trichotomy i j with before | equal | behind
  · exact absurd same (flows.apart_live once before arrived within read)
  · subst equal
    rfl
  · exact absurd same.symm (flows.apart_live once behind reached inside again)

end
end Node

namespace Assignment
variable {family : Node → Prop} {outputs order before after done later : List Node} {n x : Node} {size : Nat}
  {a : Assignment}

def made (a : Assignment) (size : Nat) : Nat :=
  a.slots.countP fun slot => slot.role == .scratch && slot.size == (size : Int)

def idle (a : Assignment) (size : Nat) : Nat := a.free.countP fun entry => entry.1 == size

/-- How many of the nodes that were placed are in scratch slots of a size and still to be read. -/
def waiting (outputs : List Node) (size : Nat) (later done : List Node) : Nat :=
  done.countP fun x => x.isScratch outputs size && x.isRead later

theorem made_extend (n : Node) (role : Role) :
    (a.extend n role).made size = a.made size + if role == .scratch && n.byteSize == size then 1 else 0 := by
  unfold made extend
  rw [List.countP_append, List.countP_singleton]
  simp only [Bool.and_eq_true, beq_iff_eq, Int.natCast_inj]

theorem takeFree_eq_none {free : List (Nat × Nat)} (none : takeFree size free = none) :
    free.countP (fun entry => entry.1 == size) = 0 := by
  induction free with
  | nil => rfl
  | cons head rest ih =>
    obtain ⟨s, slot⟩ := head
    by_cases same : s = size
    · simp [takeFree, same] at none
    · rw [takeFree, if_neg same, Option.map_eq_none_iff] at none
      rw [List.countP_cons_of_neg (by simpa using same)]
      exact ih none

/-- A node that takes no scratch slot of a size changes nothing about that size. -/
theorem place_other (other : n.isScratch outputs size = false) :
    (a.place outputs n).made size = a.made size ∧ (a.place outputs n).idle size = a.idle size := by
  unfold place
  split
  · rename_i role
    rw [Node.isScratch_of_role role] at other
    split
    · rename_i slot rest taken
      obtain ⟨before, after, all, others⟩ := takeFree_eq_some taken
      refine ⟨rfl, ?_⟩
      unfold idle
      rw [all, others, List.countP_append, List.countP_append, List.countP_cons_of_neg (by simpa using other)]
    · refine ⟨?_, rfl⟩
      rw [made_extend, other]
      rfl
  · rename_i role
    refine ⟨?_, rfl⟩
    rw [made_extend, beq_eq_false_iff_ne.mpr role]
    rfl

/-- A node that takes one makes it only if none was free. -/
theorem place_scratch (scratch : n.isScratch outputs size = true) :
    (a.idle size = 0 ∧ (a.place outputs n).made size = a.made size + 1 ∧ (a.place outputs n).idle size = 0) ∨
      (a.place outputs n).made size = a.made size ∧ (a.place outputs n).idle size + 1 = a.idle size := by
  have sized := Node.isScratch_byteSize scratch
  have role : roleOf outputs n = .scratch := Node.roleOf_eq_scratch.mpr (sized.symm ▸ scratch)
  simp only [place, role, sized]
  split
  · rename_i slot rest taken
    obtain ⟨before, after, all, others⟩ := takeFree_eq_some taken
    refine .inr ⟨rfl, ?_⟩
    unfold idle
    rw [all, others, List.countP_append, List.countP_append, List.countP_cons_of_pos (by simp), Nat.add_assoc]
  · rename_i none
    have empty : a.idle size = 0 := takeFree_eq_none none
    refine .inl ⟨empty, ?_, empty⟩
    rw [made_extend, sized]
    simp

theorem made_release (xs : List Node) :
    (xs.foldl (release · outputs) a).made size = a.made size := by
  induction xs generalizing a with
  | nil => rfl
  | cons x rest ih => rw [List.foldl_cons, ih, made, slots_release, made]

theorem idle_release (xs : List Node) : (xs.foldl (release · outputs) a).idle size =
    a.idle size + xs.countP (·.isScratch outputs size) := by
  induction xs generalizing a with
  | nil => rfl
  | cons x rest ih =>
    have one : (a.release outputs x).idle size = a.idle size + if x.isScratch outputs size then 1 else 0 := by
      unfold release
      split
      · rename_i role
        rw [idle, List.countP_cons, Node.isScratch_of_role role, idle]
      · rename_i role
        rw [Node.isScratch_of_other role]
        rfl
    rw [List.foldl_cons, ih, one, List.countP_cons]
    omega

/-- What is read now for the last time waits no longer. -/
theorem waiting_expiring (arena : Arena family) (own : ∀ m ∈ n :: done, family m)
    (ahead : ∀ m ∈ later, family m) (once : (n :: done).Nodup) (reads : ∀ x ∈ n.inputs, x ∈ done) :
    waiting outputs size (n :: later) (n :: done) =
      waiting outputs size later (n :: done) + (expiring later n.inputs).countP (·.isScratch outputs size) := by
  have inputs : ∀ x ∈ n.inputs, family x := fun x input => arena.inputs (own n (List.mem_cons_self ..)) input
  obtain ⟨distinct, expired⟩ := expiring_spec arena inputs ahead
  have spent : ((n :: done).filter fun x => x.isIn n.inputs && !x.isRead later).Perm
      (expiring later n.inputs) := by
    refine (List.perm_ext_iff_of_nodup (once.filter _) distinct).mpr fun x => ?_
    rw [List.mem_filter, expired, Bool.and_eq_true, Bool.not_eq_true']
    constructor
    · rintro ⟨member, input, unread⟩
      have mine := own x member
      rw [← Node.isRead_iff arena mine ahead, Bool.not_eq_true]
      exact ⟨(arena.isIn_iff_mem mine inputs).mp input, unread⟩
    · rintro ⟨input, unread⟩
      rw [← Node.isRead_iff arena (inputs x input) ahead, Bool.not_eq_true] at unread
      exact ⟨List.mem_cons_of_mem _ (reads x input), Node.isIn_of_mem input, unread⟩
  rw [← spent.countP_eq, List.countP_filter]
  unfold waiting
  rw [List.countP_eq_countP_filter_add _ _ (Node.isRead later), List.countP_filter, List.countP_filter]
  congr 1 <;> refine List.countP_congr fun x _ => ?_ <;> rw [Node.isRead_cons] <;>
    cases x.isScratch outputs size <;> cases x.isRead later <;> simp

/-- Slots of a size are free or hold what is still to be read. -/
def Balanced (outputs : List Node) (size : Nat) (later done : List Node) (a : Assignment) : Prop :=
  a.made size = a.idle size + waiting outputs size later done

/-- A round of the loop keeps the balance, and makes a slot only where one more value is live than
there were slots. -/
theorem Balanced.stepped (balanced : Balanced outputs size (n :: later) done a) (awaits : a.Awaits (n :: later))
    (arena : Arena family) (own : ∀ m ∈ n :: done, family m) (ahead : ∀ m ∈ later, family m)
    (once : (n :: done).Nodup) (reads : ∀ x ∈ n.inputs, x ∈ done)
    (used : roleOf outputs n = .scratch → Node.Read later n) :
    Balanced outputs size later (n :: done) (step outputs a n) ∧
      (step outputs a n).made size =
        max (a.made size) (waiting outputs size (n :: later) (n :: done)) := by
  have expired : waiting outputs size (n :: later) (n :: done) =
      waiting outputs size later (n :: done) + (expiring later n.inputs).countP (·.isScratch outputs size) :=
    waiting_expiring arena own ahead once reads
  have mine : waiting outputs size (n :: later) (n :: done) =
      waiting outputs size (n :: later) done + if n.isScratch outputs size then 1 else 0 := by
    unfold waiting
    rw [List.countP_cons]
    by_cases scratch : n.isScratch outputs size = true
    · have role : roleOf outputs n = .scratch :=
        Node.roleOf_eq_scratch.mpr ((Node.isScratch_byteSize scratch).symm ▸ scratch)
      have read : n.isRead later = true :=
        (Node.isRead_iff arena (own n (List.mem_cons_self ..)) ahead).mpr (used role)
      rw [scratch, Node.isRead_cons, read, Bool.or_true]
      rfl
    · rw [Bool.not_eq_true] at scratch
      rw [scratch, Bool.false_and]
  unfold Balanced at balanced ⊢
  rw [awaits.step_eq, made_release, idle_release]
  change (a.place outputs n).made size = (a.place outputs n).idle size + _ + _ ∧ (a.place outputs n).made size = _
  by_cases scratch : n.isScratch outputs size = true
  · rw [if_pos scratch] at mine
    have placed := place_scratch (a := a) scratch
    omega
  · rw [if_neg scratch] at mine
    have placed := place_other (a := a) (Bool.not_eq_true _ ▸ scratch)
    omega

/-- The whole loop makes as many slots of a size as there are values of it live at some place to come,
unless there were more before. -/
theorem Balanced.ran (balanced : Balanced outputs size later done a) (awaits : a.Awaits later) (arena : Arena family)
    (split : order = done.reverse ++ later) (own : ∀ m ∈ order, family m)
    (settled : Node.Settled order.reverse)
    (used : ∀ before n after, order = before ++ n :: after → roleOf outputs n = .scratch → Node.Read after n) :
    (run outputs later a).made size = max (a.made size)
      ((Finset.Ico done.length order.length).sup fun place => (Node.liveAt outputs order size place).length) := by
  induction later generalizing done a with
  | nil => simp [run, split]
  | cons n later ih =>
    have here : Node.Settled (n :: done) := by
      rw [split, List.reverse_append, List.reverse_reverse, List.reverse_cons, List.append_assoc,
        List.singleton_append] at settled
      exact settled.append
    have mine : ∀ m ∈ n :: done, family m := fun m member => own m (by
      rw [split, List.append_cons, ← List.reverse_cons]
      exact List.mem_append_left _ (List.mem_reverse.mpr member))
    have ahead : ∀ m ∈ later, family m := fun m member => own m (by simp [split, member])
    obtain ⟨next, made⟩ := balanced.stepped awaits arena mine ahead here.nodup here.2.1 (used _ n _ split)
    have live : (Node.liveAt outputs order size done.length).length =
        waiting outputs size (n :: later) (n :: done) := by
      rw [split] at own settled ⊢
      exact Node.length_liveAt arena own (List.nodup_reverse.mp settled.nodup)
    have places : Finset.Ico done.length order.length =
        insert done.length (Finset.Ico (n :: done).length order.length) := by
      ext place
      rw [split]
      simp only [Finset.mem_Ico, Finset.mem_insert, List.length_append, List.length_reverse, List.length_cons]
      omega
    rw [run, List.foldl_cons, ← run, ih next awaits.stepped (by simp [split]), made, places, Finset.sup_insert,
      live, max_assoc]

theorem length_liveAt_le (once : order.Nodup) (slot : Node → Nat) (place : Nat)
    (apart : ∀ n ∈ Node.liveAt outputs order size place, ∀ m ∈ Node.liveAt outputs order size place,
      slot n = slot m → n = m) :
    (Node.liveAt outputs order size place).length ≤
      ((order.filter (·.isScratch outputs size)).map slot).toFinset.card := by
  have distinct : ((Node.liveAt outputs order size place).map slot).Nodup :=
    (once.filter _).map_on apart
  rw [← List.length_map (f := slot), ← List.toFinset_card_of_nodup distinct]
  refine Finset.card_le_card fun i member => ?_
  obtain ⟨n, live, rfl⟩ := List.mem_map.mp (List.mem_toFinset.mp member)
  obtain ⟨listed, both⟩ := List.mem_filter.mp live
  exact List.mem_toFinset.mpr (List.mem_map_of_mem (List.mem_filter.mpr ⟨listed, (Bool.and_eq_true_iff.mp both).1⟩))

/-- The scratch slots of a size are as many as the values of it that are live at once, where that is
most; values live at once have slots of their own, and no assignment that keeps them apart has fewer. -/
theorem ofOrder_optimal [Memory] {allowed : ShapeRules → Prop} {w : Workspace} (built : w.Built allowed)
    (own : ∀ o ∈ outputs, o ∈ w.graph.nodes) (size : Nat) :
    (ofOrder (Node.order outputs) outputs).made size = (Finset.range (Node.order outputs).length).sup
        (fun place => (Node.liveAt outputs (Node.order outputs) size place).length) ∧
      (∀ place, ∀ n ∈ Node.liveAt outputs (Node.order outputs) size place,
        ∀ m ∈ Node.liveAt outputs (Node.order outputs) size place,
          (ofOrder (Node.order outputs) outputs).slotOf n = (ofOrder (Node.order outputs) outputs).slotOf m →
            n = m) ∧
      ∀ slot : Node → Nat,
        (∀ place, ∀ n ∈ Node.liveAt outputs (Node.order outputs) size place,
          ∀ m ∈ Node.liveAt outputs (Node.order outputs) size place, slot n = slot m → n = m) →
        (ofOrder (Node.order outputs) outputs).made size ≤
          (((Node.order outputs).filter (·.isScratch outputs size)).map slot).toFinset.card := by
  have arena := built.ordered.arena
  have settled := Node.order_settled arena own
  have once : (Node.order outputs).Nodup := List.nodup_reverse.mp settled.nodup
  have mine := Node.order_own arena own
  have start : Balanced outputs size (Node.order outputs) [] (start (Node.order outputs)) := rfl
  have made := start.ran (awaits_start _) arena rfl mine settled fun _ _ _ split role =>
    Node.read_behind arena own split role
  have most : (ofOrder (Node.order outputs) outputs).made size = (Finset.range (Node.order outputs).length).sup
      fun place => (Node.liveAt outputs (Node.order outputs) size place).length := by
    rw [Finset.range_eq_Ico]
    exact made.trans (Nat.zero_max _)
  refine ⟨most, fun place n first m second => ?_, fun slot apart => ?_⟩
  · exact Node.liveAt_apart arena mine (ofOrder_sound arena own).2 once first second
  · rw [most]
    exact Finset.sup_le fun place _ => length_liveAt_le once slot place (apart place)

end Assignment

namespace Sample

/-- The sum waits for the square, which is requested: one slot of eight bytes is made. -/
theorem ofOrder_optimal_square :
    (Assignment.ofOrder (Node.order [square]) [square]).made 8 = 1 ∧
      (Finset.range (Node.order [square]).length).sup
        (fun place => (Node.liveAt [square] (Node.order [square]) 8 place).length) = 1 := by
  have own : ∀ o ∈ [square], o ∈ workspace.graph.nodes := by simp [mem_nodes]
  have order : Node.order [square] = [x, y, total, square] := Node.order_eq_postOrder built.ordered.arena own
  have made : (Assignment.ofOrder (Node.order [square]) [square]).made 8 = 1 := by
    rw [order]
    decide
  exact ⟨made, (Assignment.ofOrder_optimal built own 8).1.symm.trans made⟩

end Sample
end TensorDag
