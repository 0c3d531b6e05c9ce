import TensorDag.Memory
import TensorDag.Proofs.Axes

/-!
Shapes that arrays can have: empty axes aside, their bytes can be counted. So can the axes and the cells of such a
shape, and it is found where others stretch to it.
-/
namespace TensorDag

theorem Bytes.room_eq_ok [Memory] {size : Nat} : room size = .ok () ↔ size ≤ Memory.capacity := by
  constructor
  · intro roomy
    by_contra many
    rw [room, if_pos (Nat.not_le.mp many)] at roomy
    split at roomy <;> cases roomy
  · intro fits
    rw [room, if_neg (Nat.not_le.mpr (lt_of_le_of_lt fits Memory.countable)), if_neg (Nat.not_lt.mpr fits)]

namespace Shape
variable {a s : Shape}

theorem volume_append (s t : Shape) : volume (s ++ t) = volume s * volume t := by
  induction s with
  | nil => rw [List.nil_append, volume, Nat.one_mul]
  | cons d rest ih => rw [List.cons_append, volume, volume, ih, Nat.mul_assoc]

theorem volume_pos (positive : ∀ d ∈ s, 1 ≤ d) : 1 ≤ volume s := by
  induction s with
  | nil => exact le_refl _
  | cons d rest ih =>
    obtain ⟨here, later⟩ := List.forall_mem_cons.mp positive
    exact Nat.mul_pos here (ih later)

theorem le_volume (positive : ∀ d ∈ s, 1 ≤ d) : ∀ d ∈ s, d ≤ volume s := by
  induction s with
  | nil => simp
  | cons d rest ih =>
    obtain ⟨here, later⟩ := List.forall_mem_cons.mp positive
    intro e member
    rcases List.mem_cons.mp member with rfl | old
    · exact Nat.le_mul_of_pos_right _ (volume_pos later)
    · exact le_trans (ih later e old) (Nat.le_mul_of_pos_left _ here)

def filled (s : Shape) : Shape := s.filter (· ≠ 0)

theorem filled_pos (s : Shape) : ∀ d ∈ s.filled, 1 ≤ d := by
  intro d member
  have some := (List.mem_filter.mp member).2
  exact Nat.one_le_iff_ne_zero.mpr (by simpa using some)

theorem countable_of_filled {size : Nat} (bound : size * volume s.filled < limit) : countable size s = true := by
  induction s generalizing size with
  | nil => rfl
  | cons d rest ih =>
    by_cases empty : d = 0
    · simp [countable, empty]
    · have split : filled (d :: rest) = d :: filled rest := List.filter_cons_of_pos (by simpa using empty)
      rw [split, volume, ← Nat.mul_assoc] at bound
      have here : size * d < limit := lt_of_le_of_lt (Nat.le_mul_of_pos_right _ (volume_pos (filled_pos rest))) bound
      rw [countable, ih bound, Bool.and_true, decide_eq_true here, Bool.or_true]

/-- Shapes that arrays of items of a size can have, words unless it is given. -/
structure Holdable (s : Shape) (itemSize : Nat := 4) : Prop where
  axes : s.length ≤ maxRank
  bytes : itemSize * volume s.filled < limit

theorem holdable_iff {itemSize : Nat} : s.holdable itemSize = true ↔ s.Holdable itemSize := by
  rw [holdable, Bool.and_eq_true, decide_eq_true_eq, decide_eq_true_eq]
  exact ⟨fun both => ⟨both.1, both.2⟩, fun both => ⟨both.axes, both.bytes⟩⟩

namespace Holdable

theorem mono {small large : Nat} (smaller : small ≤ large) (holdable : s.Holdable large) : s.Holdable small :=
  ⟨holdable.axes, lt_of_le_of_lt (Nat.mul_le_mul_right _ smaller) holdable.bytes⟩

theorem volume_lt (holdable : s.Holdable) : volume s.filled < limit := by
  have bytes := holdable.bytes
  omega

theorem addressable (holdable : s.Holdable) : s.addressable = true := by
  rw [Shape.addressable, Bool.and_eq_true, decide_eq_true_eq, List.all_eq_true]
  refine ⟨holdable.axes, fun d member => decide_eq_true ?_⟩
  by_cases empty : d = 0
  · rw [empty]
    exact Nat.two_pow_pos 63
  · have listed : d ∈ s.filled := List.mem_filter.mpr ⟨member, by simpa using empty⟩
    exact lt_of_le_of_lt (le_volume (filled_pos s) d listed) holdable.volume_lt

theorem countable (holdable : s.Holdable) : countable 1 s = true :=
  countable_of_filled (by rw [Nat.one_mul]; exact holdable.volume_lt)

end Holdable

theorem room_eq_ok [Memory] {itemSize : Nat} :
    s.room itemSize = .ok () ↔ s.Holdable itemSize ∧ itemSize * volume s ≤ Memory.capacity := by
  rw [← holdable_iff, ← Bytes.room_eq_ok, room]
  by_cases holdable : s.holdable itemSize = true
  · rw [if_pos holdable]
    exact (and_iff_right holdable).symm
  · rw [if_neg holdable]
    exact iff_of_false nofun fun both => holdable both.1

namespace Stretches

theorem length_le (stretches : Stretches a s) : a.length ≤ s.length := by
  obtain ⟨lead, tail, rfl, agree⟩ := stretches
  rw [List.length_append, agree.length_eq]
  exact Nat.le_add_left ..

theorem addressable (stretches : Stretches a s) (addressable : s.addressable = true) : a.addressable = true := by
  have ranks := stretches.length_le
  rw [Shape.addressable, Bool.and_eq_true, decide_eq_true_eq, List.all_eq_true] at addressable ⊢
  refine ⟨le_trans ranks addressable.1, ?_⟩
  obtain ⟨lead, tail, rfl, agree⟩ := stretches
  have bound := (List.forall_mem_append.mp addressable.2).2
  clear addressable ranks
  induction agree with
  | nil => simp
  | @cons d e a tail here _ ih =>
    obtain ⟨first, later⟩ := List.forall_mem_cons.mp bound
    refine List.forall_mem_cons.mpr ⟨?_, ih later⟩
    rcases here with rfl | rfl
    · exact first
    · rfl

theorem nil (s : Shape) : Stretches [] s := ⟨s, [], (List.append_nil s).symm, .nil⟩

theorem cons (dim : Nat) (s : Shape) : Stretches s (dim :: s) :=
  ⟨[dim], s, rfl, List.forall₂_same.mpr fun _ _ => .inl rfl⟩

theorem broadcast?_holdable (stretches : Stretches a s) (holdable : s.Holdable) :
    broadcast? s a = some s ∧ broadcast? a s = some s :=
  broadcast?_of_stretches stretches (stretches.addressable holdable.addressable) holdable.addressable holdable.countable

end Stretches
end Shape
end TensorDag
