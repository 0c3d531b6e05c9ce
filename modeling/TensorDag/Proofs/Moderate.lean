import TensorDag.Memory
import TensorDag.Operator.Typing
import TensorDag.Proofs.Holding

/-!
Shapes within the limits of stretching and of memory, where an empty axis is counted as one cell. What stretches to
such a shape or is left of it is within the limits as well. Moderate shapes have no empty axes on top of that.
-/
namespace TensorDag
namespace Shape
variable {full : Prop} {a s t : Shape} {axes : List Nat}

/-- Shapes without empty axes, within the limits of stretching and of memory. -/
structure Moderate [Memory] (s : Shape) : Prop where
  positive : ∀ d ∈ s, 1 ≤ d
  axes : s.length ≤ maxStretched
  room : 8 * volume s ≤ Memory.capacity

/-- Shapes within the limits of stretching and of memory, an empty axis counted as one cell. -/
structure Limited [Memory] (s : Shape) : Prop where
  axes : s.length ≤ maxStretched
  room : 8 * volume s.filled ≤ Memory.capacity

/-- Shapes within the limits that, where they are to be full, have no empty axes. -/
structure Bounded [Memory] (full : Prop) (s : Shape) : Prop extends Limited s where
  positive : full → ∀ d ∈ s, 1 ≤ d

theorem volume_le (shorter : List.Forall₂ (· ≤ ·) s t) : volume s ≤ volume t := by
  induction shorter with
  | nil => exact le_refl _
  | cons here _ ih => exact Nat.mul_le_mul here ih

theorem volume_perm (perm : s.Perm t) : volume s = volume t := by
  induction perm with
  | nil => rfl
  | cons d _ ih => rw [volume, volume, ih]
  | swap d e s => simp only [volume, Nat.mul_left_comm]
  | trans _ _ first second => exact first.trans second

/-! Cells besides those along empty axes. -/

theorem filled_of_positive (positive : ∀ d ∈ s, 1 ≤ d) : s.filled = s :=
  List.filter_eq_self.mpr fun d member => decide_eq_true (Nat.one_le_iff_ne_zero.mp (positive d member))

theorem volume_filled_cons (d : Nat) (s : Shape) : volume (filled (d :: s)) = max d 1 * volume s.filled := by
  by_cases empty : d = 0
  · subst empty
    exact (Nat.one_mul _).symm
  · rw [Nat.max_eq_left (Nat.one_le_iff_ne_zero.mpr empty), filled, List.filter_cons_of_pos (by simpa using empty)]
    rfl

theorem volume_le_filled (s : Shape) : volume s ≤ volume s.filled := by
  induction s with
  | nil => exact le_refl _
  | cons d rest ih =>
    rw [volume_filled_cons]
    exact Nat.mul_le_mul (Nat.le_max_left d 1) ih

theorem volume_filled_le (shorter : List.Forall₂ (fun d e => d ≤ e ∨ d = 1) s t) :
    volume s.filled ≤ volume t.filled := by
  induction shorter with
  | nil => exact le_refl _
  | @cons d e s t here _ ih =>
    rw [volume_filled_cons, volume_filled_cons]
    exact Nat.mul_le_mul (by omega) ih

theorem volume_sublist (sub : t.Sublist s) (positive : ∀ d ∈ s, 1 ≤ d) : volume t ≤ volume s := by
  induction sub with
  | slnil => exact le_refl _
  | cons d _ ih =>
    obtain ⟨here, later⟩ := List.forall_mem_cons.mp positive
    exact le_trans (ih later) (Nat.le_mul_of_pos_left _ here)
  | cons_cons d _ ih => exact Nat.mul_le_mul_left _ (ih (List.forall_mem_cons.mp positive).2)

theorem filled_sublist (sub : t.Sublist s) : volume t.filled ≤ volume s.filled :=
  volume_sublist (sub.filter _) (filled_pos s)

namespace Limited
variable [Memory]

theorem doubles (limited : s.Limited) : s.Holdable 8 :=
  ⟨le_trans limited.axes (by decide), lt_of_le_of_lt limited.room Memory.countable⟩

theorem holdable (limited : s.Limited) : s.Holdable := limited.doubles.mono (by decide)

theorem bytes_room (limited : s.Limited) {itemSize : Nat} (small : itemSize ≤ 8) :
    Bytes.room (itemSize * volume s) = .ok () :=
  Bytes.room_eq_ok.mpr (le_trans (Nat.mul_le_mul small (volume_le_filled s)) limited.room)

theorem byteSize_room {type : TensorType} (limited : type.shape.Limited) : Bytes.room type.byteSize = .ok () := by
  rw [TensorType.byteSize, Nat.mul_comm]
  exact limited.bytes_room (show 4 ≤ 8 by decide)

theorem room_doubles (limited : s.Limited) : s.room 8 = .ok () :=
  Shape.room_eq_ok.mpr ⟨limited.doubles, Bytes.room_eq_ok.mp (limited.bytes_room le_rfl)⟩

end Limited

namespace Bounded
variable [Memory]

theorem resized (bounded : s.Bounded full) (positive : full → ∀ d ∈ t, 1 ≤ d) (axes : t.length ≤ maxStretched)
    (smaller : volume t.filled ≤ volume s.filled) : t.Bounded full :=
  ⟨⟨axes, le_trans (Nat.mul_le_mul_left 8 smaller) bounded.room⟩, positive⟩

theorem scalar : Bounded full [] := ⟨⟨by simp, Memory.enough⟩, by simp⟩

theorem sublist (bounded : s.Bounded full) (sub : t.Sublist s) : t.Bounded full :=
  bounded.resized (fun asked d member => bounded.positive asked d (sub.subset member))
    (le_trans sub.length_le bounded.axes) (filled_sublist sub)

theorem perm (bounded : s.Bounded full) (perm : t.Perm s) : t.Bounded full :=
  bounded.resized (fun asked d member => bounded.positive asked d (perm.mem_iff.mp member))
    (perm.length_eq ▸ bounded.axes) (volume_perm (perm.filter _)).le

theorem moderate (bounded : s.Bounded True) : s.Moderate :=
  ⟨bounded.positive trivial, bounded.axes, filled_of_positive (bounded.positive trivial) ▸ bounded.room⟩

end Bounded

namespace Moderate
variable [Memory]

theorem limited (moderate : s.Moderate) : s.Limited :=
  ⟨moderate.axes, (filled_of_positive moderate.positive).symm ▸ moderate.room⟩

theorem bounded (moderate : s.Moderate) : s.Bounded full := ⟨moderate.limited, fun _ => moderate.positive⟩

theorem resized (moderate : s.Moderate) (positive : ∀ d ∈ t, 1 ≤ d) (axes : t.length ≤ maxStretched)
    (smaller : volume t ≤ volume s) : t.Moderate :=
  ⟨positive, axes, le_trans (Nat.mul_le_mul_left 8 smaller) moderate.room⟩

theorem holdable (moderate : s.Moderate) : s.Holdable := moderate.limited.holdable

end Moderate

namespace Stretches

theorem volume_filled_le (stretches : Stretches a s) : volume a.filled ≤ volume s.filled := by
  obtain ⟨lead, tail, rfl, agree⟩ := stretches
  exact le_trans (Shape.volume_filled_le (agree.imp fun d e here => here.imp_left Eq.le))
    (filled_sublist (List.sublist_append_right ..))

theorem positive (stretches : Stretches a s) (positive : ∀ d ∈ s, 1 ≤ d) : ∀ d ∈ a, 1 ≤ d := by
  obtain ⟨lead, tail, rfl, agree⟩ := stretches
  replace positive := (List.forall_mem_append.mp positive).2
  induction agree with
  | nil => simp
  | cons here _ ih =>
    obtain ⟨first, later⟩ := List.forall_mem_cons.mp positive
    exact List.forall_mem_cons.mpr ⟨by omega, ih later⟩

theorem bounded [Memory] (stretches : Stretches a s) (bounded : s.Bounded full) : a.Bounded full :=
  bounded.resized (fun asked => stretches.positive (bounded.positive asked))
    (le_trans stretches.length_le bounded.axes) stretches.volume_filled_le

/-- What stretches to a shape that arrays can have has that shape in common with it. -/
theorem common (stretches : Stretches a s) (long : s.length ≤ maxStretched) (holdable : s.Holdable)
    (refusal : ShapeFault) :
    Shape.common a s refusal = .ok s ∧ Shape.common s a refusal = .ok s := by
  have short := le_trans stretches.length_le long
  obtain ⟨left, right⟩ := stretches.broadcast?_holdable holdable
  have few : ∀ {x y : Bool} {rank : Nat}, rank ≤ maxStretched → ¬(x && y && decide (maxStretched < rank)) = true := by
    intro x y rank bound
    rw [decide_eq_false (Nat.not_lt.mpr bound), Bool.and_false]
    exact Bool.false_ne_true
  constructor
  · rw [Shape.common, if_neg (few (max_le short long)), right]
    rfl
  · rw [Shape.common, if_neg (few (max_le long short)), left]
    rfl

end Stretches

theorem Collapses.stretches {axis : Nat} (collapses : Collapses axes axis s t) : Stretches t s := by
  refine ⟨[], s, rfl, ?_⟩
  induction s generalizing axis t with
  | nil =>
    cases t with
    | nil => exact .nil
    | cons => exact collapses.elim
  | cons d rest ih =>
    cases t with
    | nil => exact collapses.elim
    | cons e others =>
      obtain ⟨here, later⟩ := collapses
      refine .cons ?_ (ih later)
      split at here
      · exact .inr here
      · exact .inl here

theorem keepFrom_sublist (axes : List Nat) (axis : Nat) (s : Shape) : (keepFrom axes axis s).Sublist s := by
  induction s generalizing axis with
  | nil => exact .slnil
  | cons d rest ih =>
    rw [keepFrom]
    split
    · exact (ih _).cons d
    · exact (ih _).cons_cons d

theorem stretches_collapse (s : Shape) (axes : List Nat) : Stretches (collapse s axes) s :=
  (collapses_collapse s axes).stretches

theorem volume_keep_collapse (s : Shape) (axes : List Nat) : volume (keep s axes) = volume (collapse s axes) := by
  rw [keep_eq, ← (collapses_collapse s axes).volume]

theorem Bounded.keep [Memory] (bounded : s.Bounded full) (axes : List Nat) : (keep s axes).Bounded full := by
  rw [keep_eq]
  exact bounded.sublist (keepFrom_sublist axes 0 s)

theorem selectFrom_sublist (axes : List Nat) (axis : Nat) (s : Shape) : (selectFrom axes axis s).Sublist s := by
  induction s generalizing axis with
  | nil => exact .slnil
  | cons d rest ih =>
    rw [selectFrom]
    split
    · exact (ih _).cons_cons d
    · exact (ih _).cons d

theorem volume_select_pos (positive : ∀ d ∈ s, 1 ≤ d) (axes : List Nat) : 1 ≤ volume (select s axes) := by
  rw [select_eq]
  exact volume_pos fun d member => positive d ((selectFrom_sublist axes 0 s).subset member)

end Shape

/-- Nodes of moderate shapes; a gradient of softmax has an axis to add up along. -/
structure Node.Moderate [Memory] (n : Node) : Prop where
  shape : n.shape.Moderate
  axes : n.kind = "softmax_grad" → n.shape ≠ []

/-- Nodes of shapes within the limits; where they are to be full, they are moderate. -/
structure Node.Bounded [Memory] (full : Prop) (n : Node) : Prop where
  shape : n.shape.Bounded full
  axes : full → n.kind = "softmax_grad" → n.shape ≠ []

theorem Node.Bounded.moderate [Memory] {n : Node} (bounded : n.Bounded True) : n.Moderate :=
  ⟨bounded.shape.moderate, bounded.axes trivial⟩

theorem Node.Moderate.bounded [Memory] {full : Prop} {n : Node} (moderate : n.Moderate) : n.Bounded full :=
  ⟨moderate.shape.bounded, fun _ => moderate.axes⟩

end TensorDag
