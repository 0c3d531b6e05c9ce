import Mathlib.Data.List.GetD
import TensorDag.Proofs.Axes

/-!
Operations that move cells or add them up, and their adjoints: a transposition and the inverse one, a
slice and margins, a sum and its spreading.
-/
namespace TensorDag
open Finset (range)

namespace Shape
variable {M : Type} [AddCommMonoid M] {s : Shape} {order : List Nat}

theorem contains_iff : ∀ {s : Shape} {i : Index},
    Contains s i ↔ i.length = s.length ∧ ∀ k < s.length, i.getD k 0 < s.getD k 0
  | [], [] => by simp [Contains]
  | [], _ :: _ => by simp [Contains]
  | _ :: _, [] => by simp [Contains]
  | dim :: s, i :: index => by
    rw [Contains, contains_iff, List.length_cons, List.length_cons, Nat.succ_inj]
    constructor
    · rintro ⟨first, long, all⟩
      refine ⟨long, fun k below => ?_⟩
      cases k with
      | zero => exact first
      | succ k => exact all k (by omega)
    · rintro ⟨long, all⟩
      exact ⟨all 0 (by omega), long, fun k below => all (k + 1) (by omega)⟩

/-- The index of a transposed tensor's cell in the tensor before. -/
def backward (order : List Nat) (rank : Nat) (i : Index) : Index :=
  (List.range rank).map fun axis => i.getD (order.idxOf axis) 0

def forward (order : List Nat) (j : Index) : Index := order.map fun axis => j.getD axis 0

theorem getD_backward {rank k : Nat} (below : k < rank) (i : Index) :
    (backward order rank i).getD k 0 = i.getD (order.idxOf k) 0 := by
  simp [backward, List.getD_eq_getElem?_getD, below]

theorem getD_forward {k : Nat} (below : k < order.length) (j : Index) :
    (forward order j).getD k 0 = j.getD order[k] 0 := by
  simp [forward, List.getD_eq_getElem?_getD, below]

theorem backward_forward {rank : Nat} (perm : order.Perm (List.range rank)) {j : Index}
    (long : j.length = rank) : backward order rank (forward order j) = j := by
  refine List.ext_getElem (by simp [backward, long]) fun k below inside => ?_
  have inner : k < rank := long ▸ inside
  have listed : k ∈ order := perm.mem_iff.mpr (List.mem_range.mpr inner)
  have place := List.idxOf_lt_length_iff.mpr listed
  have here := getD_forward place j
  rw [List.getElem_idxOf] at here
  rw [← List.getD_eq_getElem _ 0 below, getD_backward inner, here, List.getD_eq_getElem _ 0 inside]

theorem forward_backward {rank : Nat} (perm : order.Perm (List.range rank)) {i : Index}
    (long : i.length = rank) : forward order (backward order rank i) = i := by
  have sizes : order.length = rank := by rw [perm.length_eq, List.length_range]
  have distinct : order.Nodup := perm.nodup_iff.mpr List.nodup_range
  refine List.ext_getElem (by simp [forward, long, sizes]) fun k below inside => ?_
  have place : k < order.length := sizes ▸ long ▸ inside
  have axis : order[k] < rank := List.mem_range.mp (perm.mem_iff.mp (List.getElem_mem place))
  rw [← List.getD_eq_getElem _ 0 below, getD_forward place, getD_backward axis, distinct.idxOf_getElem,
    List.getD_eq_getElem _ 0 inside]

theorem getD_dims {k : Nat} (below : k < order.length) :
    (order.map fun axis => s.getD axis 0).getD k 0 = s.getD order[k] 0 := by
  simp [List.getD_eq_getElem?_getD, below]

theorem contains_backward (perm : order.Perm (List.range s.length)) {i : Index}
    (inside : Contains (order.map fun axis => s.getD axis 0) i) : Contains s (backward order s.length i) := by
  obtain ⟨_, bounds⟩ := contains_iff.mp inside
  refine contains_iff.mpr ⟨by simp [backward], fun k below => ?_⟩
  have place := List.idxOf_lt_length_iff.mpr (perm.mem_iff.mpr (List.mem_range.mpr below))
  have bound := bounds (order.idxOf k) (by simpa using place)
  rwa [getD_dims place, List.getElem_idxOf, ← getD_backward below] at bound

/-- A sum over the indices of a transposed tensor is one over those of the tensor. -/
theorem sum_transposed (perm : order.Perm (List.range s.length)) (f : Index → Index → M) :
    ∑ i ∈ box (order.map fun axis => s.getD axis 0), f i (backward order s.length i) =
      ∑ j ∈ box s, f (forward order j) j := by
  have sizes : order.length = s.length := by rw [perm.length_eq, List.length_range]
  refine Finset.sum_nbij' (backward order s.length) (forward order) ?_ ?_ ?_ ?_ ?_
  · exact fun i inside => mem_box.mpr (contains_backward perm (mem_box.mp inside))
  · intro j inside
    have inside := contains_iff.mp (mem_box.mp inside)
    refine mem_box.mpr (contains_iff.mpr ⟨by simp [forward], fun k below => ?_⟩)
    rw [List.length_map] at below
    rw [getD_forward below, getD_dims below]
    exact inside.2 _ (List.mem_range.mp (perm.mem_iff.mp (List.getElem_mem below)))
  · intro i inside
    refine forward_backward perm ?_
    rw [(mem_box.mp inside).length, List.length_map, sizes]
  · exact fun j inside => backward_forward perm (mem_box.mp inside).length
  · intro i inside
    rw [forward_backward perm]
    rw [(mem_box.mp inside).length, List.length_map, sizes]

/-- The inverse of an order of axes: for each axis its place. -/
def inverseOrder (order : List Nat) (rank : Nat) : List Nat := (List.range rank).map order.idxOf

/-- To read through the inverse order is to read forward. -/
theorem backward_inverse {rank : Nat} (perm : order.Perm (List.range rank)) (j : Index) :
    backward (inverseOrder order rank) rank j = forward order j := by
  have sizes : order.length = rank := by rw [perm.length_eq, List.length_range]
  have distinct : order.Nodup := perm.nodup_iff.mpr List.nodup_range
  have injective : (inverseOrder order rank).Nodup :=
    List.nodup_range.map_on fun a first b second same =>
      (List.idxOf_inj (perm.mem_iff.mpr first)).mp same
  refine List.ext_getElem (by simp [backward, forward, sizes]) fun k below inside => ?_
  have place : k < order.length := by simpa [forward] using inside
  have axis : order[k] < rank := List.mem_range.mp (perm.mem_iff.mp (List.getElem_mem place))
  have long : order[k] < (inverseOrder order rank).length := by simpa [inverseOrder] using axis
  have there : (inverseOrder order rank)[order[k]] = k := by
    simp [inverseOrder, distinct.idxOf_getElem]
  have found := injective.idxOf_getElem order[k] long
  rw [there] at found
  rw [← List.getD_eq_getElem _ 0 below, ← List.getD_eq_getElem _ 0 inside,
    getD_backward (sizes ▸ place), getD_forward place, found]

/-- A window of a size from some place on lies within dimensions. -/
def Within : List Nat → Shape → Shape → Prop
  | [], [], [] => True
  | low :: lows, size :: sizes, dim :: dims => low + size ≤ dim ∧ Within lows sizes dims
  | _, _, _ => False

theorem within_margins : ∀ {before after : List Nat} {s : Shape}, before.length = s.length → after.length = s.length →
    Within before s (List.zipWith (· + ·) (List.zipWith (· + ·) before s) after)
  | [], [], [], _, _ => trivial
  | [], _ :: _, [], _, second => by cases second
  | _ :: _, [], _ :: _, _, second => by cases second
  | _ :: _, _ :: _, _ :: _, first, second =>
    ⟨Nat.le_add_right _ _, within_margins (Nat.succ.inj first) (Nat.succ.inj second)⟩

def inWindow (lows : List Nat) (sizes : Shape) (i : Index) : Bool :=
  (List.zipWith (fun low (i, dim) => low ≤ i && i < low + dim) lows (i.zip sizes)).all id

theorem sum_range_window {low size dim : Nat} (within : low + size ≤ dim) (f : Nat → Nat → M) :
    ∑ k ∈ range size, f k (low + k) =
      ∑ k ∈ range dim, if low ≤ k ∧ k < low + size then f (k - low) k else 0 := by
  rw [← Finset.sum_filter]
  refine Finset.sum_nbij' (low + ·) (· - low) ?_ ?_ ?_ ?_ ?_
  · intro k below
    simp only [Finset.mem_filter, Finset.mem_range] at below ⊢
    omega
  · intro k inside
    simp only [Finset.mem_filter, Finset.mem_range] at inside ⊢
    omega
  · intro k _
    simp
  · intro k inside
    simp only [Finset.mem_filter, Finset.mem_range] at inside
    omega
  · intro k _
    simp

/-- A sum over a window is one over all indices that is zero in the margins. -/
theorem sum_window : ∀ {lows : List Nat} {sizes dims : Shape}, Within lows sizes dims →
    ∀ f : Index → Index → M, ∑ i ∈ box sizes, f i (List.zipWith (· + ·) lows i) =
      ∑ j ∈ box dims, if inWindow lows sizes j then f (List.zipWith (· - ·) j lows) j else 0
  | [], [], [], _, f => by simp [inWindow]
  | low :: lows, size :: sizes, dim :: dims, ⟨here, within⟩, f => by
    have inner := fun k l => sum_window within fun i j => f (k :: i) (l :: j)
    simp only [sum_box_cons, List.zipWith_cons_cons, inner]
    rw [sum_range_window here fun k l => ∑ j ∈ box dims,
      if inWindow lows sizes j then f (k :: List.zipWith (· - ·) j lows) (l :: j) else 0]
    refine Finset.sum_congr rfl fun k _ => ?_
    by_cases between : low ≤ k ∧ k < low + size
    · rw [if_pos between]
      refine Finset.sum_congr rfl fun j _ => ?_
      have same : inWindow (low :: lows) (size :: sizes) (k :: j) = inWindow lows sizes j := by
        simp [inWindow, between.1, between.2]
      rw [same]
    · rw [if_neg between]
      refine (Finset.sum_eq_zero fun j _ => if_neg ?_).symm
      simp only [inWindow, List.zip_cons_cons, List.zipWith_cons_cons, List.all_cons, id,
        Bool.and_eq_true, decide_eq_true_eq]
      exact fun ⟨inside, _⟩ => between inside

end Shape

namespace Tensor
open Shape
variable {S : Type} [CommRing S]

def dot (g x : Tensor S) : S := ∑ i ∈ box x.shape, g.cell i * x.cell i

theorem dot_comm {g x : Tensor S} (shape : g.shape = x.shape) : dot g x = dot x g := by
  rw [dot, dot, shape]
  exact Finset.sum_congr rfl fun i _ => mul_comm ..

theorem dot_reshape {g x : Tensor S} (volumes : volume g.shape = volume x.shape) :
    dot g (x.reshape g.shape) = dot (g.reshape x.shape) x :=
  sum_reshaped volumes fun i j => g.cell i * x.cell j

theorem dot_transpose {g x : Tensor S} {order : List Nat} (perm : order.Perm (List.range x.shape.length))
    (rank : g.shape.length = x.shape.length) :
    dot g (x.transpose order) = dot (g.transpose (inverseOrder order x.shape.length)) x := by
  refine (sum_transposed perm fun i j => g.cell i * x.cell j).trans (Finset.sum_congr rfl fun j _ => ?_)
  rw [← backward_inverse perm j, ← rank]
  rfl

theorem dot_slice {g x : Tensor S} {start after stop : List Nat} (shape : (x.slice start stop).shape = g.shape)
    (within : Within start g.shape x.shape) : dot g (x.slice start stop) = dot (g.pad start after) x := by
  rw [dot, shape]
  refine (sum_window within fun i j => g.cell i * x.cell j).trans (Finset.sum_congr rfl fun j _ => ?_)
  simp only [pad, ite_mul, zero_mul]
  rfl

theorem dot_pad {g x : Tensor S} {before after stop : List Nat}
    (within : Within before x.shape (x.pad before after).shape) :
    dot g (x.pad before after) = dot (g.slice before stop) x := by
  refine Eq.trans (Finset.sum_congr rfl fun j _ => ?_)
    (sum_window within fun i j => g.cell j * x.cell i).symm
  simp only [pad, mul_ite, mul_zero]
  rfl

theorem dot_sum {g x : Tensor S} {axes : List Nat} (shape : g.shape = keep x.shape axes) :
    dot g (x.sum axes) = dot ((g.reshape (collapse x.shape axes)).broadcast x.shape) x := by
  rw [dot, dot, sum_shape, sum_merge axes x.shape 0, ← keep_eq, ← select_eq]
  refine Finset.sum_congr rfl fun o outer => ?_
  rw [sum_cell (mem_box.mp outer), Finset.mul_sum]
  refine Finset.sum_congr rfl fun n _ => congrArg (· * _) ?_
  simp only [broadcast, reshape, shape]
  rw [index_narrow_collapse (mem_box.mp outer)]

/-- A tensor holds what adds up in another one where stretching reads the same cell. -/
structure Gathers (u g : Tensor S) : Prop where
  pairs : ∀ f : Index → S, ∑ i ∈ box g.shape, g.cell i * f (narrow u.shape i) = ∑ j ∈ box u.shape, u.cell j * f j

theorem Gathers.refl (g : Tensor S) : Gathers g g where
  pairs _ := Finset.sum_congr rfl fun i inside => by rw [narrow_self (mem_box.mp inside)]

theorem gathers_sum {g : Tensor S} {axes : List Nat} {shape : Shape} {k : Nat}
    (collapses : Collapses axes 0 g.shape (List.replicate k 1 ++ shape)) (stretches : Stretches shape g.shape) :
    Gathers ((g.sum axes).reshape shape) g where
  pairs f := by
    refine (sum_narrow collapses stretches fun i j => g.cell i * f j).trans
      (Finset.sum_congr rfl fun j inside => ?_)
    have inner : Contains (keep g.shape axes) ((keep g.shape axes).index (offset shape j)) :=
      contains_index (collapses.volume_keep ▸ offset_lt_volume (mem_box.mp inside))
    rw [← Finset.sum_mul]
    simp only [reshape, sum_shape]
    rw [sum_cell inner]

theorem Gathers.congr {u u' g : Tensor S} (gathers : Gathers u g) (shape : u'.shape = u.shape)
    (cells : ∀ j, Contains u.shape j → u'.cell j = u.cell j) : Gathers u' g where
  pairs f := by
    rw [shape, gathers.pairs f]
    exact Finset.sum_congr rfl fun j inside => by rw [cells j (mem_box.mp inside)]

theorem gathers_total {g : Tensor S} {axes : List Nat} {shape : Shape} {k : Nat}
    (collapses : Collapses axes 0 g.shape (List.replicate k 1 ++ shape)) (stretches : Stretches shape g.shape)
    (same : (g.sum axes).shape = shape) : Gathers (g.sum axes) g := by
  refine (gathers_sum collapses stretches).congr same fun j inside => ?_
  have here : shape.index (shape.offset j) = j := index_offset inside
  simp only [reshape, same, here]

theorem last_total {x : Tensor S} {axes : List Nat} {lead : Shape} {dim k : Nat} {p : Index}
    (shape : x.shape = lead ++ [dim]) (only : ∀ k, k ∈ axes ↔ k = lead.length) (inside : Contains lead p) :
    (((x.sum axes).reshape (lead ++ [1])).broadcast x.shape).cell (p ++ [k]) =
      ∑ l ∈ Finset.range dim, x.cell (p ++ [l]) := by
  have last : ∀ k, 0 ≤ k → (k ∈ axes ↔ k = 0 + lead.length) := fun k _ => by rw [only, Nat.zero_add]
  have rank : x.shape.length = lead.length + 1 := by rw [shape, List.length_append, List.length_singleton]
  have kept : keep x.shape axes = lead := by rw [shape, keep_eq, keepFrom_last last]
  have collapses : Collapses axes 0 x.shape (List.replicate 0 1 ++ (lead ++ [1])) := shape ▸ .last last
  have outer : Contains (keep x.shape axes) p := kept.symm ▸ inside
  have place := collapses.offset_narrow outer [k]
  rw [rank, merge_last last inside.length] at place
  have read : (((x.sum axes).reshape (lead ++ [1])).broadcast x.shape).cell (p ++ [k]) = (x.sum axes).cell p := by
    simp only [broadcast, reshape, sum_shape, place, index_offset outer]
  rw [read, sum_cell outer, shape, select_eq, selectFrom_last last, sum_box_single, List.length_append,
    List.length_singleton]
  exact Finset.sum_congr rfl fun l _ => by rw [merge_last last inside.length]

end Tensor
end TensorDag
