import Mathlib.Algebra.BigOperators.Group.Finset.Sigma
import Mathlib.Algebra.BigOperators.Ring.Finset
import TensorDag.Tensor.Layout

/-!
Sums over the indices of a shape: taken apart axis by axis, and moved from one shape to another with
as many cells.
-/
namespace TensorDag

namespace Shape
variable {s t : Shape} {index : Index}

theorem mem_indices : ∀ {s : Shape} {index : Index}, index ∈ indices s ↔ Contains s index
  | [], [] => by simp [indices, Contains]
  | [], _ :: _ => by simp [indices, Contains]
  | _ :: _, [] => by simp [indices_cons, Contains]
  | dim :: rest, i :: index => by simp [indices_cons, Contains, mem_indices]

theorem nodup_indices (s : Shape) : (indices s).Nodup := by
  induction s with
  | nil => simp [indices]
  | cons dim rest ih =>
    rw [indices_cons, List.nodup_flatMap]
    refine ⟨fun i _ => ih.map fun _ _ => List.tail_eq_of_cons_eq, ?_⟩
    refine List.nodup_range.imp fun differ => ?_
    simp only [Function.onFun, List.disjoint_left, List.mem_map]
    rintro _ ⟨_, _, rfl⟩ ⟨_, _, same⟩
    exact differ (List.head_eq_of_cons_eq same).symm

def box (s : Shape) : Finset Index := (indices s).toFinset

theorem mem_box : index ∈ box s ↔ Contains s index := by rw [box, List.mem_toFinset, mem_indices]

theorem Contains.length : ∀ {s : Shape} {index : Index}, Contains s index → index.length = s.length
  | [], [], _ => rfl
  | _ :: _, _ :: _, inside => congrArg Nat.succ inside.2.length

theorem Contains.append : ∀ {s t : Shape} {i j : Index}, Contains s i → Contains t j →
    Contains (s ++ t) (i ++ j)
  | [], _, [], _, _, last => last
  | _ :: _, _, _ :: _, _, first, last => ⟨first.1, first.2.append last⟩

theorem offset_cons_div {dim i : Nat} {rest : Shape} (inside : Contains rest index) :
    offset (dim :: rest) (i :: index) / volume rest = i ∧
      offset (dim :: rest) (i :: index) % volume rest = offset rest index := by
  have below := offset_lt_volume inside
  rw [offset, Nat.mul_comm]
  exact ⟨by rw [Nat.mul_add_div (by omega), Nat.div_eq_of_lt below, Nat.add_zero],
    by rw [Nat.mul_add_mod, Nat.mod_eq_of_lt below]⟩

theorem index_offset : ∀ {s : Shape} {index : Index}, Contains s index → s.index (offset s index) = index
  | [], [], _ => rfl
  | dim :: rest, i :: index, inside => by
    rw [Shape.index, (offset_cons_div inside.2).1, (offset_cons_div inside.2).2, index_offset inside.2]

theorem contains_index : ∀ {s : Shape} {place : Nat}, place < volume s → Contains s (s.index place)
  | [], _, _ => trivial
  | dim :: rest, place, below => by
    have some : 0 < volume rest := Nat.pos_of_mul_pos_left (Nat.zero_lt_of_lt below)
    exact ⟨Nat.div_lt_of_lt_mul (by rwa [Nat.mul_comm]), contains_index (Nat.mod_lt _ some)⟩

theorem offset_index : ∀ {s : Shape} {place : Nat}, place < volume s → offset s (s.index place) = place
  | [], place, below => by simp only [volume] at below; simp only [offset]; omega
  | dim :: rest, place, below => by
    have some : 0 < volume rest := Nat.pos_of_mul_pos_left (Nat.zero_lt_of_lt below)
    rw [Shape.index, offset, offset_index (Nat.mod_lt _ some), Nat.div_add_mod']

end Shape

namespace Tensor
open Shape
variable {M : Type} [AddCommMonoid M]

theorem total_eq_sum (s : Shape) (f : Index → M) : total (indices s) f = ∑ i ∈ box s, f i := by
  have fold : ∀ (is : List Index) (start : M),
      is.foldl (fun sum i => sum + f i) start = start + (is.map f).sum := by
    intro is
    induction is with
    | nil => simp
    | cons i rest ih => intro start; rw [List.foldl_cons, ih, List.map_cons, List.sum_cons, add_assoc]
  rw [total, fold, zero_add, box, List.sum_toFinset f (nodup_indices s)]

end Tensor

namespace Shape
open Finset (range)
variable {M : Type} [AddCommMonoid M] {s t : Shape}

@[simp] theorem sum_box_nil (f : Index → M) : ∑ i ∈ box [], f i = f [] := by simp [box, indices]

theorem sum_box_cons (dim : Nat) (s : Shape) (f : Index → M) :
    ∑ i ∈ box (dim :: s), f i = ∑ k ∈ range dim, ∑ r ∈ box s, f (k :: r) := by
  have inner : ∀ k, ∑ r ∈ box s, f (k :: r) = ((indices s).map fun r => f (k :: r)).sum := fun k =>
    List.sum_toFinset _ (nodup_indices s)
  have outer : ∀ g : Nat → M, ∑ k ∈ range dim, g k = ((List.range dim).map g).sum := fun _ => rfl
  rw [outer, box, List.sum_toFinset f (nodup_indices _), indices_cons, List.map_flatMap, List.flatMap_def,
    List.sum_flatten, List.map_map]
  simp [Function.comp_def, inner]

theorem sum_box_append (s t : Shape) (f : Index → M) :
    ∑ i ∈ box (s ++ t), f i = ∑ a ∈ box s, ∑ b ∈ box t, f (a ++ b) := by
  induction s generalizing f with
  | nil => simp
  | cons dim s ih =>
    rw [List.cons_append, sum_box_cons, sum_box_cons]
    exact Finset.sum_congr rfl fun k _ => ih fun i => f (k :: i)

theorem sum_box_single (dim : Nat) (f : Index → M) :
    ∑ i ∈ box [dim], f i = ∑ k ∈ range dim, f [k] := by simp [sum_box_cons]

theorem sum_offset (s : Shape) (f : Nat → M) :
    ∑ i ∈ box s, f (offset s i) = ∑ k ∈ range (volume s), f k := by
  refine Finset.sum_nbij' (offset s) s.index ?_ ?_ ?_ ?_ fun _ _ => rfl
  · exact fun i inside => Finset.mem_range.mpr (offset_lt_volume (mem_box.mp inside))
  · exact fun k below => mem_box.mpr (contains_index (Finset.mem_range.mp below))
  · exact fun i inside => index_offset (mem_box.mp inside)
  · exact fun k below => offset_index (Finset.mem_range.mp below)

theorem sum_reshaped (volumes : volume s = volume t) (f : Index → Index → M) :
    ∑ i ∈ box s, f i (t.index (offset s i)) = ∑ j ∈ box t, f (s.index (offset t j)) j := by
  calc ∑ i ∈ box s, f i (t.index (offset s i))
      = ∑ i ∈ box s, f (s.index (offset s i)) (t.index (offset s i)) :=
        Finset.sum_congr rfl fun i inside => by rw [index_offset (mem_box.mp inside)]
    _ = ∑ k ∈ range (volume s), f (s.index k) (t.index k) := sum_offset s fun k => f (s.index k) (t.index k)
    _ = ∑ k ∈ range (volume t), f (s.index k) (t.index k) := by rw [volumes]
    _ = ∑ j ∈ box t, f (s.index (offset t j)) (t.index (offset t j)) :=
        (sum_offset t fun k => f (s.index k) (t.index k)).symm
    _ = ∑ j ∈ box t, f (s.index (offset t j)) j :=
        Finset.sum_congr rfl fun j inside => by rw [index_offset (mem_box.mp inside)]

end Shape
end TensorDag
