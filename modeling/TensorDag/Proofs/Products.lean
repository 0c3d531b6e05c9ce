import Mathlib.Tactic.Ring
import TensorDag.Proofs.Adjoints
import TensorDag.Tensor.Convolution

/-!
Sums of products and their adjoints: the product of matrices, convolutions and the gradient of softmax,
paired with a gradient on one side and with either argument on the other.
-/
namespace TensorDag.Tensor
open Finset (range)
open Shape
variable {S : Type} [CommRing S]

theorem matmul_cell {a b : Tensor S} {rows inner : Nat} (left : a.shape = [rows, inner])
    (i j : Nat) : (matmul a b).cell [i, j] = ∑ k ∈ range inner, a.cell [i, k] * b.cell [k, j] := by
  have dim : a.shape.getD 1 0 = inner := by simp [left]
  simp only [matmul, dim]
  rw [total_eq_sum, sum_box_single]
  rfl

omit [CommRing S] in
theorem transpose_matrix {a : Tensor S} {rows columns : Nat} (shape : a.shape = [rows, columns]) :
    (a.transpose [1, 0]).shape = [columns, rows] ∧ ∀ i j, (a.transpose [1, 0]).cell [i, j] = a.cell [j, i] := by
  constructor
  · simp [transpose, shape]
  · intro i j
    simp only [transpose, shape]
    rfl

section
variable {g a b : Tensor S} {rows inner columns : Nat}

theorem dot_matmul_left (left : a.shape = [rows, inner]) (right : b.shape = [inner, columns])
    (shape : g.shape = [rows, columns]) : dot g (matmul a b) = dot (matmul g (b.transpose [1, 0])) a := by
  have result : (matmul a b).shape = [rows, columns] := by simp [matmul, left, right]
  rw [dot, dot, result, left]
  simp only [sum_box_cons, sum_box_nil, matmul_cell left, matmul_cell shape, (transpose_matrix right).2,
    Finset.mul_sum, Finset.sum_mul]
  refine Finset.sum_congr rfl fun i _ => Finset.sum_comm.trans ?_
  exact Finset.sum_congr rfl fun k _ => Finset.sum_congr rfl fun j _ => by ring

theorem dot_matmul_right (left : a.shape = [rows, inner]) (right : b.shape = [inner, columns]) : dot g
    (matmul a b) = dot (matmul (a.transpose [1, 0]) g) b := by
  have result : (matmul a b).shape = [rows, columns] := by simp [matmul, left, right]
  rw [dot, dot, result, right]
  simp only [sum_box_cons, sum_box_nil, matmul_cell left, matmul_cell (transpose_matrix left).1,
    (transpose_matrix left).2, Finset.mul_sum, Finset.sum_mul]
  simp only [Finset.sum_comm (s := range columns) (t := range inner)]
  refine Finset.sum_comm.trans (Finset.sum_congr rfl fun k _ => Finset.sum_comm.trans ?_)
  exact Finset.sum_congr rfl fun j _ => Finset.sum_congr rfl fun i _ => by ring

end

/-- The coordinate of features that a window reads, margins of zeros around. -/
theorem padded_eq_sum (w : Windowing) {x : Tensor S} {batches channels height width : Nat}
    (shape : x.shape = [batches, channels, height, width]) (b c row column : Nat) :
    padded w x b c row column = ∑ r ∈ range height, ∑ q ∈ range width,
      if r + w.padding.1 = row ∧ q + w.padding.2 = column then x.cell [b, c, r, q] else 0 := by
  have tall : x.shape.getD 2 0 = height := by simp [shape]
  have wide : x.shape.getD 3 0 = width := by simp [shape]
  rw [padded, tall, wide]
  split
  · rename_i inside
    obtain ⟨top, bottom, left, right⟩ := inside
    rw [Finset.sum_eq_single (row - w.padding.1), Finset.sum_eq_single (column - w.padding.2), if_pos]
    · omega
    · exact fun q _ other => if_neg (by omega)
    · exact fun outside => absurd (Finset.mem_range.mpr (by omega)) outside
    · exact fun r _ other => Finset.sum_eq_zero fun q _ => if_neg (by omega)
    · exact fun outside => absurd (Finset.mem_range.mpr (by omega)) outside
  · rename_i outside
    refine (Finset.sum_eq_zero fun r tall => Finset.sum_eq_zero fun q wide => if_neg ?_).symm
    rw [Finset.mem_range] at tall wide
    omega

theorem convolution_cell (w : Windowing) {shape : Shape} {x filters : Tensor S}
    {outputs channels rows columns : Nat} (kernel : filters.shape = [outputs, channels, rows, columns])
    (b o y z : Nat) :
    (convolution w shape x filters).cell [b, o, y, z] =
      ∑ c ∈ range channels, ∑ i ∈ range rows, ∑ j ∈ range columns,
        padded w x b c (y * w.stride.1 + i) (z * w.stride.2 + j) * filters.cell [o, c, i, j] := by
  simp only [convolution]
  rw [total_eq_sum, kernel, List.drop_succ_cons, List.drop_zero]
  simp only [sum_box_cons, sum_box_nil]

theorem filtersGradient_cell (w : Windowing) {shape : Shape} {g x : Tensor S}
    {batches outputs height width : Nat} (gradient : g.shape = [batches, outputs, height, width])
    (o c i j : Nat) :
    (filtersGradient w shape g x).cell [o, c, i, j] =
      ∑ b ∈ range batches, ∑ y ∈ range height, ∑ z ∈ range width,
        padded w x b c (y * w.stride.1 + i) (z * w.stride.2 + j) * g.cell [b, o, y, z] := by
  simp only [filtersGradient]
  rw [total_eq_sum, gradient]
  simp only [List.getD_cons_zero, List.getD_cons_succ, sum_box_cons, sum_box_nil]

/-- The windows that meet a coordinate with a given cell: one at most. -/
theorem windowAt?_sum {stride : Nat} (count place i : Nat) (step : 1 ≤ stride) (f : Nat → S) :
    (match windowAt? stride count place i with | some y => f y | none => 0) =
      ∑ y ∈ range count, if place = y * stride + i then f y else 0 := by
  unfold windowAt?
  split
  · rename_i y found
    split at found
    · rename_i inside
      obtain ⟨below, exact, few⟩ := inside
      cases found
      have whole := Nat.div_add_mod' (place - i) stride
      rw [exact, Nat.add_zero] at whole
      rw [Finset.sum_eq_single ((place - i) / stride), if_pos (by omega)]
      · intro y _ other
        refine if_neg fun same => other ?_
        rw [same, Nat.add_sub_cancel, Nat.mul_div_cancel _ (by omega)]
      · exact fun outside => absurd (Finset.mem_range.mpr few) outside
    · cases found
  · rename_i absent
    split at absent
    · cases absent
    · rename_i outside
      refine (Finset.sum_eq_zero fun y few => if_neg fun same => outside ?_).symm
      have reached : place - i = y * stride := by omega
      rw [reached, Nat.mul_mod_left, Nat.mul_div_cancel _ (by omega)]
      exact ⟨by omega, rfl, Finset.mem_range.mp few⟩

theorem featuresGradient_cell (w : Windowing) (down : 1 ≤ w.stride.1) (right : 1 ≤ w.stride.2)
    {shape : Shape} {g filters : Tensor S} {batches outputs height width channels rows columns : Nat}
    (gradient : g.shape = [batches, outputs, height, width])
    (kernel : filters.shape = [outputs, channels, rows, columns]) (b c r q : Nat) :
    (featuresGradient w shape g filters).cell [b, c, r, q] =
      ∑ i ∈ range rows, ∑ j ∈ range columns, ∑ y ∈ range height, ∑ z ∈ range width,
        ∑ o ∈ range outputs,
          if r + w.padding.1 = y * w.stride.1 + i ∧ q + w.padding.2 = z * w.stride.2 + j then
            g.cell [b, o, y, z] * filters.cell [o, c, i, j]
          else 0 := by
  simp only [featuresGradient]
  rw [total_eq_sum, kernel, gradient]
  simp only [List.drop_succ_cons, List.drop_zero, List.getD_cons_zero, List.getD_cons_succ, sum_box_cons,
    sum_box_nil]
  refine Finset.sum_congr rfl fun i _ => Finset.sum_congr rfl fun j _ => ?_
  let cell (y z : Nat) : S := ∑ o ∈ range outputs, g.cell [b, o, y, z] * filters.cell [o, c, i, j]
  have outer := windowAt?_sum height (r + w.padding.1) i down fun y =>
    match windowAt? w.stride.2 width (q + w.padding.2) j with | some z => cell y z | none => 0
  simp only [windowAt?_sum _ _ _ right] at outer
  refine Eq.trans ?_ (outer.trans (Finset.sum_congr rfl fun y _ => ?_))
  · cases windowAt? w.stride.1 height (r + w.padding.1) i with
    | none => rfl
    | some y =>
      dsimp only
      rw [← windowAt?_sum _ _ _ right]
      cases windowAt? w.stride.2 width (q + w.padding.2) j with
      | none => rfl
      | some z => exact (total_eq_sum [outputs] _).trans (sum_box_single ..)
  · by_cases here : r + w.padding.1 = y * w.stride.1 + i <;> simp [here, cell]

section
variable (w : Windowing) {g x filters : Tensor S}
  {batches channels outputs height width rows columns tall wide : Nat}

/-- What a cell of the features contributes, under its indices and those of the other cells. -/
def featuresTerm (g filters x : Tensor S) : Index → S
  | [b, o, y, z, c, i, j, r, q] =>
    if r + w.padding.1 = y * w.stride.1 + i ∧ q + w.padding.2 = z * w.stride.2 + j then
      g.cell [b, o, y, z] * filters.cell [o, c, i, j] * x.cell [b, c, r, q]
    else 0
  | _ => 0

/-- What a cell of the filters contributes, under its indices and those of the other cells. -/
def filtersTerm (g x filters : Tensor S) : Index → S
  | [b, o, y, z, c, i, j] =>
    g.cell [b, o, y, z] * padded w x b c (y * w.stride.1 + i) (z * w.stride.2 + j) *
      filters.cell [o, c, i, j]
  | _ => 0

/-- A convolution paired with a gradient is the features paired with theirs. -/
theorem dot_convolution_features (down : 1 ≤ w.stride.1) (right : 1 ≤ w.stride.2)
    (features : x.shape = [batches, channels, height, width])
    (kernel : filters.shape = [outputs, channels, rows, columns])
    (result : g.shape = [batches, outputs, tall, wide]) :
    dot g (convolution w g.shape x filters) = dot (featuresGradient w x.shape g filters) x := by
  have order : [0, 4, 7, 8, 5, 6, 2, 3, 1].Perm (List.range 9) := by decide
  have moved : ∑ i ∈ box [batches, channels, height, width, rows, columns, tall, wide, outputs],
      featuresTerm w g filters x (backward [0, 4, 7, 8, 5, 6, 2, 3, 1] 9 i) =
        ∑ j ∈ box [batches, outputs, tall, wide, channels, rows, columns, height, width],
          featuresTerm w g filters x j :=
    sum_transposed (s := [batches, outputs, tall, wide, channels, rows, columns, height, width]) order
      fun _ j => featuresTerm w g filters x j
  simp only [sum_box_cons, sum_box_nil] at moved
  have shape : (convolution w g.shape x filters).shape = g.shape := rfl
  rw [dot, dot, shape, features, result]
  simp only [sum_box_cons, sum_box_nil, convolution_cell w kernel,
    featuresGradient_cell w down right result kernel, padded_eq_sum w features, Finset.mul_sum,
    Finset.sum_mul, ite_mul, mul_ite, zero_mul, mul_zero, mul_comm (x.cell _), ← mul_assoc]
  exact moved.symm

theorem dot_convolution_filters
    (kernel : filters.shape = [outputs, channels, rows, columns])
    (result : g.shape = [batches, outputs, tall, wide]) :
    dot g (convolution w g.shape x filters) = dot (filtersGradient w filters.shape g x) filters := by
  have order : [1, 4, 5, 6, 0, 2, 3].Perm (List.range 7) := by decide
  have moved : ∑ i ∈ box [outputs, channels, rows, columns, batches, tall, wide],
      filtersTerm w g x filters (backward [1, 4, 5, 6, 0, 2, 3] 7 i) =
        ∑ j ∈ box [batches, outputs, tall, wide, channels, rows, columns],
          filtersTerm w g x filters j :=
    sum_transposed (s := [batches, outputs, tall, wide, channels, rows, columns]) order fun _ j =>
      filtersTerm w g x filters j
  simp only [sum_box_cons, sum_box_nil] at moved
  have shape : (convolution w g.shape x filters).shape = g.shape := rfl
  rw [dot, dot, shape, kernel, result]
  simp only [sum_box_cons, sum_box_nil, convolution_cell w kernel, filtersGradient_cell w result,
    Finset.mul_sum, Finset.sum_mul, mul_comm (padded ..) (g.cell _), ← mul_assoc]
  exact moved.symm

end
/-! Softmax: all happens along the last axis. -/

theorem softmaxGradient_cell {g y : Tensor S} {lead : Shape} {dim : Nat} (shape : y.shape = lead ++ [dim])
    (p : Index) (k : Nat) :
    (softmaxGradient g y).cell (p ++ [k]) =
      y.cell (p ++ [k]) * (g.cell (p ++ [k]) - ∑ l ∈ range dim, g.cell (p ++ [l]) * y.cell (p ++ [l])) := by
  simp only [softmaxGradient, shape, List.dropLast_concat, List.getLastD_concat]
  rw [total_eq_sum, sum_box_single]

theorem softmax_row (dim : Nat) (g u y du dy : Nat → S) :
    ∑ k ∈ range dim, g k * (dy k * (u k - ∑ l ∈ range dim, u l * y l) +
        y k * (du k - ∑ l ∈ range dim, (u l * dy l + du l * y l))) =
      ∑ k ∈ range dim, y k * (g k - ∑ l ∈ range dim, g l * y l) * du k +
        ∑ k ∈ range dim, (g k * (u k - ∑ l ∈ range dim, u l * y l) - u k * ∑ l ∈ range dim, g l * y l) * dy k := by
  have swap : ∑ k ∈ range dim, g k * (y k * ∑ l ∈ range dim, (u l * dy l + du l * y l)) =
      ∑ k ∈ range dim, (u k * dy k + du k * y k) * ∑ l ∈ range dim, g l * y l := by
    simp only [← mul_assoc, ← Finset.sum_mul]
    rw [mul_comm]
  have left : ∀ k, g k * (dy k * (u k - ∑ l ∈ range dim, u l * y l) +
      y k * (du k - ∑ l ∈ range dim, (u l * dy l + du l * y l))) =
        g k * dy k * (u k - ∑ l ∈ range dim, u l * y l) + g k * y k * du k -
          g k * (y k * ∑ l ∈ range dim, (u l * dy l + du l * y l)) := fun k => by ring
  simp only [left]
  rw [Finset.sum_sub_distrib, swap, ← Finset.sum_sub_distrib, ← Finset.sum_add_distrib]
  exact Finset.sum_congr rfl fun k _ => by ring

end TensorDag.Tensor
