import Mathlib.Algebra.DualNumber
import TensorDag.Proofs.Polynomial

/-!
Tensors of dual numbers: a value and a tangent in every cell. The value of a result is the result on the
values; its tangent, paired with a gradient, is what the arguments' tangents give with gradients of
their own.
-/
namespace TensorDag
open Shape

namespace Tensor
variable {S T : Type}

theorem map_total [AddCommMonoid S] [AddCommMonoid T] (φ : S →+ T) (s : Shape) (f : Index → S) :
    φ (total (indices s) f) = total (indices s) fun i => φ (f i) := by
  rw [total_eq_sum, total_eq_sum, map_sum]

theorem map_sum_axes [AddCommMonoid S] [AddCommMonoid T] (φ : S →+ T) (axes : List Nat) (t : Tensor S) :
    (t.sum axes).map φ = (t.map φ).sum axes := by
  unfold Tensor.sum
  split
  · rfl
  · simp only [Tensor.map, map_total]

theorem map_pad [AddZeroClass S] [AddZeroClass T] (φ : S →+ T) (before after : List Nat) (t : Tensor S) :
    (t.pad before after).map φ = (t.map φ).pad before after := by
  simp only [Tensor.map, pad, apply_ite φ, map_zero]
  rfl

section
variable [CommRing S] [CommRing T] (φ : S →+* T)

theorem map_padded (w : Windowing) (x : Tensor S) (b c row column : Nat) :
    φ (padded w x b c row column) = padded w (x.map φ) b c row column := by
  simp only [padded, Tensor.map, apply_ite φ, map_zero]
  rfl

theorem map_matmul (a b : Tensor S) : (matmul a b).map φ = matmul (a.map φ) (b.map φ) := by
  simp only [Tensor.map, matmul, ← map_mul]
  exact congrArg _ (funext fun i => map_total φ.toAddMonoidHom ..)

theorem map_convolution (w : Windowing) (shape : Shape) (x filters : Tensor S) :
    (convolution w shape x filters).map φ = convolution w shape (x.map φ) (filters.map φ) := by
  refine congrArg (Tensor.mk shape) (funext fun index => ?_)
  simp only [convolution]
  split
  · refine (map_total φ.toAddMonoidHom ..).trans (congrArg _ (funext fun inner => ?_))
    split
    · exact (map_mul φ ..).trans (congrArg (· * _) (map_padded φ ..))
    · exact map_zero φ
  · exact map_zero φ

theorem map_featuresGradient (w : Windowing) (shape : Shape) (g filters : Tensor S) :
    (featuresGradient w shape g filters).map φ = featuresGradient w shape (g.map φ) (filters.map φ) := by
  refine congrArg (Tensor.mk shape) (funext fun index => ?_)
  simp only [featuresGradient]
  split
  · refine (map_total φ.toAddMonoidHom ..).trans (congrArg _ (funext fun inner => ?_))
    split
    · simp only [Tensor.map]
      split
      · exact (map_total φ.toAddMonoidHom ..).trans (congrArg _ (funext fun o => map_mul φ ..))
      · exact map_zero φ
    · exact map_zero φ
  · exact map_zero φ

theorem map_filtersGradient (w : Windowing) (shape : Shape) (g x : Tensor S) :
    (filtersGradient w shape g x).map φ = filtersGradient w shape (g.map φ) (x.map φ) := by
  refine congrArg (Tensor.mk shape) (funext fun index => ?_)
  simp only [filtersGradient]
  split
  · refine (map_total φ.toAddMonoidHom ..).trans (congrArg _ (funext fun inner => ?_))
    split
    · exact (map_mul φ ..).trans (congrArg (· * _) (map_padded φ ..))
    · exact map_zero φ
  · exact map_zero φ

theorem map_softmaxGradient (g y : Tensor S) :
    (softmaxGradient g y).map φ = softmaxGradient (g.map φ) (y.map φ) := by
  refine congrArg (Tensor.mk y.shape) (funext fun index => ?_)
  have sums := map_total φ.toAddMonoidHom [y.shape.getLastD 1] fun k =>
    g.cell (index.dropLast ++ k) * y.cell (index.dropLast ++ k)
  simp only [RingHom.toAddMonoidHom_eq_coe, AddMonoidHom.coe_coe, map_mul] at sums
  simp only [softmaxGradient, Tensor.map, map_mul, map_sub, sums]

end
end Tensor

/-- Polynomial operators compute alike over all rings. -/
theorem Operator.tensor_map {S T : Type} [CommRing S] [CommRing T] (φ : S →+* T) (op : Operator)
    (shape : Shape) (args : List (Tensor S)) :
    (op.tensor shape args).map φ = op.tensor shape (args.map (Tensor.map φ)) := by
  have zero : (Tensor.mk shape fun _ => (0 : S)).map φ = ⟨shape, fun _ => 0⟩ := by
    simp only [Tensor.map, map_zero]
  rcases args with _ | ⟨a, _ | ⟨b, _ | ⟨_, _⟩⟩⟩
  · exact zero
  · cases op with
    | unary op => simp only [Operator.tensor, List.map_cons, List.map_nil, Tensor.map, map_neg]
    | sum axes => exact Tensor.map_sum_axes φ.toAddMonoidHom axes a
    | pad before after => exact Tensor.map_pad φ.toAddMonoidHom _ _ a
    | reshape | transpose | slice | repeated | broadcast => rfl
    | _ => exact zero
  · cases op with
    | binary op =>
      cases op with
      | add | sub | mul =>
        simp only [Operator.tensor, List.map_cons, List.map_nil, Tensor.map, Tensor.zipWith, map_add, map_sub,
          map_mul]
      | _ => exact zero
    | matmul => exact Tensor.map_matmul φ a b
    | convolution c => exact Tensor.map_convolution φ _ _ a b
    | featuresGradient c => exact Tensor.map_featuresGradient φ _ _ a b
    | filtersGradient c => exact Tensor.map_filtersGradient φ _ _ a b
    | softmaxGradient => exact Tensor.map_softmaxGradient φ a b
    | _ => exact zero
  · exact zero

namespace Tensor
open Finset (range)
open TrivSqZeroExt (fst snd)
variable {R : Type} [CommRing R]

def value (t : Tensor (DualNumber R)) : Tensor R := t.map fst

def tangent (t : Tensor (DualNumber R)) : Tensor R := t.map snd

omit [CommRing R] in
@[simp] theorem value_shape (t : Tensor (DualNumber R)) : t.value.shape = t.shape := rfl

omit [CommRing R] in
@[simp] theorem tangent_shape (t : Tensor (DualNumber R)) : t.tangent.shape = t.shape := rfl

end Tensor

theorem Operator.tensor_value {R : Type} [CommRing R] (op : Operator) (shape : Shape)
    (args : List (Tensor (DualNumber R))) :
    (op.tensor shape args).value = op.tensor shape (args.map Tensor.value) :=
  op.tensor_map (TrivSqZeroExt.fstHom R R R).toRingHom shape args

namespace Tensor
open Finset (range)
open TrivSqZeroExt (fst snd)
variable {R : Type} [CommRing R]

theorem snd_total (s : Shape) {f : Index → DualNumber R} {p q : Index → R}
    (parts : ∀ i, (f i).snd = p i + q i) :
    (total (indices s) f).snd = total (indices s) p + total (indices s) q := by
  simp only [total_eq_sum, TrivSqZeroExt.snd_sum, parts, Finset.sum_add_distrib]

theorem dot_add {g t x y : Tensor R} (left : x.shape = t.shape) (right : y.shape = t.shape)
    (cells : ∀ i, t.cell i = x.cell i + y.cell i) : dot g t = dot g x + dot g y := by
  simp only [dot, left, right, cells, mul_add, Finset.sum_add_distrib]

section
variable {g : Tensor R} {a b : Tensor (DualNumber R)} {rows inner columns : Nat}

theorem dot_tangent_matmul (left : a.shape = [rows, inner]) (right : b.shape = [inner, columns])
    (shape : g.shape = [rows, columns]) :
    dot g (matmul a b).tangent =
      dot (matmul g (b.value.transpose [1, 0])) a.tangent +
        dot (matmul (a.value.transpose [1, 0]) g) b.tangent := by
  have parts : dot g (matmul a b).tangent =
      dot g (matmul a.value b.tangent) + dot g (matmul a.tangent b.value) :=
    dot_add rfl rfl fun i => snd_total _ fun k => DualNumber.snd_mul ..
  rw [parts, add_comm, dot_matmul_left (a := a.tangent) left right shape,
    dot_matmul_right (b := b.tangent) left right]

end

section
variable (w : Windowing) {g x filters : Tensor (DualNumber R)} {u : Tensor R}
  {batches channels outputs height width rows columns tall wide : Nat}

theorem snd_padded_mul (b c row column : Nat) (d : DualNumber R) :
    (padded w x b c row column * d).snd =
      padded w x.value b c row column * d.snd + padded w x.tangent b c row column * d.fst := by
  have value : (padded w x b c row column).fst = padded w x.value b c row column := by
    unfold padded
    exact apply_ite fst ..
  have tangent : (padded w x b c row column).snd = padded w x.tangent b c row column := by
    unfold padded
    exact apply_ite snd ..
  rw [DualNumber.snd_mul, value, tangent]

theorem dot_tangent_convolution (down : 1 ≤ w.stride.1) (right : 1 ≤ w.stride.2)
    (features : x.shape = [batches, channels, height, width])
    (kernel : filters.shape = [outputs, channels, rows, columns])
    (result : u.shape = [batches, outputs, tall, wide]) :
    dot u (convolution w u.shape x filters).tangent =
      dot (featuresGradient w x.shape u filters.value) x.tangent +
        dot (filtersGradient w filters.shape u x.value) filters.tangent := by
  have parts : dot u (convolution w u.shape x filters).tangent =
      dot u (convolution w u.shape x.value filters.tangent) +
        dot u (convolution w u.shape x.tangent filters.value) := by
    refine dot_add rfl rfl fun i => ?_
    simp only [tangent, Tensor.map, convolution]
    split
    · refine snd_total _ fun inner => ?_
      split
      · exact snd_padded_mul ..
      · exact (add_zero 0).symm
    · exact (add_zero 0).symm
  rw [parts, add_comm, dot_convolution_features w (x := x.tangent) down right features kernel result,
    dot_convolution_filters w (show filters.tangent.shape = _ from kernel) result]
  rfl

theorem dot_tangent_featuresGradient (down : 1 ≤ w.stride.1) (right : 1 ≤ w.stride.2)
    (features : u.shape = [batches, channels, height, width])
    (kernel : filters.shape = [outputs, channels, rows, columns])
    (result : g.shape = [batches, outputs, tall, wide]) :
    dot u (featuresGradient w u.shape g filters).tangent =
      dot (convolution w g.shape u filters.value) g.tangent +
        dot (filtersGradient w filters.shape g.value u) filters.tangent := by
  have parts : dot u (featuresGradient w u.shape g filters).tangent =
      dot u (featuresGradient w u.shape g.value filters.tangent) +
        dot u (featuresGradient w u.shape g.tangent filters.value) := by
    refine dot_add rfl rfl fun i => ?_
    simp only [tangent, Tensor.map, featuresGradient]
    split
    · rename_i batch channel row column
      refine snd_total _ fun inner => ?_
      split
      · rename_i i j
        simp only [value_shape]
        cases windowAt? w.stride.1 (g.shape.getD 2 0) (row + w.padding.1) i with
        | none => exact (add_zero 0).symm
        | some y =>
          cases windowAt? w.stride.2 (g.shape.getD 3 0) (column + w.padding.2) j with
          | none => exact (add_zero 0).symm
          | some z => exact snd_total _ fun o => DualNumber.snd_mul (R := R) ..
      · exact (add_zero 0).symm
    · exact (add_zero 0).symm
  have first := dot_convolution_features w down right features (show filters.value.shape = _ from kernel)
    (show g.tangent.shape = _ from result)
  have second := dot_convolution_features w down right features (show filters.tangent.shape = _ from kernel)
    (show g.value.shape = _ from result)
  rw [parts, add_comm, dot_comm (g := u), dot_comm (g := u), ← first, ← second,
    dot_convolution_filters w (show filters.tangent.shape = _ from kernel) result, dot_comm]
  all_goals rfl

theorem dot_tangent_filtersGradient (down : 1 ≤ w.stride.1) (right : 1 ≤ w.stride.2)
    (features : x.shape = [batches, channels, height, width])
    (kernel : u.shape = [outputs, channels, rows, columns])
    (result : g.shape = [batches, outputs, tall, wide]) :
    dot u (filtersGradient w u.shape g x).tangent =
      dot (convolution w g.shape x.value u) g.tangent +
        dot (featuresGradient w x.shape g.value u) x.tangent := by
  have parts : dot u (filtersGradient w u.shape g x).tangent =
      dot u (filtersGradient w u.shape g.value x.tangent) +
        dot u (filtersGradient w u.shape g.tangent x.value) := by
    refine dot_add rfl rfl fun i => ?_
    simp only [tangent, Tensor.map, filtersGradient]
    split
    · refine (snd_total _ fun inner => ?_).trans (add_comm _ _)
      split
      · exact snd_padded_mul ..
      · exact (add_zero 0).symm
    · exact (add_zero 0).symm
  have first := dot_convolution_filters w (g := g.value) (x := x.tangent) kernel result
  have second := dot_convolution_filters w (g := g.tangent) (x := x.value) kernel result
  rw [parts, add_comm, dot_comm (g := u), dot_comm (g := u), ← first, ← second,
    dot_convolution_features w (x := x.tangent) down right features kernel result, dot_comm]
  all_goals rfl

end

/-! Elementwise operations stretch their arguments, so that gradients are gathered. -/

section
variable {g u v : Tensor R} {a b : Tensor (DualNumber R)}

theorem dot_tangent_broadcast (gathers : Gathers u g) (shape : u.shape = a.shape) :
    dot g (a.broadcast g.shape).tangent = dot u a.tangent := by
  have pairs := gathers.pairs a.tangent.cell
  rw [shape] at pairs
  exact pairs

theorem dot_tangent_add (left : Gathers u g) (first : u.shape = a.shape) (right : Gathers v g)
    (second : v.shape = b.shape) :
    dot g (zipWith (· + ·) g.shape a b).tangent = dot u a.tangent + dot v b.tangent := by
  rw [← dot_tangent_broadcast left first, ← dot_tangent_broadcast right second]
  exact dot_add rfl rfl fun _ => rfl

theorem dot_tangent_sub (left : Gathers u g) (first : u.shape = a.shape) (right : Gathers v (g.map (- ·)))
    (second : v.shape = b.shape) :
    dot g (zipWith (· - ·) g.shape a b).tangent = dot u a.tangent + dot v b.tangent := by
  rw [← dot_tangent_broadcast left first, ← dot_tangent_broadcast right second]
  simp only [dot, Tensor.map, tangent, broadcast, zipWith, TrivSqZeroExt.snd_sub, mul_sub, neg_mul]
  rw [Finset.sum_sub_distrib, Finset.sum_neg_distrib, sub_eq_add_neg]

theorem dot_tangent_mul (left : Gathers u (zipWith (· * ·) g.shape g b.value)) (first : u.shape = a.shape)
    (right : Gathers v (zipWith (· * ·) g.shape g a.value)) (second : v.shape = b.shape) :
    dot g (zipWith (· * ·) g.shape a b).tangent = dot u a.tangent + dot v b.tangent := by
  rw [← dot_tangent_broadcast left first, ← dot_tangent_broadcast right second]
  simp only [dot, Tensor.map, tangent, broadcast, zipWith, value, DualNumber.snd_mul]
  rw [← Finset.sum_add_distrib]
  refine Finset.sum_congr rfl fun i inside => ?_
  rw [narrow_self (mem_box.mp inside)]
  ring

theorem dot_tangent_neg : dot g (a.map (- ·)).tangent = dot (g.map (- ·)) a.tangent := by
  simp only [dot, tangent, Tensor.map, TrivSqZeroExt.snd_neg, mul_neg, neg_mul]

end

/-! Softmax. -/

/-- What is taken from a row along the last axis, for a gradient `g` and an output `y` of softmax. -/
structure Balances (v g u y : Tensor R) (lead : Shape) (dim : Nat) : Prop where
  row : ∀ p ∈ box lead, ∀ k < dim, v.cell (p ++ [k]) =
    g.cell (p ++ [k]) * (u.cell (p ++ [k]) - ∑ l ∈ range dim, u.cell (p ++ [l]) * y.cell (p ++ [l])) -
      u.cell (p ++ [k]) * ∑ l ∈ range dim, g.cell (p ++ [l]) * y.cell (p ++ [l])

theorem dot_tangent_softmaxGradient {g v : Tensor R} {u y : Tensor (DualNumber R)} {lead : Shape} {dim : Nat}
    (left : u.shape = lead ++ [dim]) (right : y.shape = lead ++ [dim])
    (balances : Balances v g u.value y.value lead dim) :
    dot g (softmaxGradient u y).tangent = dot (softmaxGradient g y.value) u.tangent + dot v y.tangent := by
  have cells : ∀ p k, (softmaxGradient u y).tangent.cell (p ++ [k]) =
      y.tangent.cell (p ++ [k]) * (u.value.cell (p ++ [k]) -
          ∑ l ∈ range dim, u.value.cell (p ++ [l]) * y.value.cell (p ++ [l])) +
        y.value.cell (p ++ [k]) * (u.tangent.cell (p ++ [k]) -
          ∑ l ∈ range dim, (u.value.cell (p ++ [l]) * y.tangent.cell (p ++ [l]) +
            u.tangent.cell (p ++ [l]) * y.value.cell (p ++ [l]))) := by
    intro p k
    have cell := congrArg snd (softmaxGradient_cell (g := u) right p k)
    simp only [DualNumber.snd_mul, TrivSqZeroExt.snd_sub, TrivSqZeroExt.snd_sum, TrivSqZeroExt.fst_sub,
      TrivSqZeroExt.fst_sum, TrivSqZeroExt.fst_mul] at cell
    exact cell.trans (add_comm _ _)
  have result : (softmaxGradient u y).tangent.shape = lead ++ [dim] := right
  have values : y.value.shape = lead ++ [dim] := right
  rw [dot, dot, dot, result, tangent_shape, tangent_shape, left, right]
  simp only [sum_box_append, sum_box_single, cells, softmaxGradient_cell values]
  rw [← Finset.sum_add_distrib]
  refine Finset.sum_congr rfl fun p inside => ?_
  rw [softmax_row dim (fun k => g.cell (p ++ [k])) (fun k => u.value.cell (p ++ [k]))
    (fun k => y.value.cell (p ++ [k]))]
  refine congrArg (_ + ·) (Finset.sum_congr rfl fun k below => ?_)
  rw [balances.row p inside k (Finset.mem_range.mp below)]

end Tensor
end TensorDag
