import Mathlib.Algebra.Ring.MinimalAxioms
import Mathlib.Data.Int.ModEq
import TensorDag.Element.Int32
import TensorDag.Proofs.Products

/-!
Tensors of whole elements in pairs. Sums and products wrap around, which leaves whole elements a ring; what is equal in
the ring is equal as a sum of products of numbers, up to whole turns.
-/
namespace TensorDag
open Shape

namespace Int32

/-- Whole elements wrap around at `2 ^ 32`. -/
@[reducible] def ring : CommRing Int32 :=
  CommRing.ofMinimalAxioms Int32.add_assoc Int32.zero_add Int32.add_left_neg Int32.mul_assoc Int32.mul_comm
    Int32.one_mul fun _ _ _ => Int32.mul_add

attribute [local instance] ring

theorem toInt_sum_mul (is : Finset Index) (f g : Index → Int32) :
    (∑ i ∈ is, f i * g i).toInt ≡ ∑ i ∈ is, (f i).toInt * (g i).toInt [ZMOD 2 ^ 32] := by
  classical
  induction is using Finset.induction_on with
  | empty => rfl
  | insert i is fresh ih =>
    rw [Finset.sum_insert fresh, Finset.sum_insert fresh]
    have product : (f i * g i).toInt ≡ (f i).toInt * (g i).toInt [ZMOD 2 ^ 32] := by
      rw [Int32.toInt_mul]
      exact Int.bmod_emod
    have sum : (f i * g i + ∑ i ∈ is, f i * g i).toInt ≡
        (f i * g i).toInt + (∑ i ∈ is, f i * g i).toInt [ZMOD 2 ^ 32] := by
      rw [Int32.toInt_add]
      exact Int.bmod_emod
    exact sum.trans (product.add ih)

/-- The sum of the products of the numbers in two tensors, cell by cell. -/
def paired (a b : Tensor Int32) : ℤ := ∑ i ∈ box a.shape, (a.cell i).toInt * (b.cell i).toInt

theorem toInt_dot (a b : Tensor Int32) : (Tensor.dot b a).toInt ≡ paired a b [ZMOD 2 ^ 32] := by
  rw [Tensor.dot, Finset.sum_congr rfl fun i _ => mul_comm (b.cell i) (a.cell i)]
  exact toInt_sum_mul _ a.cell b.cell

theorem paired_of_dot {a b c d : Tensor Int32} (same : Tensor.dot b a = Tensor.dot d c) :
    paired a b ≡ paired c d [ZMOD 2 ^ 32] :=
  (toInt_dot a b).symm.trans (congrArg Int32.toInt same ▸ toInt_dot c d)

end Int32

end TensorDag
