import Mathlib.Logic.Basic
import TensorDag.Operator.Typing
import TensorDag.Proofs.Outcome

/-!
When the rules of kinds infer a type: one lemma for each rule says which inputs it accepts and which type
it gives to them.
-/
namespace TensorDag

namespace Result
variable {α : Type} {x : Result α} {a : α} {c : Prop} [Decidable c]

theorem if_fault_eq_ok {fault : ShapeFault} : (if c then Result.shape fault else x) = .ok a ↔ ¬c ∧ x = .ok a := by
  by_cases here : c
  · rw [if_pos here]
    exact ⟨nofun, fun both => absurd here both.1⟩
  · rw [if_neg here]
    exact ⟨fun made => ⟨here, made⟩, And.right⟩

theorem if_else_fault_eq_ok {fault : ShapeFault} :
    (if c then x else Result.shape fault) = .ok a ↔ c ∧ x = .ok a := by
  by_cases here : c
  · rw [if_pos here]
    exact ⟨fun made => ⟨here, made⟩, And.right⟩
  · rw [if_neg here]
    exact ⟨nofun, fun both => absurd both.1 here⟩

end Result

namespace Operator
open Result (bind_eq_ok pure_eq_ok exists_unit if_fault_eq_ok if_else_fault_eq_ok)
variable {types : List TensorType} {type t a b c : TensorType}

theorem one_eq_ok : one types = .ok t ↔ types = [t] := by
  unfold one
  split
  · simp
  · rename_i other
    simpa [Result.fault] using other t

theorem two_eq_ok : two types = .ok (a, b) ↔ types = [a, b] := by
  unfold two
  split <;> simp_all [Result.fault]

theorem three_eq_ok : three types = .ok (a, b, c) ↔ types = [a, b, c] := by
  unfold three
  split <;> simp_all [Result.fault]

theorem arity_eq_ok {kind : Kind} {count : Nat} : kind.expectArity types count = .ok () ↔ types.length = count := by
  rw [Kind.expectArity, if_else_fault_eq_ok]
  exact and_iff_left rfl

theorem sameElementType_eq_ok {kind : Kind} : sameElementType kind types = .ok () ↔
    ∀ t ∈ types, t.elementType = (Kind.source types).elementType := by
  rw [sameElementType, if_else_fault_eq_ok]
  simp

theorem inferBinary_eq_ok {op : BinaryKind} : inferBinary op types = .ok type ↔
    ∃ a b s, types = [a, b] ∧ a.elementType = b.elementType ∧ Shape.broadcast a.shape b.shape = .ok s ∧
      ⟨a.elementType, s⟩ = type := by
  simp only [inferBinary, exists_unit, arity_eq_ok, bind_eq_ok, Prod.exists, two_eq_ok, if_fault_eq_ok,
    pure_eq_ok, not_not]
  constructor
  · rintro ⟨-, a, b, both, typed, s, common, made⟩
    exact ⟨a, b, s, both, typed, common, made⟩
  · rintro ⟨a, b, s, rfl, typed, common, made⟩
    exact ⟨rfl, a, b, rfl, typed, s, common, made⟩

theorem inferUnary_eq_ok {op : UnaryKind} : inferUnary op types = .ok type ↔ types = [type] := by
  simp only [inferUnary, bind_eq_ok, exists_unit, arity_eq_ok, one_eq_ok]
  exact ⟨And.right, fun single => ⟨congrArg List.length single, single⟩⟩

theorem inferMatmul_eq_ok : inferMatmul types = .ok type ↔
    ∃ e rows inner columns, types = [⟨e, [rows, inner]⟩, ⟨e, [inner, columns]⟩] ∧ ⟨e, [rows, columns]⟩ = type := by
  simp only [inferMatmul, exists_unit, arity_eq_ok, bind_eq_ok, Prod.exists, two_eq_ok]
  constructor
  · rintro ⟨-, ⟨e, s⟩, ⟨e', s'⟩, rfl, made⟩
    dsimp only at made
    split at made
    · rename_i rows inner inner' columns
      simp only [if_fault_eq_ok, not_not, pure_eq_ok] at made
      obtain ⟨rfl, rfl, rfl⟩ := made
      exact ⟨e, rows, _, columns, rfl, rfl⟩
    · cases made
  · rintro ⟨e, rows, inner, columns, rfl, rfl⟩
    refine ⟨rfl, _, _, rfl, ?_⟩
    simp only [if_fault_eq_ok, not_not, pure_eq_ok, and_self]

theorem inferReduction_eq_ok {axes : List Nat} : inferReduction axes types = .ok type ↔
    ∃ t, types = [t] ∧ ⟨t.elementType, Shape.keep t.shape axes⟩ = type := by
  simp only [inferReduction, bind_eq_ok, one_eq_ok, pure_eq_ok]

theorem inferArgmin_eq_ok {axis : Nat} : inferArgmin axis types = .ok type ↔
    ∃ t, types = [t] ∧ axis < t.rank ∧ ⟨.int32, Shape.replace t.shape axis 1⟩ = type := by
  have decided : ∀ t : TensorType, (if axis < t.rank then
      pure ⟨.int32, Shape.replace t.shape axis 1⟩ else Result.fault .noPlace) = .ok type ↔
        axis < t.rank ∧ ⟨.int32, Shape.replace t.shape axis 1⟩ = type := by
    intro t
    by_cases inside : axis < t.rank
    · rw [if_pos inside, pure_eq_ok, and_iff_right inside]
    · rw [if_neg inside]
      exact ⟨nofun, fun both => absurd both.1 inside⟩
  simp only [inferArgmin, bind_eq_ok, one_eq_ok, decided]

theorem inferReshape_eq_ok {s : Shape} : inferReshape s types = .ok type ↔
    ∃ t, types = [t] ∧ Shape.volume s = t.volume ∧ ⟨t.elementType, s⟩ = type := by
  simp only [inferReshape, bind_eq_ok, one_eq_ok, if_fault_eq_ok, not_not, pure_eq_ok]

theorem inferTranspose_eq_ok {order : List Int} : inferTranspose order types = .ok type ↔
    ∃ t, types = [t] ∧ isPermutation order t.rank = true ∧
      ⟨t.elementType, order.map fun axis => t.shape.getD axis.toNat 0⟩ = type := by
  simp only [inferTranspose, bind_eq_ok, one_eq_ok, if_fault_eq_ok, pure_eq_ok, Bool.not_eq_true, Bool.not_eq_false']

theorem inferSlice_eq_ok {start stop : List Int} : inferSlice start stop types = .ok type ↔
    ∃ t, types = [t] ∧ (start.length = t.rank ∧ stop.length = t.rank) ∧
      ∃ s, sliceDims start stop t.shape = .ok s ∧ ⟨t.elementType, s⟩ = type := by
  simp only [inferSlice, bind_eq_ok, one_eq_ok, if_fault_eq_ok, not_or, not_not, pure_eq_ok]

theorem inferPad_eq_ok {before after : List Int} : inferPad before after types = .ok type ↔
    ∃ t, types = [t] ∧ (before.length = t.rank ∧ after.length = t.rank) ∧
      ((∀ i ∈ before, 0 ≤ i) ∧ ∀ i ∈ after, 0 ≤ i) ∧ ⟨t.elementType, List.zipWith (· + ·)
        (List.zipWith (· + ·) (before.map Int.toNat) t.shape) (after.map Int.toNat)⟩ = type := by
  simp only [inferPad, bind_eq_ok, one_eq_ok, if_fault_eq_ok, not_or, not_not, pure_eq_ok, Bool.or_eq_true,
    List.any_eq_true, decide_eq_true_eq, not_exists, not_and, Int.not_lt]

theorem inferRepeated_eq_ok {count : Int} : inferRepeated count types = .ok type ↔
    ∃ t, types = [t] ∧ 1 ≤ count ∧ ⟨t.elementType, count.toNat :: t.shape⟩ = type := by
  simp only [inferRepeated, bind_eq_ok, one_eq_ok, if_fault_eq_ok, Int.not_lt, pure_eq_ok]

theorem inferBroadcast_eq_ok {s : Shape} : inferBroadcast s types = .ok type ↔
    ∃ t, types = [t] ∧ Shape.common t.shape s (.cannotStretch t s) = .ok s ∧ ⟨t.elementType, s⟩ = type := by
  simp only [inferBroadcast, bind_eq_ok, one_eq_ok, if_else_fault_eq_ok, pure_eq_ok]
  refine exists_congr fun t => and_congr_right fun _ => ?_
  constructor
  · rintro ⟨_, found, rfl, made⟩
    exact ⟨found, made⟩
  · rintro ⟨found, made⟩
    exact ⟨s, found, rfl, made⟩

variable {c : ConvolutionAttributes}

theorem inferConvolution_eq_ok : inferConvolution c types = .ok type ↔
    ∃ a b s, types = [a, b] ∧ b.elementType = a.elementType ∧ c.shape a.shape b.shape = .ok s ∧
      ⟨a.elementType, s⟩ = type := by
  simp only [inferConvolution, bind_eq_ok, Prod.exists, two_eq_ok, exists_unit, sameElementType_eq_ok, pure_eq_ok]
  constructor
  · rintro ⟨a, b, rfl, typed, s, fits, made⟩
    exact ⟨a, b, s, rfl, typed b (by simp), fits, made⟩
  · rintro ⟨a, b, s, rfl, typed, fits, made⟩
    exact ⟨a, b, rfl, by simpa [Kind.source] using typed, s, fits, made⟩

theorem inferFeaturesGradient_eq_ok : inferFeaturesGradient c types = .ok type ↔
    ∃ a b s, types = [a, b] ∧ b.elementType = a.elementType ∧ c.features = some s ∧ c.shape s b.shape = .ok a.shape ∧
      ⟨a.elementType, s⟩ = type := by
  simp only [inferFeaturesGradient, bind_eq_ok, Prod.exists, two_eq_ok, exists_unit, sameElementType_eq_ok]
  constructor
  · rintro ⟨a, b, rfl, typed, made⟩
    split at made
    · cases made
    · rename_i s known
      simp only [bind_eq_ok, if_fault_eq_ok, not_not, pure_eq_ok] at made
      obtain ⟨_, fits, rfl, made⟩ := made
      exact ⟨a, b, s, rfl, typed b (by simp), known, fits, made⟩
  · rintro ⟨a, b, s, rfl, typed, known, fits, made⟩
    refine ⟨a, b, rfl, by simpa [Kind.source] using typed, ?_⟩
    simp only [known, bind_eq_ok, if_fault_eq_ok, not_not, pure_eq_ok]
    exact ⟨_, fits, rfl, made⟩

theorem inferFiltersGradient_eq_ok : inferFiltersGradient c types = .ok type ↔
    ∃ a b s, types = [a, b] ∧ b.elementType = a.elementType ∧ c.filters = some s ∧ c.shape b.shape s = .ok a.shape ∧
      ⟨a.elementType, s⟩ = type := by
  simp only [inferFiltersGradient, bind_eq_ok, Prod.exists, two_eq_ok, exists_unit, sameElementType_eq_ok]
  constructor
  · rintro ⟨a, b, rfl, typed, made⟩
    split at made
    · cases made
    · rename_i s known
      simp only [bind_eq_ok, if_fault_eq_ok, not_not, pure_eq_ok] at made
      obtain ⟨_, fits, rfl, made⟩ := made
      exact ⟨a, b, s, rfl, typed b (by simp), known, fits, made⟩
  · rintro ⟨a, b, s, rfl, typed, known, fits, made⟩
    refine ⟨a, b, rfl, by simpa [Kind.source] using typed, ?_⟩
    simp only [known, bind_eq_ok, if_fault_eq_ok, not_not, pure_eq_ok]
    exact ⟨_, fits, rfl, made⟩

theorem inferMaxpool_eq_ok {dims : Int × Int} : inferMaxpool dims types = .ok type ↔
    ∃ t s, types = [t] ∧ pooledShape dims t.shape = .ok s ∧ ⟨t.elementType, s⟩ = type := by
  simp only [inferMaxpool, bind_eq_ok, one_eq_ok, pure_eq_ok]
  exact ⟨fun ⟨t, single, s, fits, made⟩ => ⟨t, s, single, fits, made⟩,
    fun ⟨t, s, single, fits, made⟩ => ⟨t, single, s, fits, made⟩⟩

theorem inferMaxpoolGradient_eq_ok {dims : Int × Int} : inferMaxpoolGradient dims types = .ok type ↔
    ∃ a b, types = [a, b, type] ∧ b.elementType = a.elementType ∧ type.elementType = a.elementType ∧
      pooledShape dims type.shape = .ok b.shape ∧ a.shape = b.shape := by
  simp only [inferMaxpoolGradient, bind_eq_ok, Prod.exists, three_eq_ok, exists_unit, sameElementType_eq_ok,
    if_fault_eq_ok, not_or, not_not]
  constructor
  · rintro ⟨a, b, t, rfl, typed, s, fits, ⟨rfl, same⟩, made⟩
    cases made
    exact ⟨a, b, rfl, typed b (by simp), typed type (by simp), fits, same⟩
  · rintro ⟨a, b, rfl, second, third, fits, same⟩
    exact ⟨a, b, type, rfl, by simpa [Kind.source] using ⟨second, third⟩, _, fits, ⟨rfl, same⟩, rfl⟩

theorem inferSoftmax_eq_ok : inferSoftmax types = .ok type ↔
    types = [type] ∧ 1 ≤ type.rank ∧ type.elementType.isFloating = true := by
  simp only [inferSoftmax, exists_unit, arity_eq_ok, bind_eq_ok, one_eq_ok, if_fault_eq_ok, pure_eq_ok, Nat.not_lt,
    Bool.not_eq_true, Bool.not_eq_false']
  constructor
  · rintro ⟨-, t, rfl, axes, floating, rfl⟩
    exact ⟨rfl, axes, floating⟩
  · rintro ⟨rfl, axes, floating⟩
    exact ⟨rfl, type, rfl, axes, floating, rfl⟩

theorem inferSoftmaxGradient_eq_ok : inferSoftmaxGradient types = .ok type ↔ types = [type, type] := by
  simp only [inferSoftmaxGradient, exists_unit, arity_eq_ok, bind_eq_ok, Prod.exists, two_eq_ok, if_fault_eq_ok,
    not_not, pure_eq_ok]
  constructor
  · rintro ⟨-, a, b, rfl, rfl, rfl⟩
    rfl
  · rintro rfl
    exact ⟨rfl, type, type, rfl, rfl, rfl⟩

end Operator
end TensorDag
