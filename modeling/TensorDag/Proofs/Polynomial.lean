import TensorDag.Operator.Evaluation
import TensorDag.Proofs.Inference
import TensorDag.Proofs.Products

/-!
Operators that only move, add, subtract and multiply elements. Where the rules of their kinds accept the
inputs, such an operator has a result, `Operator.tensor`, of the shape that the rules infer, whatever the
elements are.
-/
namespace TensorDag
open Result (bind_eq_ok pure_eq_ok)

/-- The kinds of operators that only move, add, subtract and multiply elements. -/
def Kind.polynomial : List Kind := [
  .binary .add, .binary .sub, .binary .mul, .unary .neg, .matmul, .sum, .reshape, .transpose, .slice, .pad,
  .repeated, .broadcast, .convolution, .featuresGradient, .filtersGradient, .softmaxGradient]

namespace Shape

theorem toNat_ofNat (s : Shape) : (s.map Int.ofNat).map Int.toNat = s := by
  rw [List.map_map]
  exact List.map_id s

theorem four_dims {s : Shape} {a b c d : Int} (dims : s.map Int.ofNat = [a, b, c, d]) :
    ∃ i j k l : Nat, s = [i, j, k, l] ∧ a = i ∧ b = j ∧ c = k ∧ d = l := by
  match s, dims with
  | [i, j, k, l], dims =>
    simp only [List.map_cons, List.cons.injEq] at dims
    exact ⟨i, j, k, l, rfl, dims.1.symm, dims.2.1.symm, dims.2.2.1.symm, dims.2.2.2.1.symm⟩

end Shape

namespace ConvolutionAttributes

/-- The dimensions of features, filters and result of a convolution. -/
theorem shape_eq_ok {c : ConvolutionAttributes} {features filters shape : Shape}
    (fits : c.shape features filters = .ok shape) :
    ∃ batches channels height width outputs rows columns tall wide,
      features = [batches, channels, height, width] ∧ filters = [outputs, channels, rows, columns] ∧
        shape = [batches, outputs, tall, wide] := by
  simp only [ConvolutionAttributes.shape, bind_eq_ok, pure_eq_ok] at fits
  obtain ⟨dims, found, rfl⟩ := fits
  unfold convolutionShape at found
  split at found
  · rename_i batches channels height width outputs inputs rows columns first second
    split at found
    · cases found
    split at found
    · cases found
    dsimp only at found
    split at found
    · cases found
    cases found
    rename_i same _ _
    have same := not_not.mp same
    subst same
    obtain ⟨_, _, _, _, rfl, rfl, rfl, rfl, rfl⟩ := Shape.four_dims first
    obtain ⟨_, _, _, _, rfl, rfl, same, rfl, rfl⟩ := Shape.four_dims second
    cases Int.ofNat.inj same
    exact ⟨_, _, _, _, _, _, _, _, _, rfl, rfl, rfl⟩
  · cases found

end ConvolutionAttributes

namespace Operator

theorem ofParams_kind {kind : Kind} {ps : Params} {op : Operator} (read : ofParams kind ps = .ok op) :
    op.kind = kind := by
  cases kind <;> simp only [ofParams, bind_eq_ok, pure_eq_ok, Except.ok.injEq] at read <;> grind [Operator.kind]

/-- What the rules of a polynomial kind ask of the shapes of inputs and result. -/
def Shaped : Operator → List Shape → Shape → Prop
  | .binary _, [a, b], shape => Shape.broadcast? a b = some shape
  | .unary _, [a], shape => shape = a
  | .matmul, [a, b], shape => ∃ rows inner columns,
      a = [rows, inner] ∧ b = [inner, columns] ∧ shape = [rows, columns]
  | .sum axes, [a], shape => shape = Shape.keep a axes
  | .reshape s, [a], shape => shape = s ∧ Shape.volume s = Shape.volume a
  | .transpose order, [a], shape =>
    isPermutation order a.length = true ∧ shape = order.map fun axis => a.getD axis.toNat 0
  | .slice start stop, [a], shape =>
    start.length = a.length ∧ stop.length = a.length ∧ sliceDims start stop a = .ok shape
  | .pad before after, [a], shape =>
    before.length = a.length ∧ after.length = a.length ∧ (∀ i ∈ before, 0 ≤ i) ∧ (∀ i ∈ after, 0 ≤ i) ∧
      shape = List.zipWith (· + ·) (List.zipWith (· + ·) (before.map Int.toNat) a) (after.map Int.toNat)
  | .repeated count, [a], shape => 1 ≤ count ∧ shape = count.toNat :: a
  | .broadcast s, [a], shape => shape = s ∧ Shape.broadcast? a s = some s
  | .convolution c, [x, filters], shape => c.shape x filters = .ok shape
  | .featuresGradient c, [g, filters], shape => c.features = some shape ∧ c.shape shape filters = .ok g
  | .filtersGradient c, [g, x], shape => c.filters = some shape ∧ c.shape x shape = .ok g
  | .softmaxGradient, [g, y], shape => g = shape ∧ y = shape
  | _, _, _ => False

theorem common_eq_ok {a b s : Shape} {refusal : ShapeFault} (found : Shape.common a b refusal = .ok s) :
    Shape.broadcast? a b = some s := by
  unfold Shape.common at found
  split at found
  · cases found
  · cases stretched : Shape.broadcast? a b with
    | none => simp [stretched, Result.shape] at found
    | some shape => simpa [stretched] using found

/-- The rules of a polynomial kind accept inputs of fitting shapes only. -/
theorem infer_shaped {op : Operator} {types : List TensorType} {type : TensorType}
    (polynomial : op.kind ∈ Kind.polynomial) (inferred : op.infer types = .ok type) :
    op.Shaped (types.map TensorType.shape) type.shape := by
  cases op with
  | binary op =>
    obtain ⟨a, b, s, rfl, _, common, rfl⟩ := inferBinary_eq_ok.mp inferred
    exact common_eq_ok common
  | unary op =>
    rw [inferUnary_eq_ok.mp inferred]
    exact rfl
  | matmul =>
    obtain ⟨e, rows, inner, columns, rfl, rfl⟩ := inferMatmul_eq_ok.mp inferred
    exact ⟨rows, inner, columns, rfl, rfl, rfl⟩
  | sum axes =>
    obtain ⟨t, rfl, rfl⟩ := inferReduction_eq_ok.mp inferred
    exact rfl
  | reshape s =>
    obtain ⟨t, rfl, same, rfl⟩ := inferReshape_eq_ok.mp inferred
    exact ⟨rfl, same⟩
  | transpose order =>
    obtain ⟨t, rfl, permutes, rfl⟩ := inferTranspose_eq_ok.mp inferred
    exact ⟨permutes, rfl⟩
  | slice start stop =>
    obtain ⟨t, rfl, ⟨first, second⟩, s, found, rfl⟩ := inferSlice_eq_ok.mp inferred
    exact ⟨first, second, found⟩
  | pad before after =>
    obtain ⟨t, rfl, ⟨first, second⟩, ⟨low, high⟩, rfl⟩ := inferPad_eq_ok.mp inferred
    exact ⟨first, second, low, high, rfl⟩
  | repeated count =>
    obtain ⟨t, rfl, some, rfl⟩ := inferRepeated_eq_ok.mp inferred
    exact ⟨some, rfl⟩
  | broadcast s =>
    obtain ⟨t, rfl, common, rfl⟩ := inferBroadcast_eq_ok.mp inferred
    exact ⟨rfl, common_eq_ok common⟩
  | convolution c =>
    obtain ⟨a, b, s, rfl, _, fits, rfl⟩ := inferConvolution_eq_ok.mp inferred
    exact fits
  | featuresGradient c =>
    obtain ⟨a, b, s, rfl, _, known, fits, rfl⟩ := inferFeaturesGradient_eq_ok.mp inferred
    exact ⟨known, fits⟩
  | filtersGradient c =>
    obtain ⟨a, b, s, rfl, _, known, fits, rfl⟩ := inferFiltersGradient_eq_ok.mp inferred
    exact ⟨known, fits⟩
  | softmaxGradient =>
    rw [inferSoftmaxGradient_eq_ok.mp inferred]
    exact ⟨rfl, rfl⟩
  | _ => simp [Kind.polynomial, Operator.kind] at polynomial

section
variable {S : Type} [Zero S] [Add S] [Sub S] [Mul S] [Neg S]

/-- The result of a polynomial operator on arguments of fitting shapes. -/
def tensor (op : Operator) (shape : Shape) : List (Tensor S) → Tensor S
  | [a] =>
    match op with
    | .unary _ => a.map (- ·)
    | .sum axes => a.sum axes
    | .reshape _ => a.reshape shape
    | .transpose order => a.transpose (order.map Int.toNat)
    | .slice start stop => a.slice (start.map Int.toNat) (stop.map Int.toNat)
    | .pad before after => a.pad (before.map Int.toNat) (after.map Int.toNat)
    | .repeated _ | .broadcast _ => a.broadcast shape
    | _ => ⟨shape, fun _ => 0⟩
  | [a, b] =>
    match op with
    | .binary .add => Tensor.zipWith (· + ·) shape a b
    | .binary .sub => Tensor.zipWith (· - ·) shape a b
    | .binary .mul => Tensor.zipWith (· * ·) shape a b
    | .matmul => Tensor.matmul a b
    | .convolution c => Tensor.convolution c.windowing shape a b
    | .featuresGradient c => Tensor.featuresGradient c.windowing shape a b
    | .filtersGradient c => Tensor.filtersGradient c.windowing shape a b
    | .softmaxGradient => Tensor.softmaxGradient a b
    | _ => ⟨shape, fun _ => 0⟩
  | _ => ⟨shape, fun _ => 0⟩

theorem sliceDims_eq_ok : ∀ {lows highs : List Int} {dims sizes : Shape},
    sliceDims lows highs dims = .ok sizes → lows.length = dims.length → highs.length = dims.length →
      Shape.Within (lows.map Int.toNat) sizes dims ∧
        sizes = List.zipWith (· - ·) (highs.map Int.toNat) (lows.map Int.toNat) ∧
        List.Forall₂ (fun (high : Int) (dim : Nat) => 0 ≤ high ∧ high ≤ dim) highs dims ∧ ∀ low ∈ lows, 0 ≤ low
  | [], [], [], sizes, found, _, _ => by cases found; exact ⟨trivial, rfl, .nil, by simp⟩
  | [], _ :: _, _, _, _, first, second => by simp at first second; omega
  | _ :: _, [], _, _, _, first, second => by simp at first second; omega
  | low :: lows, high :: highs, dim :: dims, sizes, found, first, second => by
    rw [sliceDims] at found
    split at found
    · rename_i bounds
      obtain ⟨rest, others, made⟩ := bind_eq_ok.mp found
      cases made
      obtain ⟨within, rfl, upper, lower⟩ := sliceDims_eq_ok others (Nat.succ.inj first) (Nat.succ.inj second)
      have size : (high - low).toNat = high.toNat - low.toNat := by omega
      refine ⟨⟨by omega, within⟩, by rw [size]; rfl, .cons (by omega) upper, ?_⟩
      exact List.forall_mem_cons.mpr ⟨bounds.1, lower⟩
    · cases found

/-- A polynomial operator has this result wherever its rules accept the shapes of the arguments; to
repeat them, the cells have to be countable. -/
theorem polynomial?_eq {op : Operator} {args : List (Tensor S)} {shape : Shape}
    {arg : Nat → Result (Tensor S)} (shaped : op.Shaped (args.map Tensor.shape) shape)
    (polynomial : op.kind ∈ Kind.polynomial) (axes : op.kind = .softmaxGradient → shape ≠ [])
    (countable : op.kind = .repeated → ∀ a ∈ args, Shape.broadcast? a.shape shape = some shape)
    (given : ∀ (place : Nat) (t : Tensor S), args[place]? = some t → arg place = .ok t) :
    op.polynomial? shape arg = some (.ok (op.tensor shape args)) := by
  rcases args with _ | ⟨a, _ | ⟨b, _ | ⟨_, _⟩⟩⟩
  · cases op <;> exact shaped.elim
  · have first : arg 0 = .ok a := given 0 a rfl
    cases op with
    | unary op =>
      have negation : op = .neg := by cases op <;> simp_all [Kind.polynomial, Operator.kind]
      subst negation
      simp only [polynomial?, first]
      rfl
    | reshape s =>
      obtain ⟨rfl, volumes⟩ := shaped
      simp only [polynomial?, first, bind, Except.bind, if_pos volumes]
      rfl
    | transpose order =>
      have permutes : isPermutation order a.shape.length = true := shaped.1
      simp only [polynomial?, first, bind, Except.bind, permutes, if_true]
      rfl
    | repeated count =>
      simp only [polynomial?, first, bind, Except.bind, if_pos (countable rfl a (List.mem_singleton_self a))]
      rfl
    | broadcast s =>
      obtain ⟨rfl, stretches⟩ := shaped
      simp only [polynomial?, first, bind, Except.bind, if_pos stretches]
      rfl
    | sum axes | slice start stop | pad before after =>
      simp only [polynomial?, first]
      rfl
    | _ => exact shaped.elim
  · have first : arg 0 = .ok a := given 0 a rfl
    have second : arg 1 = .ok b := given 1 b rfl
    cases op with
    | binary op =>
      have stretches : Shape.broadcast? a.shape b.shape = some shape := shaped
      cases op <;> first
        | simp only [polynomial?, first, second, bind, Except.bind, stretched, stretches]; rfl
        | simp [Kind.polynomial, Operator.kind] at polynomial
    | matmul =>
      obtain ⟨rows, inner, columns, left, right, rfl⟩ := shaped
      simp only [polynomial?, first, second, bind, Except.bind]
      rw [if_pos (by simp [left, right])]
      rfl
    | convolution c =>
      have fits : c.shape a.shape b.shape = .ok shape := shaped
      obtain ⟨_, _, _, _, _, _, _, _, _, left, right, _⟩ := ConvolutionAttributes.shape_eq_ok fits
      simp only [polynomial?, first, second, bind, Except.bind, fourAxes]
      rw [if_pos (by simp [left]), if_pos (by simp [right])]
      simp only [fits]
      rfl
    | featuresGradient c =>
      obtain ⟨known, fits⟩ := shaped
      obtain ⟨_, _, _, _, _, _, _, _, _, _, right, left⟩ := ConvolutionAttributes.shape_eq_ok fits
      simp only [polynomial?, first, second, bind, Except.bind, fourAxes, known]
      rw [if_pos (by simp [left]), if_pos (by simp [right])]
      rfl
    | filtersGradient c =>
      obtain ⟨known, fits⟩ := shaped
      obtain ⟨_, _, _, _, _, _, _, _, _, right, _, left⟩ := ConvolutionAttributes.shape_eq_ok fits
      simp only [polynomial?, first, second, bind, Except.bind, fourAxes, known]
      rw [if_pos (by simp [left]), if_pos (by simp [right])]
      rfl
    | softmaxGradient =>
      obtain ⟨left, right⟩ := shaped
      simp only [polynomial?, first, second, bind, Except.bind]
      rw [if_pos ⟨left.trans right.symm, right ▸ axes rfl⟩]
      rfl
    | _ => exact shaped.elim
  · cases op <;> exact shaped.elim

/-- The result has the shape that the rules infer. -/
theorem tensor_shape {op : Operator} {args : List (Tensor S)} {shape : Shape}
    (shaped : op.Shaped (args.map Tensor.shape) shape) (polynomial : op.kind ∈ Kind.polynomial) :
    (op.tensor shape args).shape = shape := by
  rcases args with _ | ⟨a, _ | ⟨b, _ | ⟨_, _⟩⟩⟩
  · cases op <;> exact shaped.elim
  · cases op with
    | unary op => exact Eq.symm shaped
    | sum axes => exact Tensor.sum_shape.trans (Eq.symm shaped)
    | transpose order => exact (List.map_map ..).trans shaped.2.symm
    | slice start stop => exact (sliceDims_eq_ok shaped.2.2 shaped.1 shaped.2.1).2.1.symm
    | pad before after => exact shaped.2.2.2.2.symm
    | reshape | repeated | broadcast => rfl
    | _ => exact shaped.elim
  · cases op with
    | binary op => cases op <;> rfl
    | matmul =>
      obtain ⟨rows, inner, columns, left, right, rfl⟩ := shaped
      simp [tensor, Tensor.matmul, left, right]
    | convolution | featuresGradient | filtersGradient => rfl
    | softmaxGradient => exact shaped.2
    | _ => exact shaped.elim
  · cases op <;> exact shaped.elim

end

end Operator
end TensorDag
