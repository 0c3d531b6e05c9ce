import TensorDag.Proofs.Inference
import TensorDag.Proofs.Spelling
import TensorDag.Proofs.Yielding

/-!
What calls mean. Entries of fitting kinds spell an operator, which the rules give a type on inputs of fitting types.
-/
namespace TensorDag
open Shape (Stretches)

/-- A call of a kind with some entries on inputs of some types means an operator, and has a result of a type. -/
structure Kind.Means (kind : Kind) (types : List TensorType) (es : Entries) (op : Operator) (type : TensorType) :
    Prop where
  spelled : kind.spell types es = .ok op
  gives : kind.HasResult types es type

namespace Kind
open Building (entry)
variable {x y z : TensorType} {s : Shape} {v low high : Value}

theorem means_of_spell {kind : Kind} {types : List TensorType} {es : Entries} {op : Operator} {type : TensorType}
    (count : Nat) (arity : kind.arity? = some count) (counted : types.length = count)
    (spelled : kind.spell types es = .ok op) (inferred : op.infer types = .ok type) : kind.Means types es op type :=
  ⟨spelled, gives_of_spell count arity counted spelled inferred⟩

theorem means_binary {op : BinaryKind} {types : List TensorType} {type : TensorType}
    (inferred : Operator.inferBinary op types = .ok type) : (Kind.binary op).Means types [] (.binary op) type :=
  ⟨rfl, [], rfl, inferred⟩

theorem means_sum {is : List Int} (bounds : ∀ i ∈ is, 0 ≤ i ∧ i < x.shape.length) (distinct : is.Nodup) :
    ∃ axes : List Nat, (∀ k, k ∈ axes ↔ k < x.shape.length ∧ Int.ofNat k ∈ is) ∧
      Kind.sum.Means [x] [entry "axes" (.ints is)] (.sum axes) ⟨x.elementType, Shape.keep x.shape axes⟩ := by
  obtain ⟨axes, spelled⟩ := spell_sum_ok [x] bounds distinct
  obtain ⟨axes', same, members⟩ := spell_sum (fun i member => (bounds i member).1) spelled
  cases same
  exact ⟨axes, members, means_of_spell 1 rfl rfl spelled rfl⟩

theorem means_reshape (lists : v.Lists (s.map Int.ofNat)) (same : Shape.volume s = Shape.volume x.shape) :
    Kind.reshape.Means [x] [entry "shape" v] (.reshape s) ⟨x.elementType, s⟩ :=
  means_of_spell 1 rfl rfl (spell_reshape lists) (Operator.inferReshape_eq_ok.mpr ⟨x, rfl, same, rfl⟩)

theorem means_broadcast (common : ∀ refusal, Shape.common x.shape s refusal = .ok s) :
    Kind.broadcast.Means [x] [entry "shape" (.dims s)] (.broadcast s) ⟨x.elementType, s⟩ :=
  means_of_spell 1 rfl rfl (spell_broadcast (Value.lists_dims s))
    (Operator.inferBroadcast_eq_ok.mpr ⟨x, rfl, common _, rfl⟩)

theorem means_transpose {order : List Int} (permutes : Operator.isPermutation order x.shape.length = true) :
    Kind.transpose.Means [x] [entry "order" (.ints order)] (.transpose order)
      ⟨x.elementType, order.map fun axis => x.shape.getD axis.toNat 0⟩ :=
  means_of_spell 1 rfl rfl (spell_transpose order) (Operator.inferTranspose_eq_ok.mpr ⟨x, rfl, permutes, rfl⟩)

section margins
variable {lows highs : List Int}

theorem means_slice (first : low.Lists lows) (second : high.Lists highs) (fits : lows.length = x.shape.length)
    (fits' : highs.length = x.shape.length) (inside : Operator.sliceDims lows highs x.shape = .ok s) :
    Kind.slice.Means [x] [entry "start" low, entry "stop" high] (.slice lows highs) ⟨x.elementType, s⟩ :=
  means_of_spell 1 rfl rfl (spell_slice first second)
    (Operator.inferSlice_eq_ok.mpr ⟨x, rfl, ⟨fits, fits'⟩, s, inside, rfl⟩)

theorem means_pad (first : low.Lists lows) (second : high.Lists highs) (fits : lows.length = x.shape.length)
    (fits' : highs.length = x.shape.length) (signs : ∀ i ∈ lows, 0 ≤ i) (signs' : ∀ i ∈ highs, 0 ≤ i)
    (padded : List.zipWith (· + ·) (List.zipWith (· + ·) (lows.map Int.toNat) x.shape) (highs.map Int.toNat) = s) :
    Kind.pad.Means [x] [entry "before" low, entry "after" high] (.pad lows highs) ⟨x.elementType, s⟩ :=
  means_of_spell 1 rfl rfl (spell_pad first second)
    (Operator.inferPad_eq_ok.mpr ⟨x, rfl, ⟨fits, fits'⟩, ⟨signs, signs'⟩, padded ▸ rfl⟩)

end margins

theorem means_featuresGradient {c : ConvolutionAttributes} (slides : Slides c) (lists : v.Lists (s.map Int.ofNat))
    (typed : y.elementType = x.elementType) (fits : c.shape s y.shape = .ok x.shape) :
    Kind.featuresGradient.Means [x, y] (entry "features_shape" v :: (window c).entries)
      (.featuresGradient ⟨c.padding, c.stride, some s, none⟩) ⟨x.elementType, s⟩ := by
  have spelled : Kind.featuresGradient.spell [x, y] (entry "features_shape" v :: (window c).entries) =
      .ok (.featuresGradient ⟨c.padding, c.stride, some s, none⟩) :=
    Result.bind_eq_ok.mpr ⟨_, slides.spell _ rfl rfl (spellShape?_lists rfl lists) rfl, rfl⟩
  refine means_of_spell 2 rfl rfl spelled ?_
  exact (Operator.inferFeaturesGradient_eq_ok (c := ⟨c.padding, c.stride, some s, none⟩)).mpr
    ⟨x, y, s, rfl, typed, rfl, fits, rfl⟩

theorem means_maxpoolGradient {dims : Int × Int} (windows : 1 ≤ dims.1 ∧ 1 ≤ dims.2) (same : x = y)
    (typed : y.elementType = z.elementType) (fits : pooledShape dims z.shape = .ok y.shape) :
    Kind.maxpoolGradient.Means [x, y, z] [entry "dims" (.ofPair dims)] (.maxpoolGradient dims) z := by
  have given : Value.field? "dims" [entry "dims" (Value.ofPair dims)] = some (.ofPair dims) := rfl
  have spelled : Kind.maxpoolGradient.spell [x, y, z] [entry "dims" (.ofPair dims)] = .ok (.maxpoolGradient dims) := by
    simp only [spell, spellPool, given]
    exact Result.bind_eq_ok.mpr ⟨dims, Value.pair_ofPair_eq windows.1 windows.2 .., rfl⟩
  refine means_of_spell 3 rfl rfl spelled (Operator.inferMaxpoolGradient_eq_ok.mpr ?_)
  exact ⟨x, y, rfl, by rw [same], by rw [same, typed], fits, by rw [same]⟩

end Kind
end TensorDag
