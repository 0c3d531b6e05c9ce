import TensorDag.Proofs.Meaning
import TensorDag.Proofs.Nesting

/-!
Operations that return. Each builder of an operation returns a node of a known type on inputs of fitting types.
-/
namespace TensorDag
open Shape (Stretches)
variable [Memory]

omit [Memory] in
theorem Operator.inferBinary_eq (op : BinaryKind) {a b : TensorType} {s : Shape} (typed : a.elementType = b.elementType)
    (common : Shape.broadcast a.shape b.shape = .ok s) : inferBinary op [a, b] = .ok ⟨a.elementType, s⟩ :=
  inferBinary_eq_ok.mpr ⟨a, b, s, rfl, typed, common, rfl⟩

/-! Data that a constant can be filled with. -/

theorem exists_leafBytes_zeros {type : TensorType} (limited : type.shape.Limited) :
    ∃ bytes, leafBytes type .null = .ok bytes :=
  ⟨_, Result.bind_eq_ok.mpr ⟨(), limited.byteSize_room, rfl⟩⟩

omit [Memory] in
theorem Value.word_one (e : ElementType) : ∃ w, Value.word e (.int 1) = .ok w := by
  cases e <;> exact ⟨_, rfl⟩

theorem exists_leafBytes_one {type : TensorType} (single : type.volume = 1) :
    ∃ bytes, leafBytes type (.int 1) = .ok bytes := by
  obtain ⟨w, read⟩ := Value.word_one type.elementType
  have words : (Value.int 1).words type.elementType = .ok [w] :=
    Result.bind_eq_ok.mpr ⟨[], rfl, Result.bind_eq_ok.mpr ⟨w, read, rfl⟩⟩
  refine ⟨Bytes.ofWords [w], Result.bind_eq_ok.mpr ⟨[w], words, ?_⟩⟩
  have sizes : [w].length = type.volume := single.symm
  rw [if_pos sizes]
  rfl

theorem leafBytes_ones {type : TensorType} {w : UInt32} (read : Value.word type.elementType (.int 1) = .ok w) :
    leafBytes type (.list (List.replicate type.volume (.int 1))) =
      .ok (Bytes.ofWords (List.replicate type.volume w)) := by
  let ones : List Int := List.replicate type.volume 1
  have count : ones.length = type.volume := List.length_replicate
  have nested : Value.list (List.replicate type.volume (.int 1)) = .nested [ones.length] ones := by
    rw [Value.nested_ints, Value.ints, List.map_replicate]
  have words : (Value.nested [ones.length] ones).words type.elementType = .ok (ones.map fun _ => w) :=
    Value.words_nested (Nat.succ_le_succ (Nat.zero_le _)) (Nat.mul_one _).symm fun i member =>
      List.eq_of_mem_replicate member ▸ read
  refine Result.bind_eq_ok.mpr ⟨_, nested ▸ words, ?_⟩
  rw [List.map_replicate, if_pos List.length_replicate]
  rfl

theorem exists_leafBytes_ones (type : TensorType) :
    ∃ bytes, leafBytes type (.list (List.replicate type.volume (.int 1))) = .ok bytes := by
  obtain ⟨w, read⟩ := Value.word_one type.elementType
  exact ⟨_, leafBytes_ones read⟩

omit [Memory] in
theorem TensorType.ofValues_dims (type : TensorType) :
    ofValues (.elementType type.elementType) (.dims type.shape) = .ok type := by
  have element : ElementType.ofValue (.elementType type.elementType) = .ok type.elementType := by
    cases type.elementType <;> rfl
  exact Result.bind_eq_ok.mpr ⟨_, element, Result.bind_eq_ok.mpr ⟨_, Value.shape_lists (Value.lists_dims _), rfl⟩⟩

namespace Building.Yields
variable {full operable : Prop} {held : List Node} {a b c x : Node} {s : Shape} {v low high : Value}

/-! Elementwise operations. -/

theorem binary {op : BinaryKind} {type : TensorType} (first : a ∈ held) (second : b ∈ held)
    (inferred : Operator.inferBinary op [a.type, b.type] = .ok type) (fits : type.shape.Bounded full) :
    Yields full operable held .node (·.type = type) (Building.binary op a b) :=
  plain [a, b] (by simp [first, second]) (Kind.means_binary inferred).gives fits nofun
    (by simp [Kind.demanding, Kind.sliding])

theorem stretched (op : BinaryKind) (first : a ∈ held) (second : b ∈ held) (stretches : Stretches b.shape a.shape)
    (typed : b.elementType = a.elementType) :
    Yields full operable held .node (·.type = a.type) (Building.binary op a b) :=
  .known first fun bounded =>
    have common := (stretches.common bounded.shape.axes bounded.shape.holdable _).2
    binary first second (Operator.inferBinary_eq op typed.symm common) bounded.shape

theorem stretching (op : BinaryKind) (first : a ∈ held) (second : b ∈ held) (stretches : Stretches a.shape b.shape)
    (typed : a.elementType = b.elementType) :
    Yields full operable held .node (·.type = b.type) (Building.binary op a b) := by
  refine .known second fun bounded => ?_
  have inferred := Operator.inferBinary_eq op typed (stretches.common bounded.shape.axes bounded.shape.holdable _).1
  rw [show a.type.elementType = b.type.elementType from typed] at inferred
  exact binary first second inferred bounded.shape

theorem alike (op : BinaryKind) (first : a ∈ held) (second : b ∈ held) (same : b.type = a.type) :
    Yields full operable held .node (·.type = a.type) (Building.binary op a b) := by
  refine stretched op first second ?_ (congrArg TensorType.elementType same)
  rw [show b.shape = a.shape from congrArg TensorType.shape same]
  exact .refl _

theorem unary (op : UnaryKind) (own : x ∈ held) :
    Yields full operable held .node (·.type = x.type) (Building.unary op x) :=
  .known own fun bounded => plain [x] (by simpa using own) ⟨[], rfl, rfl⟩ bounded.shape nofun
    (by simp [Kind.demanding, Kind.sliding])

/-! Constants. -/

theorem leaf {type : TensorType} {data : Value} {bytes : Bytes} (fits : type.shape.Bounded full)
    (filled : leafBytes type data = .ok bytes) :
    Yields full operable held .node (·.type = type)
      (Building.constant (.dims type.shape) (.elementType type.elementType) data) :=
  constant type.ofValues_dims filled fits

theorem lift (x : Node) {bytes : Bytes} (filled : leafBytes ⟨x.elementType, []⟩ v = .ok bytes) :
    Yields full operable held .node (·.type = ⟨x.elementType, []⟩) (Building.lift x v) := by
  have typed : TensorType.ofValues (.elementType x.elementType) (.tuple []) = .ok ⟨x.elementType, []⟩ := by
    cases x.elementType <;> rfl
  exact constant typed filled .scalar

/-! Operations on axes. -/

theorem sum {is : List Int} (own : x ∈ held) (bounds : ∀ i ∈ is, 0 ≤ i ∧ i < x.shape.length) (distinct : is.Nodup) :
    Yields full operable held .node (fun m => ∃ axes : List Nat,
      (∀ k, k ∈ axes ↔ k < x.shape.length ∧ Int.ofNat k ∈ is) ∧ m.type = ⟨x.elementType, Shape.keep x.shape axes⟩)
      (Building.sum x is) := by
  refine .known own fun bounded => ?_
  obtain ⟨axes, members, means⟩ := Kind.means_sum (x := x.type) bounds distinct
  have yields : Yields full operable held .node (·.type = ⟨x.elementType, Shape.keep x.shape axes⟩)
      (Building.sum x is) :=
    plain [x] (by simpa using own) means.gives (bounded.shape.keep axes) nofun (by decide)
  exact yields.weaken fun m typed => ⟨axes, members, typed⟩

theorem reshape (own : x ∈ held) (lists : v.Lists (s.map Int.ofNat)) (same : Shape.volume s = Shape.volume x.shape)
    (fits : s.Bounded full) :
    Yields full operable held .node (·.type = ⟨x.elementType, s⟩) (Building.reshape (.node x) v) :=
  plain [x] (by simpa using own) (Kind.means_reshape lists same).gives fits nofun (by decide)

theorem broadcast (own : x ∈ held) (stretches : Stretches x.shape s) (fits : s.Bounded full) :
    Yields full operable held .node (·.type = ⟨x.elementType, s⟩) (Building.broadcast x s) :=
  plain [x] (by simpa using own)
    (Kind.means_broadcast fun refusal => (stretches.common fits.axes fits.holdable refusal).1).gives fits nofun
      (by decide)

theorem transpose {order : List Int} (own : x ∈ held) (permutes : Operator.isPermutation order x.shape.length = true)
    (fits : Shape.Bounded full (order.map fun axis => x.shape.getD axis.toNat 0)) :
    Yields full operable held .node (·.type = ⟨x.elementType, order.map fun axis => x.shape.getD axis.toNat 0⟩)
      (Building.transpose (.node x) (.ints order)) :=
  plain [x] (by simpa using own) (Kind.means_transpose permutes).gives fits nofun (by decide)

theorem transposed {rows columns : Nat} (own : x ∈ held) (shape : x.shape = [rows, columns]) :
    Yields full operable held .node (·.type = ⟨x.elementType, [columns, rows]⟩)
      (Building.transpose (.node x) .null) := by
  refine .known own fun bounded => ?_
  have turned : Shape.Bounded full [columns, rows] := (shape ▸ bounded.shape).perm (.swap ..)
  have inferred : (Operator.transpose ((List.range (Kind.source [x.type]).rank).reverse.map Int.ofNat)).infer [x.type] =
      .ok ⟨x.elementType, [columns, rows]⟩ := by
    have typed : x.type = ⟨x.elementType, [rows, columns]⟩ := by rw [← shape]; rfl
    rw [typed]
    rfl
  exact plain [x] (by simpa using own)
    (Kind.gives_of_spell 1 rfl rfl Kind.spell_transpose_null inferred) turned (fun other => by cases other)
    (by decide)

theorem matmul {rows inner columns : Nat} (first : a ∈ held) (second : b ∈ held) (left : a.shape = [rows, inner])
    (right : b.shape = [inner, columns]) (typed : a.elementType = b.elementType)
    (fits : Shape.Bounded full [rows, columns]) :
    Yields full operable held .node (·.type = ⟨a.elementType, [rows, columns]⟩)
      (Building.on .matmul (.node a) [.node b] []) := by
  have inferred : Operator.inferMatmul [a.type, b.type] = .ok ⟨a.elementType, [rows, columns]⟩ := by
    have left : a.type = ⟨a.elementType, [rows, inner]⟩ := by rw [← left]; rfl
    have right : b.type = ⟨a.elementType, [inner, columns]⟩ := by rw [typed, ← right]; rfl
    exact Operator.inferMatmul_eq_ok.mpr ⟨_, rows, inner, columns, congrArg₂ (fun t u => [t, u]) left right, rfl⟩
  exact plain [a, b] (by simp [first, second]) ⟨[], rfl, inferred⟩ fits nofun (by simp [Kind.demanding, Kind.sliding])

variable {lows highs : List Int}

theorem slice (own : x ∈ held) (first : low.Lists lows) (second : high.Lists highs)
    (long : lows.length = x.shape.length) (long' : highs.length = x.shape.length)
    (inside : Operator.sliceDims lows highs x.shape = .ok s) (fits : s.Bounded full) :
    Yields full operable held .node (·.type = ⟨x.elementType, s⟩) (Building.slice (.node x) low high) :=
  plain [x] (by simpa using own) (Kind.means_slice (x := x.type) first second long long' inside).gives fits nofun
    (by decide)

theorem pad (own : x ∈ held) (first : low.Lists lows) (second : high.Lists highs)
    (long : lows.length = x.shape.length) (long' : highs.length = x.shape.length) (signs : ∀ i ∈ lows, 0 ≤ i)
    (signs' : ∀ i ∈ highs, 0 ≤ i)
    (padded : List.zipWith (· + ·) (List.zipWith (· + ·) (lows.map Int.toNat) x.shape) (highs.map Int.toNat) = s)
    (fits : s.Bounded full) (axes : operable → x.shape ≠ []) :
    Yields full operable held .node (·.type = ⟨x.elementType, s⟩) (Building.pad (.node x) low high) := by
  have means := Kind.means_pad (x := x.type) first second long long' signs signs' padded
  refine apply [x] (by simpa using own) means.gives fits nofun ?_
  intro asked op again
  cases means.spelled.symm.trans again
  exact ⟨axes asked, by simp [Kind.sliding, Operator.kind]⟩

/-! Convolutions and pools. -/

variable {conv : ConvolutionAttributes}

theorem convolution (slides : Kind.Slides conv) (first : a ∈ held) (second : b ∈ held)
    (typed : b.elementType = a.elementType) (slid : conv.shape a.shape b.shape = .ok s) (fits : s.Bounded full)
    (spacious : operable → conv.Spacious a.shape b.shape s) :
    Yields full operable held .node (·.type = ⟨a.elementType, s⟩)
      (Building.convolution (.node a) (.node b) (Kind.window conv)) := by
  have spelled : Kind.convolution.spell [a.type, b.type] (Kind.window conv).entries =
      .ok (.convolution ⟨conv.padding, conv.stride, none, none⟩) :=
    Result.bind_eq_ok.mpr ⟨_, slides.spell _ rfl rfl rfl rfl, rfl⟩
  have inferred : (Operator.convolution ⟨conv.padding, conv.stride, none, none⟩).infer [a.type, b.type] =
      .ok ⟨a.elementType, s⟩ :=
    Operator.inferConvolution_eq_ok.mpr ⟨a.type, b.type, s, rfl, typed, slid, rfl⟩
  refine apply [a, b] (by simp [first, second]) (Kind.gives_of_spell 2 rfl rfl spelled inferred) fits nofun ?_
  intro asked op again
  cases spelled.symm.trans again
  have afford := ConvolutionAttributes.afford_convolution (c := ⟨conv.padding, conv.stride, none, none⟩) typed slid
  exact ⟨trivial, fun _ => afford.mpr
    ⟨(spacious asked).framed, (spacious asked).windows, (spacious asked).products⟩⟩

theorem featuresGradient (slides : Kind.Slides conv) (first : a ∈ held) (second : b ∈ held)
    (typed : b.elementType = a.elementType) (slid : conv.shape s b.shape = .ok a.shape) (fits : s.Bounded full)
    (spacious : operable → conv.Spacious s b.shape a.shape) :
    Yields full operable held .node (·.type = ⟨a.elementType, s⟩)
      (Building.featuresGradient (.node a) (.node b) (.dims s) (Kind.window conv)) := by
  have means := Kind.means_featuresGradient (x := a.type) (y := b.type) slides (Value.lists_dims s) typed slid
  refine apply [a, b] (by simp [first, second]) means.gives fits nofun ?_
  intro asked op again
  cases means.spelled.symm.trans again
  have afford := ConvolutionAttributes.afford_featuresGradient (c := ⟨conv.padding, conv.stride, some s, none⟩) typed
    rfl slid
  exact ⟨trivial, fun _ => afford.mpr
    ⟨(spacious asked).framed, (spacious asked).spread⟩⟩

theorem filtersGradient (slides : Kind.Slides conv) (first : a ∈ held) (second : b ∈ held)
    (typed : b.elementType = a.elementType) (slid : conv.shape b.shape s = .ok a.shape) (fits : s.Bounded full)
    (spacious : operable → conv.Spacious b.shape s a.shape) :
    Yields full operable held .node (·.type = ⟨a.elementType, s⟩)
      (Building.filtersGradient (.node a) (.node b) (.dims s) (Kind.window conv)) := by
  have spelled : Kind.filtersGradient.spell [a.type, b.type]
      (Building.entry "filters_shape" (.dims s) :: (Kind.window conv).entries) =
        .ok (.filtersGradient ⟨conv.padding, conv.stride, none, some s⟩) :=
    Result.bind_eq_ok.mpr ⟨_, slides.spell _ rfl rfl rfl (Kind.spellShape?_dims rfl), rfl⟩
  have inferred : (Operator.filtersGradient ⟨conv.padding, conv.stride, none, some s⟩).infer [a.type, b.type] =
      .ok ⟨a.elementType, s⟩ :=
    (Operator.inferFiltersGradient_eq_ok (c := ⟨conv.padding, conv.stride, none, some s⟩)).mpr
      ⟨a.type, b.type, s, rfl, typed, rfl, slid, rfl⟩
  refine apply [a, b] (by simp [first, second]) (Kind.gives_of_spell 2 rfl rfl spelled inferred) fits nofun ?_
  intro asked op again
  cases spelled.symm.trans again
  have afford : (Operator.filtersGradient ⟨conv.padding, conv.stride, none, some s⟩).afford [a.type, b.type] s =
      .ok () ↔ _ := ConvolutionAttributes.afford_filtersGradient typed
  exact ⟨trivial, fun _ => afford.mpr
    ⟨(spacious asked).framed, (spacious asked).windows, (spacious asked).gathered⟩⟩

theorem maxpoolGradient {dims : Int × Int} (windows : 1 ≤ dims.1 ∧ 1 ≤ dims.2) (first : a ∈ held) (second : b ∈ held)
    (third : c ∈ held) (same : a.type = b.type) (typed : b.elementType = c.elementType)
    (counts : pooledShape dims c.shape = .ok b.shape) :
    Yields full operable held .node (·.type = c.type) (Building.maxpoolGradient (.node a) b c (.ofPair dims)) := by
  refine .known third fun bounded => ?_
  exact plain [a, b, c] (by simp [first, second, third]) (Kind.means_maxpoolGradient windows same typed counts).gives
    bounded.shape (fun other => by cases other) (by decide)

theorem softmaxGradient (first : a ∈ held) (second : b ∈ held) (same : a.type = b.type) (axes : b.shape ≠ []) :
    Yields full operable held .node (·.type = b.type) (Building.softmaxGradient (.node a) b) := by
  refine .known second fun bounded => ?_
  have inferred : Operator.inferSoftmaxGradient [a.type, b.type] = .ok b.type :=
    Operator.inferSoftmaxGradient_eq_ok.mpr (by rw [same])
  exact plain [a, b] (by simp [first, second]) ⟨[], rfl, inferred⟩ bounded.shape (fun _ => axes) (by decide)

end Building.Yields
end TensorDag
